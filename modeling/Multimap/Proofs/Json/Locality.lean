import Multimap.Json.Codec
import Multimap.Proofs.Json.Guarantees

/-!
# What is taken is taken whatever comes behind it

If a scan succeeds on a text, then it takes the same from every longer text and leaves what is
appended (`Scan.Local`, `Reader.Local`). A number alone hangs on what is behind it, if it stands at
the end of the text: what is appended must not carry it on (`Apart`). Strings, words and whatever
ends in a bracket are closed and do not hang on it.

So a member of an object that is cut off anywhere cannot be taken: it would be taken, in the same
way, from the whole member, and leave some of it.

* `local_scanString`, `local_scanNumber`: strings are closed and numbers are not.
* `Reader.Local.foldItems`: items between brackets are closed even if the items are not.
* **`local_readMember`**: members of an object are closed.
-/

namespace Multimap.Json

variable {α β σ : Type}

/-- The text does not carry on a number before it, not even one of which there is only a part. -/
def Apart (more : List Char) : Prop :=
  ∀ c ∈ more.head?, Reader.startsNumber c = false ∧ c ≠ '+' ∧ c ≠ '.' ∧ c ≠ 'e' ∧ c ≠ 'E'

/-- What the scan takes it takes whatever is appended to the text; if it is not closed and nothing
is left, what is appended has to stand apart. -/
structure Scan.Local (closed : Bool) (scan : Scan α) : Prop where
  nil {a : α} {rest : List Char} (h : scan [] = .ok (a, rest)) : rest = []
  append {text rest more : List Char} {a : α} (h : scan text = .ok (a, rest))
    (hmore : closed = false → rest = [] → Apart more) : scan (text ++ more) = .ok (a, rest ++ more)

variable {text rest left more : List Char} {closed : Bool}

/-! ## Scans one after the other -/

theorem except_bind_eq_ok {ε : Type} {x : Except ε α} {f : α → Except ε β} {b : β}
    (h : x >>= f = .ok b) : ∃ a, x = .ok a ∧ f a = .ok b := by
  cases x with
  | error e => cases h
  | ok a => exact ⟨a, rfl, h⟩

/-- A scan of two parts succeeds if both of them do. -/
theorem scan_bind_eq_ok {x : Scan α} {f : α → Scan β} {b : β}
    (h : (x >>= f) text = .ok (b, rest)) :
    ∃ a left, x text = .ok (a, left) ∧ f a left = .ok (b, rest) := by
  obtain ⟨⟨a, left⟩, ha, hb⟩ := except_bind_eq_ok (x := x text) h
  exact ⟨a, left, ha, hb⟩

namespace Scan.Local

theorem closed_append {scan : Scan α} (h : Scan.Local true scan) {a : α}
    (hs : scan text = .ok (a, rest)) : scan (text ++ more) = .ok (a, rest ++ more) :=
  h.append hs fun hclosed => Bool.noConfusion hclosed

theorem pure (a : α) : Scan.Local closed (Pure.pure a : Scan α) :=
  ⟨fun h => by cases h; rfl, fun h _ => by cases h; rfl⟩

theorem throw (e : Fault) : Scan.Local closed (MonadExcept.throw e : Scan α) :=
  ⟨nofun, nofun⟩

theorem ite {P : Prop} [Decidable P] {x y : Scan α} (hx : Scan.Local closed x)
    (hy : Scan.Local closed y) : Scan.Local closed (if P then x else y) := by
  split
  · exact hx
  · exact hy

theorem bind {x : Scan α} {f : α → Scan β} (hx : Scan.Local closed x)
    (hf : ∀ a, Scan.Local closed (f a)) : Scan.Local closed (x >>= f) := by
  constructor
  · intro b rest h
    obtain ⟨a, left, ha, hb⟩ := scan_bind_eq_ok h
    rw [hx.nil ha] at hb
    exact (hf a).nil hb
  · intro text rest more b h hmore
    obtain ⟨a, left, ha, hb⟩ := scan_bind_eq_ok h
    -- If the first part leaves nothing then there is nothing left behind the second either.
    have hleft : closed = false → left = [] → Apart more := by
      rintro hclosed rfl
      exact hmore hclosed ((hf a).nil hb)
    exact (scan_bind (hx.append ha hleft)).trans ((hf a).append hb hmore)

end Scan.Local

theorem local_scanWord (word : List Char) : Scan.Local true (scanWord word) := by
  constructor
  · intro a rest h
    cases word with
    | nil => cases h; rfl
    | cons c word => cases h
  · intro text rest more a h _
    induction word generalizing text with
    | nil => cases h; rfl
    | cons c word ih =>
      cases text with
      | nil => cases h
      | cons d text =>
        rw [scanWord] at h
        split at h
        · next heq =>
          show (if c = d then scanWord word (text ++ more) else _) = _
          rw [if_pos heq]
          exact ih h
        · cases h

/-! ## Strings -/

theorem length_of_mapM {f : α → Option β} {as : List α} {bs : List β} (h : as.mapM f = some bs) :
    bs.length = as.length := by
  induction as generalizing bs with
  | nil => cases h; rfl
  | cons a as ih =>
    rw [List.mapM_cons, Option.bind_eq_bind, Option.bind_eq_some_iff] at h
    obtain ⟨b, -, h⟩ := h
    rw [Option.bind_eq_bind, Option.bind_eq_some_iff] at h
    obtain ⟨bs', hbs', h⟩ := h
    cases h
    exact congrArg Nat.succ (ih hbs')

theorem local_scanHex4 : Scan.Local true scanHex4 := by
  constructor
  · intro n rest h
    cases h
  · intro text rest more n h _
    unfold scanHex4 at h ⊢
    split at h
    · next a b c d hdigits =>
      have hlength : 4 ≤ text.length := by
        have hfour := length_of_mapM hdigits
        rw [List.length_take] at hfour
        change 4 = _ at hfour
        omega
      cases h
      rw [List.take_append_of_le_length hlength, hdigits, List.drop_append_of_le_length hlength]
      rfl
    · cases h

theorem scanCodePoint_eq : scanCodePoint = (do
    let n ← scanHex4
    if isTrailing n then throw .malformed
    else if isLeading n then do
      scanWord ['\\', 'u']
      let trailing ← scanHex4
      if isTrailing trailing then
        return Char.ofNat (0x10000 + (n - 0xD800) * 0x400 + (trailing - 0xDC00))
      else throw .malformed
    else return Char.ofNat n) := by
  funext text
  refine congrArg (Except.bind (scanHex4 text)) (funext fun ⟨n, rest⟩ => ?_)
  by_cases ht : isTrailing n = true
  · simp only [ht, if_true]
    rfl
  by_cases hl : isLeading n = true
  · simp only [ht, hl, if_true]
    refine congrArg (Except.bind (scanWord _ rest)) (funext fun ⟨_, rest⟩ => ?_)
    refine congrArg (Except.bind (scanHex4 rest)) (funext fun ⟨trailing, rest⟩ => ?_)
    by_cases ht' : isTrailing trailing = true
    · simp only [ht', if_true]
      rfl
    · simp only [ht']
      rfl
  · simp only [ht, hl]
    rfl

theorem local_scanCodePoint : Scan.Local true scanCodePoint := by
  rw [scanCodePoint_eq]
  exact local_scanHex4.bind fun _ => .ite (.throw _) <| .ite
    ((local_scanWord _).bind fun _ => local_scanHex4.bind fun _ => .ite (.pure _) (.throw _))
    (.pure _)

theorem local_scanEscape : Scan.Local true scanEscape := by
  constructor
  · intro d rest h
    cases h
  · intro text rest more d h _
    cases text with
    | nil => cases h
    | cons c text =>
      change (if c = 'u' then scanCodePoint text else _) = _ at h
      show (if c = 'u' then scanCodePoint (text ++ more) else _) = _
      split at h
      · next hu =>
        rw [if_pos hu]
        exact local_scanCodePoint.closed_append h
      · next hu =>
        rw [if_neg hu]
        split at h
        · cases h; rfl
        · cases h

/-- **Strings are closed**: their quotation mark ends them. -/
theorem local_scanString : Scan.Local true scanString := by
  constructor
  · intro cs rest h
    rw [scanString] at h
    cases h
  · intro text rest more cs h _
    induction hn : text.length using Nat.strongRecOn generalizing text cs with
    | ind n ih =>
      subst hn
      cases text with
      | nil => rw [scanString] at h; cases h
      | cons c text =>
        rw [scanString] at h
        split at h
        · next hq =>
          cases h
          rw [hq]
          exact scanString_quote _
        split at h
        · next hb =>
          split at h
          · cases h
          · next d left hd =>
            obtain ⟨⟨cs', rest'⟩, hcs, h⟩ := except_bind_eq_ok h
            cases h
            have hlength := Nat.lt_succ_of_lt (length_scanEscape hd)
            rw [hb]
            exact scanString_backslash (local_scanEscape.closed_append hd) (ih _ hlength hcs rfl)
        split at h
        · cases h
        · next hq hb hc =>
          obtain ⟨⟨cs', rest'⟩, hcs, h⟩ := except_bind_eq_ok h
          cases h
          exact scanString_plain hq hb hc (ih _ (Nat.lt_succ_self _) hcs rfl)

/-! ## Numbers -/

theorem Apart.ends (h : Apart more) : Ends more := fun c hc => by
  obtain ⟨hs, -, hp, he, hE⟩ := h c hc
  rw [Reader.startsNumber, Bool.or_eq_false_iff] at hs
  exact ⟨hs.2, hp, he, hE⟩

/-- A text that is taken up to a character is taken up to it whatever is appended, and to its end if
what is appended starts with such a character. -/
theorem takeWhile_append_of_stops {p : Char → Bool}
    (h : text.dropWhile p = [] → ∀ c ∈ more.head?, p c = false) :
    (text ++ more).takeWhile p = text.takeWhile p ∧
      (text ++ more).dropWhile p = text.dropWhile p ++ more := by
  induction text with
  | nil =>
    cases more with
    | nil => exact ⟨rfl, rfl⟩
    | cons c more =>
      have hc := h rfl c rfl
      exact ⟨List.takeWhile_cons_of_neg (by simp [hc]), List.dropWhile_cons_of_neg (by simp [hc])⟩
  | cons c text ih =>
    by_cases hc : p c = true
    · rw [List.dropWhile_cons_of_pos hc] at h
      obtain ⟨htake, hdrop⟩ := ih h
      simp only [List.cons_append, List.takeWhile_cons_of_pos hc, List.dropWhile_cons_of_pos hc,
        htake, hdrop, and_self]
    · simp only [List.cons_append, List.takeWhile_cons_of_neg hc, List.dropWhile_cons_of_neg hc,
        and_self]

theorem local_scanDigits : Scan.Local false scanDigits := by
  constructor
  · intro digits rest h
    cases h
  · intro text rest more digits h hmore
    have hstops : text.dropWhile Char.isDigit = [] → ∀ c ∈ more.head?, c.isDigit = false := by
      intro hdrop
      unfold scanDigits at h
      split at h
      · cases h
      · cases h
        exact fun c hc => ((hmore rfl hdrop).ends c hc).1
    obtain ⟨htake, hdrop⟩ := takeWhile_append_of_stops hstops
    unfold scanDigits at h ⊢
    rw [htake, hdrop]
    split at h
    · cases h
    · cases h
      rfl

theorem local_scanMinus : Scan.Local false scanMinus := by
  constructor
  · intro negative rest h
    cases h
    rfl
  · intro text rest more negative h hmore
    cases text with
    | nil =>
      cases h
      refine scanMinus_of_ne fun hminus => ?_
      have hstarts := (hmore rfl rfl '-' hminus).1
      exact absurd hstarts (by decide)
    | cons c text =>
      by_cases hc : c = '-'
      · subst hc
        cases h
        rfl
      · have hother : ∀ more, scanMinus (c :: more) = .ok (false, c :: more) := fun more =>
          scanMinus_of_ne fun h => hc (Option.some.inj h)
        rw [hother] at h
        cases h
        exact hother _

theorem local_scanSign : Scan.Local false scanSign := by
  have hother : ∀ {c text}, c ≠ '+' → scanSign (c :: text) = scanMinus (c :: text) := by
    intro c text hc
    unfold scanSign
    split
    · next heq => exact absurd (List.cons.inj heq).1 hc
    · rfl
  constructor
  · intro negative rest h
    cases h
    rfl
  · intro text rest more negative h hmore
    cases text with
    | nil =>
      cases more with
      | nil => cases h; rfl
      | cons c more =>
        cases h
        obtain ⟨-, hplus, -⟩ := hmore rfl rfl c rfl
        have hempty : scanMinus [] = .ok (false, []) := rfl
        exact (hother hplus).trans (local_scanMinus.append hempty hmore)
    | cons c text =>
      by_cases hc : c = '+'
      · subst hc
        cases h
        rfl
      · rw [hother hc] at h
        exact (hother hc).trans (local_scanMinus.append h hmore)

theorem local_scanFraction : Scan.Local false scanFraction := by
  have hother : ∀ {c text}, c ≠ '.' → scanFraction (c :: text) = .ok ([], c :: text) := by
    intro c text hc
    unfold scanFraction
    split
    · next heq => exact absurd (List.cons.inj heq).1 hc
    · rfl
  constructor
  · intro fraction rest h
    cases h
    rfl
  · intro text rest more fraction h hmore
    cases text with
    | nil =>
      cases h
      exact scanFraction_of_ends (hmore rfl rfl).ends
    | cons c text =>
      by_cases hc : c = '.'
      · subst hc
        have hdigits : scanDigits text = .ok (fraction, rest) := h
        exact local_scanDigits.append hdigits hmore
      · rw [hother hc] at h
        cases h
        exact hother hc

/-- An exponent behind its letter. -/
theorem scanExponent_cons {c : Char} (hc : c = 'e' ∨ c = 'E') :
    scanExponent (c :: text) = (do
      let negative ← scanSign
      let digits ← scanDigits
      let n : Int := Decimal.value digits
      return some (if negative then -n else n)) text := by
  unfold scanExponent
  rw [if_pos (by simpa using hc)]
  rfl

theorem local_scanExponent : Scan.Local false scanExponent := by
  have hother : ∀ {c text}, ¬ (c = 'e' ∨ c = 'E') →
      scanExponent (c :: text) = .ok (none, c :: text) := by
    intro c text hc
    unfold scanExponent
    rw [if_neg (by simpa using hc)]
    rfl
  constructor
  · intro exponent rest h
    cases h
    rfl
  · intro text rest more exponent h hmore
    cases text with
    | nil =>
      cases h
      exact scanExponent_of_ends (hmore rfl rfl).ends
    | cons c text =>
      by_cases hc : c = 'e' ∨ c = 'E'
      · rw [scanExponent_cons hc] at h
        refine (scanExponent_cons hc).trans (Scan.Local.append ?_ h hmore)
        exact local_scanSign.bind fun _ => local_scanDigits.bind fun _ => .pure _
      · rw [hother hc] at h
        cases h
        exact hother hc

theorem local_scanNumeral : Scan.Local false scanNumeral := by
  unfold scanNumeral
  exact local_scanMinus.bind fun _ => local_scanDigits.bind fun _ => .ite (.throw _) <|
    local_scanFraction.bind fun _ => local_scanExponent.bind fun _ => .pure _

/-- **Numbers** hang on what is behind them only if it carries them on. -/
theorem local_scanNumber : Scan.Local false scanNumber := by
  unfold scanNumber
  refine local_scanNumeral.bind fun n => ?_
  split
  · exact .pure _
  · exact .throw _

/-! ## Readers -/

/-- What the reader takes it takes whatever is appended to the text; if it is not closed and nothing
is left, what is appended has to stand apart. -/
structure Reader.Local (closed : Bool) (read : Reader α) : Prop where
  nil {a : α} {rest : List Char} (h : (read []).run.value = .ok (a, rest)) : rest = []
  append {text rest more : List Char} {a : α} (h : (read text).run.value = .ok (a, rest))
    (hmore : closed = false → rest = [] → Apart more) :
    (read (text ++ more)).run.value = .ok (a, rest ++ more)

theorem value_bind_of_ok {ε : Type} {x : ExceptT ε Logged α} {f : α → ExceptT ε Logged β} {a : α}
    (h : x.run.value = .ok a) : (x >>= f).run.value = (f a).run.value := by
  obtain ⟨v, es⟩ := x
  obtain rfl : v = .ok a := h
  rfl

theorem skipBlank_append {c : Char} {start : List Char} (h : skipBlank text = c :: start) :
    skipBlank (text ++ more) = c :: start ++ more := by
  have hstops : text.dropWhile isBlank = [] → ∀ c ∈ more.head?, isBlank c = false := fun hnil =>
    absurd (h.symm.trans hnil) (List.cons_ne_nil _ _)
  exact (takeWhile_append_of_stops hstops).2.trans (congrArg (· ++ more) h)

namespace Reader.Local

variable {read : Reader α}

theorem closed_append (h : read.Local true) {a : α}
    (hr : (read text).run.value = .ok (a, rest)) :
    (read (text ++ more)).run.value = .ok (a, rest ++ more) :=
  h.append hr fun hclosed => Bool.noConfusion hclosed

theorem of_closed (h : read.Local true) : read.Local closed :=
  ⟨h.nil, fun hr _ => h.closed_append hr⟩

theorem pure (a : α) : Reader.Local closed (Pure.pure a : Reader α) :=
  ⟨fun h => by cases h; rfl, fun h _ => by cases h; rfl⟩

theorem ofScan {scan : Scan α} (h : Scan.Local closed scan) : (ofScan scan).Local closed :=
  ⟨h.nil, h.append⟩

theorem ofLogged (x : Logged α) : (ofLogged x).Local closed :=
  ⟨fun h => by cases h; rfl, fun h _ => by cases h; rfl⟩

theorem bind {next : α → Reader β} (h : read.Local closed) (hnext : ∀ a, (next a).Local closed) :
    (read >>= next).Local closed := by
  constructor
  · intro b rest hb
    obtain ⟨⟨a, left⟩, ha, hb⟩ := value_bind_eq_ok hb
    rw [h.nil ha] at hb
    exact (hnext a).nil hb
  · intro text rest more b hb hmore
    obtain ⟨⟨a, left⟩, ha, hb⟩ := value_bind_eq_ok hb
    have hleft : closed = false → left = [] → Apart more := by
      rintro hclosed rfl
      exact hmore hclosed ((hnext a).nil hb)
    exact (value_bind_of_ok (h.append ha hleft)).trans ((hnext a).append hb hmore)

theorem map (f : α → β) (h : read.Local closed) : (f <$> read).Local closed := by
  rw [← bind_pure_comp]
  exact h.bind fun a => .pure (f a)

end Reader.Local

/-- Nothing is taken from no text. -/
def Reader.Needs (read : Reader α) : Prop := ∀ r, (read []).run.value ≠ .ok r

theorem Reader.Needs.map {read : Reader α} (h : read.Needs) (f : α → β) : (f <$> read).Needs := by
  intro r hr
  rw [← bind_pure_comp] at hr
  obtain ⟨r', hr', -⟩ := value_bind_eq_ok hr
  exact h r' hr'

theorem refuse_ne_ok (expected : Expected) (text : List Char) (r : α × List Char) :
    (Reader.refuse expected : Scan α) text ≠ .ok r := by
  intro h
  obtain ⟨found, left, -, h⟩ := scan_bind_eq_ok h
  cases h

theorem local_string : Scan.Local true Reader.string := by
  constructor
  · intro s rest h
    exact absurd h (refuse_ne_ok .string [] _)
  · intro text rest more s h _
    unfold Reader.string at h ⊢
    cases htext : skipBlank text with
    | nil =>
      rw [htext] at h
      exact absurd h (refuse_ne_ok .string [] _)
    | cons c start =>
      rw [skipBlank_append htext]
      rw [htext] at h
      by_cases hc : c = '"'
      · subst hc
        obtain ⟨⟨cs, left⟩, hcs, h⟩ := except_bind_eq_ok h
        cases h
        show Except.bind (scanString (start ++ more)) _ = _
        rw [local_scanString.closed_append hcs]
        rfl
      · split at h
        · next heq => exact absurd (List.cons.inj heq).1 hc
        · exact absurd h (refuse_ne_ok .string _ _)

theorem needs_string : (Reader.ofScan Reader.string).Needs := refuse_ne_ok .string []

theorem local_number (expected : Expected) : Scan.Local false (Reader.number expected) := by
  constructor
  · intro n rest h
    exact absurd h (refuse_ne_ok expected [] _)
  · intro text rest more n h hmore
    unfold Reader.number at h ⊢
    cases htext : skipBlank text with
    | nil =>
      rw [htext] at h
      exact absurd h (refuse_ne_ok expected [] _)
    | cons c start =>
      rw [skipBlank_append htext]
      rw [htext] at h
      by_cases hc : Reader.startsNumber c = true
      · rw [if_pos (by simpa using hc)] at h
        exact (if_pos (by simpa using hc)).trans (local_scanNumber.append h hmore)
      · rw [if_neg (by simpa using hc)] at h
        exact absurd h (refuse_ne_ok expected _ _)

theorem local_integer (expected : Expected) (least greatest : Int) :
    Scan.Local false (Reader.integer expected least greatest) := by
  unfold Reader.integer
  refine (local_number expected).bind fun n => ?_
  cases n with
  | integer n =>
    by_cases hn : least ≤ n ∧ n ≤ greatest
    · rw [Number.toRange, if_pos hn]
      exact .pure n
    · rw [Number.toRange, if_neg hn]
      exact .throw _
  | real x => exact .throw _

theorem needs_integer (expected : Expected) (least greatest : Int) :
    (Reader.ofScan (Reader.integer expected least greatest)).Needs := by
  intro r h
  obtain ⟨n, left, hn, -⟩ := scan_bind_eq_ok (x := Reader.number expected)
    (show Reader.integer expected least greatest [] = .ok (r.1, r.2) from h)
  exact refuse_ne_ok expected [] _ hn

/-! ## Items between brackets -/

theorem local_skipComma (close : Char) : Scan.Local true (Reader.skipComma close) := by
  constructor
  · intro u rest h
    cases h
  · intro text rest more u h _
    cases text with
    | nil => cases h
    | cons c text =>
      by_cases hc : c = ','
      · subst hc
        simp only [Reader.skipComma, List.cons_append] at h ⊢
        cases htext : skipBlank text with
        | nil =>
          rw [htext] at h
          cases h
        | cons c start =>
          rw [skipBlank_append htext]
          rw [htext] at h
          by_cases hc : c = close
          · simp only [if_pos hc] at h
            cases h
          · simp only [List.cons_append, if_neg hc] at h ⊢
            cases h
            rfl
      · unfold Reader.skipComma at h
        split at h
        · next heq => exact absurd (List.cons.inj heq).1 hc
        · cases h

namespace Reader.Local

/-- **What stands between brackets is closed**, even if the items are not: the bracket ends it. -/
theorem foldItems {close : Char} {item : σ → Reader σ} (hitem : ∀ acc, (item acc).Local false)
    (first : Bool) (acc : σ) : (foldItems close item first acc).Local true := by
  have hended : ∀ {first acc text r}, skipBlank text = [] →
      (Reader.foldItems close item first acc text).run.value ≠ .ok r := by
    intro first acc text r htext h
    rw [Reader.foldItems, htext] at h
    cases h
  constructor
  · intro a rest h
    exact absurd h (hended rfl)
  · intro text rest more a h _
    induction hn : text.length using Nat.strongRecOn generalizing text first acc with
    | ind n ih =>
      subst hn
      cases htext : skipBlank text with
      | nil => exact absurd h (hended htext)
      | cons c start =>
        rw [Reader.foldItems, skipBlank_append htext]
        rw [Reader.foldItems, htext] at h
        by_cases hc : c = close
        · simp only [if_pos hc, List.cons_append] at h ⊢
          cases h
          rfl
        · simp only [if_neg hc, List.cons_append] at h ⊢
          obtain ⟨⟨_, start'⟩, hstart, h⟩ := value_bind_eq_ok h
          obtain ⟨⟨acc', left⟩, hacc, h⟩ := value_bind_eq_ok h
          dsimp only at h
          split at h
          · next hlt =>
            -- Something is left behind the item, or the bracket would be missing.
            have hleft : left ≠ [] := by
              rintro rfl
              exact hended rfl h
            have hskip : (Reader.ofScan (if first then Pure.pure () else Reader.skipComma close)
                (c :: (start ++ more))).run.value = .ok ((), start' ++ more) := by
              cases first with
              | true => cases hstart; rfl
              | false => exact (Local.ofScan (local_skipComma close)).closed_append hstart
            have hitem' : (item acc (start' ++ more)).run.value = .ok (acc', left ++ more) :=
              (hitem acc).append hacc fun _ hnil => absurd hnil hleft
            have hlt' : (left ++ more).length < (text ++ more).length := by
              rw [List.length_append, List.length_append]
              exact Nat.add_lt_add_right hlt _
            refine (value_bind_of_ok hskip).trans ((value_bind_of_ok hitem').trans ?_)
            dsimp only
            rw [if_pos hlt']
            exact ih left.length hlt false acc' h rfl
          · cases h

theorem optional {value : Reader α} (h : value.Local false) (hneeds : value.Needs) :
    (optional value).Local false := by
  have hsome := h.map some
  have hnothing := hneeds.map some
  have hother : ∀ {text c start}, skipBlank text = c :: start → c ≠ 'n' →
      Reader.optional value text = (some <$> value) (c :: start) := by
    intro text c start htext hc
    unfold Reader.optional
    rw [htext]
    split
    · next heq => exact absurd (List.cons.inj heq).1 hc
    · rfl
  constructor
  · intro v rest hv
    exact absurd hv (hnothing _)
  · intro text rest more v hv hmore
    cases htext : skipBlank text with
    | nil =>
      unfold Reader.optional at hv
      rw [htext] at hv
      exact absurd hv (hnothing _)
    | cons c start =>
      have hskip : skipBlank (text ++ more) = c :: (start ++ more) := by
        rw [skipBlank_append htext, List.cons_append]
      by_cases hc : c = 'n'
      · subst hc
        have hnull : (Reader.ofScan (scanWord "ull".toList) >>= fun _ =>
            Pure.pure (none : Option α)).Local false :=
          (Local.of_closed (.ofScan (local_scanWord _))).bind fun _ => .pure none
        unfold Reader.optional at hv ⊢
        rw [htext] at hv
        rw [hskip]
        exact hnull.append hv hmore
      · rw [hother htext hc] at hv
        rw [hother hskip hc]
        exact hsome.append hv hmore

/-- **An array is closed.** -/
theorem sequence {value : Reader α} (h : value.Local false) (hneeds : value.Needs) :
    (sequence value).Local true := by
  have hitem : ∀ acc : List (Option α),
      (do return acc ++ [← Reader.optional value] : Reader (List (Option α))).Local false :=
    fun acc => (h.optional hneeds).bind fun v => .pure (acc ++ [v])
  have hrefuse : ∀ text r,
      (Reader.ofScan (Reader.refuse .sequence) text : ExceptT Fault Logged
        (List (Option α) × List Char)).run.value ≠ .ok r := refuse_ne_ok .sequence
  constructor
  · intro vs rest hvs
    exact absurd hvs (hrefuse _ _)
  · intro text rest more vs hvs _
    unfold Reader.sequence at hvs ⊢
    cases htext : skipBlank text with
    | nil =>
      rw [htext] at hvs
      exact absurd hvs (hrefuse _ _)
    | cons c start =>
      rw [skipBlank_append htext]
      rw [htext] at hvs
      by_cases hc : c = '['
      · subst hc
        exact (foldItems hitem true []).closed_append hvs
      · split at hvs
        · next heq => exact absurd (List.cons.inj heq).1 hc
        · exact absurd hvs (hrefuse _ _)

end Reader.Local

end Multimap.Json

namespace Multimap

open Json

variable {V P : Type} [JsonValue V] [AbsencePolicy P V]

theorem local_readName : Scan.Local true (readName : Scan String) := by
  have hname : Scan.Local true (MemberName.scanName : Scan String) :=
    Scan.Local.bind (x := scanString) local_scanString fun _ => .pure _
  constructor
  · intro k rest h
    cases h
  · intro text rest more k h _
    cases text with
    | nil => cases h
    | cons c text =>
      by_cases hc : c = '"'
      · subst hc
        exact hname.closed_append h
      · unfold readName at h
        split at h
        · next heq => exact absurd (List.cons.inj heq).1 hc
        · cases h

theorem local_skipColon : Scan.Local true Reader.skipColon := by
  constructor
  · intro u rest h
    cases h
  · intro text rest more u h _
    unfold Reader.skipColon at h ⊢
    cases htext : skipBlank text with
    | nil =>
      rw [htext] at h
      cases h
    | cons c start =>
      rw [skipBlank_append htext]
      rw [htext] at h
      exact (local_scanWord _).closed_append h

/-- **A member of an object is closed.** -/
theorem local_readMember (h : (JsonValue.read : Reader V).Local false)
    (hneeds : (JsonValue.read : Reader V).Needs) (m : Multimap String V P) :
    (readMember m).Local true := by
  unfold readMember
  refine (Reader.Local.ofScan local_readName).bind fun k => ?_
  refine (Reader.Local.ofScan local_skipColon).bind fun _ => ?_
  exact (h.sequence hneeds).bind fun offered => .ofLogged _

end Multimap
