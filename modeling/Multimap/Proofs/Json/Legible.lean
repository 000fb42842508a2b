import Multimap.Proofs.Json.Acceptance
import Multimap.Proofs.Json.Numerals

/-!
# Documents that are refused

A document is refused for the kind that it is of as soon as its text can be told from others. Only a
number may fail that: one that lies beyond the doubles has no value, and is no JSON to the reader.
All others are legible (`Document.Legible`). What stands in a document further down is not looked
at.

* `real_of_scanNumber`: a double that is written is never taken for an integer.
* `decided_scanNumber`: a number that cannot be taken is malformed, if its text does not just end.
* `Document.refuse`: a document is refused where something else is wanted, and for which fault.
* **`refuses_string`, `refuses_integer`**: where strings or integers of a range are wanted, all
  other documents are.
-/

namespace Multimap.Json

variable {α β : Type} {text rest left more : List Char} {c : Char}

/-! ## Texts of numbers -/

theorem exists_of_scanNumber {v : Number} (h : scanNumber text = .ok (v, rest)) :
    ∃ n, scanNumeral text = .ok (n, rest) ∧ n.number? = some v := by
  obtain ⟨n, left, hn, h⟩ := scan_bind_eq_ok h
  cases hv : n.number? with
  | none =>
    rw [hv] at h
    cases h
  | some v' =>
    rw [hv] at h
    cases h
    exact ⟨n, hn, hv⟩

theorem startsNumber_of_scanNumber {v : Number} (h : scanNumber text = .ok (v, rest)) :
    ∃ c start, text = c :: start ∧ Reader.startsNumber c = true := by
  obtain ⟨n, hn, -⟩ := exists_of_scanNumber h
  obtain ⟨negative, start, hminus, hn⟩ := scan_bind_eq_ok hn
  obtain ⟨digits, left', hdigits, -⟩ := scan_bind_eq_ok hn
  cases text with
  | nil =>
    cases hminus
    cases hdigits
  | cons c text =>
    refine ⟨c, text, rfl, ?_⟩
    by_cases hc : c = '-'
    · rw [hc]
      rfl
    · have hnone : scanMinus (c :: text) = .ok (false, c :: text) :=
        scanMinus_of_ne fun h => hc (Option.some.inj h)
      rw [hnone] at hminus
      cases hminus
      by_cases hd : c.isDigit = true
      · rw [Reader.startsNumber, hd, Bool.or_true]
      · unfold scanDigits at hdigits
        rw [List.takeWhile_cons_of_neg hd] at hdigits
        cases hdigits

/-- The number of digits with a point or an exponent behind them has a fraction or an exponent. -/
theorem fraction_of_scanNumeral {negative : Bool} {digits : List Char} {n : Numeral}
    (hd : ∀ d ∈ digits, d.isDigit) (hne : digits ≠ []) (hc : c = '.' ∨ c = 'e')
    (h : scanNumeral ((if negative then ['-'] else []) ++ digits ++ c :: more) = .ok (n, rest)) :
    n.fraction ≠ [] ∨ n.exponent ≠ none := by
  have hbehind : (digits ++ c :: more).dropWhile Char.isDigit = c :: more := by
    have hnot : ¬ c.isDigit = true := by rcases hc with rfl | rfl <;> decide
    rw [List.dropWhile_append_of_pos hd, List.dropWhile_cons_of_neg hnot]
  unfold scanNumeral at h
  rw [List.append_assoc, scan_bind (scanMinus_sign hd hne negative _)] at h
  obtain ⟨whole, left, hwhole, h⟩ := scan_bind_eq_ok h
  have hleft : left = c :: more := by
    unfold scanDigits at hwhole
    split at hwhole
    · cases hwhole
    · cases hwhole
      exact hbehind
  subst hleft
  split at h
  · cases h
  obtain ⟨fraction, left, hfraction, h⟩ := scan_bind_eq_ok h
  obtain ⟨exponent, left', hexponent, h⟩ := scan_bind_eq_ok h
  cases h
  rcases hc with rfl | rfl
  · left
    change scanDigits more = _ at hfraction
    unfold scanDigits at hfraction
    split at hfraction
    · cases hfraction
    · next hdigits =>
      cases hfraction
      exact hdigits
  · right
    cases hfraction
    rw [scanExponent_cons (.inl rfl)] at hexponent
    obtain ⟨_, _, _, hexponent⟩ := scan_bind_eq_ok hexponent
    obtain ⟨_, _, _, hexponent⟩ := scan_bind_eq_ok hexponent
    cases hexponent
    exact nofun

/-- The digits of a decimal number end in a point or an exponent. -/
theorem exists_of_writeScientific (n : Decimal.Scientific) :
    ∃ digits c more, Decimal.Style.json.writeScientific n = digits ++ c :: more ∧
      (∀ d ∈ digits, d.isDigit) ∧ digits ≠ [] ∧ (c = '.' ∨ c = 'e') := by
  obtain ⟨digits, fraction, exponent, h⟩ := exists_parts n
  have htext := h.text_eq
  rw [List.append_assoc] at htext
  cases h.fractionText with
  | nothing =>
    cases h.exponentText with
    | nothing => exact absurd rfl h.behind_ne_nil
    | exponent hs hd hne => exact ⟨digits, 'e', _, htext, h.isDigit, h.ne_nil, .inr rfl⟩
  | point hd hne => exact ⟨digits, '.', _, htext, h.isDigit, h.ne_nil, .inl rfl⟩

theorem real_of_number? {n : Numeral} {v : Number} (hn : n.fraction ≠ [] ∨ n.exponent ≠ none)
    (h : n.number? = some v) : ∃ x, v = .real x := by
  have hnone : n.toInteger? = none := by
    unfold Numeral.toInteger?
    dsimp only
    rw [if_neg]
    intro hall
    simp only [Bool.and_eq_true, List.isEmpty_iff, Option.isNone_iff_eq_none] at hall
    exact hn.elim (· hall.1.1.1.1) (· hall.1.1.1.2)
  unfold Numeral.number? at h
  rw [hnone] at h
  obtain ⟨x, -, rfl⟩ := Option.map_eq_some_iff.mp h
  exact ⟨x, rfl⟩

/-- A double is written as a word, which is no JSON, or as digits up to a point or an exponent. -/
theorem write_real (x : Float) :
    (∃ word ∈ ["NaN".toList, "inf".toList, "-inf".toList], (Document.real x).write = word) ∨
      ∃ (negative : Bool) (digits : List Char) (c : Char) (more : List Char),
        (Document.real x).write = (if negative then ['-'] else []) ++ digits ++ c :: more ∧
        (∀ d ∈ digits, d.isDigit) ∧ digits ≠ [] ∧ (c = '.' ∨ c = 'e') := by
  rw [Document.write, Decimal.Style.write]
  cases Double.ofFloat x with
  | notANumber => exact .inl ⟨_, .head _, rfl⟩
  | infinite negative =>
    cases negative with
    | false => exact .inl ⟨_, .tail _ (.head _), rfl⟩
    | true => exact .inl ⟨_, .tail _ (.tail _ (.head _)), rfl⟩
  | finite negative m q =>
    obtain ⟨digits, c, more, htext, hdigits⟩ :=
      exists_of_writeScientific (Decimal.shortest Decimal.Style.json.tie m q)
    refine .inr ⟨negative, digits, c, more, ?_, hdigits⟩
    dsimp only
    rw [htext, List.append_assoc]

/-- **A double is never taken for an integer.** -/
theorem real_of_scanNumber {x : Float} {v : Number}
    (h : scanNumber ((Document.real x).write ++ more) = .ok (v, rest)) : ∃ y, v = .real y := by
  obtain ⟨n, hn, hv⟩ := exists_of_scanNumber h
  rcases write_real x with ⟨word, hword, htext⟩ | ⟨negative, digits, c, behind, htext, hd, hne, hc⟩
  · rw [htext] at hn
    simp only [List.mem_cons, List.not_mem_nil, or_false] at hword
    rcases hword with rfl | rfl | rfl <;> cases hn
  · rw [htext, List.append_assoc, List.cons_append] at hn
    exact real_of_number? (fraction_of_scanNumeral hd hne hc hn) hv

/-- An integer is taken for itself, if it is taken for an integer. -/
theorem eq_of_scanNumber {n m : Int} (hmore : Ends more)
    (h : scanNumber ((Document.integer n).write ++ more) = .ok (.integer m, rest)) : m = n := by
  obtain ⟨numeral, hn, hv⟩ := exists_of_scanNumber h
  cases (scanNumeral_ofInt n hmore).symm.trans hn
  unfold Numeral.number? at hv
  split at hv
  · next i hi =>
    cases hv
    unfold Numeral.toInteger? naturalNumeral at hi
    simp only [Decimal.value_ofNat, Option.ite_none_right_eq_some] at hi
    obtain ⟨-, hvalue⟩ := hi
    by_cases hneg : n < 0
    · rw [if_pos (decide_eq_true hneg)] at hvalue
      have := Option.some.inj hvalue
      omega
    · rw [if_neg fun h => hneg (of_decide_eq_true h)] at hvalue
      have := Option.some.inj hvalue
      omega
  · obtain ⟨x, -, hx⟩ := Option.map_eq_some_iff.mp hv
    cases hx

/-! ## What stands behind a number -/

/-- Where the scan fails, what stands there is malformed: the text does not just end too soon, if
something that stands apart comes behind it. -/
def Scan.Decided (scan : Scan α) : Prop :=
  ∀ ⦃text more : List Char⦄ ⦃f : Fault⦄, scan text = .error f → Apart more → more ≠ [] →
    scan (text ++ more) = .error .malformed

namespace Scan.Decided

theorem of_total {scan : Scan α} (h : ∀ text, ∃ r, scan text = .ok r) : scan.Decided := by
  intro text more f hf
  obtain ⟨r, hr⟩ := h text
  cases hr.symm.trans hf

theorem malformed : (MonadExcept.throw .malformed : Scan α).Decided := fun _ _ _ _ _ _ => rfl

theorem bind {x : Scan α} {f : α → Scan β} (hlocal : x.Local false) (hx : x.Decided)
    (hf : ∀ a, (f a).Decided) : (x >>= f).Decided := by
  intro text more e he hmore hne
  cases hfirst : x text with
  | error e' => exact scan_bind_error (hx hfirst hmore hne)
  | ok r =>
    rw [scan_bind hfirst] at he
    exact (scan_bind (hlocal.append hfirst fun _ _ => hmore)).trans (hf r.1 he hmore hne)

end Scan.Decided

theorem decided_scanDigits : scanDigits.Decided := by
  intro text more f hf hmore hne
  have hstops : text.dropWhile Char.isDigit = [] → ∀ c ∈ more.head?, c.isDigit = false :=
    fun _ c hc => (hmore.ends c hc).1
  unfold scanDigits at hf ⊢
  rw [(takeWhile_append_of_stops hstops).1]
  split at hf
  · cases htext : text ++ more with
    | nil => exact absurd (List.append_eq_nil_iff.mp htext).2 hne
    | cons c text => rfl
  · cases hf

theorem decided_scanMinus : scanMinus.Decided := .of_total fun text => by
  unfold scanMinus
  split <;> exact ⟨_, rfl⟩

theorem decided_scanSign : scanSign.Decided := .of_total fun text => by
  unfold scanSign scanMinus
  split
  · exact ⟨_, rfl⟩
  · split <;> exact ⟨_, rfl⟩

theorem decided_scanFraction : scanFraction.Decided := by
  intro text more f hf hmore hne
  unfold scanFraction at hf
  split at hf
  · exact decided_scanDigits hf hmore hne
  · cases hf

theorem decided_scanExponent : scanExponent.Decided := by
  intro text more f hf hmore hne
  cases text with
  | nil => cases hf
  | cons c text =>
    by_cases hc : c = 'e' ∨ c = 'E'
    · rw [scanExponent_cons hc] at hf
      refine (scanExponent_cons hc).trans (Scan.Decided.bind local_scanSign decided_scanSign
        (fun _ => ?_) hf hmore hne)
      exact .bind local_scanDigits decided_scanDigits fun _ => .of_total fun _ => ⟨_, rfl⟩
    · unfold scanExponent at hf
      rw [if_neg (by simpa using hc)] at hf
      cases hf

theorem decided_scanNumeral : scanNumeral.Decided := by
  unfold scanNumeral
  refine .bind local_scanMinus decided_scanMinus fun _ => ?_
  refine .bind local_scanDigits decided_scanDigits fun _ => ?_
  split
  · exact .malformed
  refine .bind local_scanFraction decided_scanFraction fun _ => ?_
  exact .bind local_scanExponent decided_scanExponent fun _ => .of_total fun _ => ⟨_, rfl⟩

theorem decided_scanNumber : scanNumber.Decided := by
  unfold scanNumber
  refine .bind local_scanNumeral decided_scanNumeral fun n => ?_
  split
  · exact .of_total fun _ => ⟨_, rfl⟩
  · exact .malformed

/-! ## Legible documents -/

namespace Document

def IsNumber : Document → Prop
  | integer _ | real _ => True
  | _ => False

/-- If the document is a number then a number is taken from its text, as it is unless it lies beyond
the doubles. -/
def Legible (d : Document) : Prop := d.IsNumber → ∃ r, scanNumber d.write = .ok r

variable {d : Document}

theorem Plain.legible (h : d.Plain) : d.Legible := by
  intro hd
  cases h with
  | @integer n hl hg =>
    have hn := scanNumber_ofInt hl hg Ends.nil
    rw [List.append_nil] at hn
    exact ⟨_, hn⟩
  | _ => cases hd

/-- An integer is legible if its digits have a value as a number. -/
theorem legible_integer_iff (n : Int) :
    (integer n).Legible ↔ ((naturalNumeral (n < 0) n.natAbs).number?).isSome = true := by
  have hnumeral := scanNumeral_ofInt n Ends.nil
  rw [List.append_nil] at hnumeral
  constructor
  · intro h
    obtain ⟨⟨v, rest⟩, hr⟩ := h trivial
    obtain ⟨numeral, hn, hv⟩ := exists_of_scanNumber hr
    cases hnumeral.symm.trans hn
    rw [hv]
    rfl
  · intro h _
    obtain ⟨v, hv⟩ := Option.isSome_iff_exists.mp h
    refine ⟨(v, []), ?_⟩
    show scanNumber (Decimal.ofInt n) = _
    unfold scanNumber
    rw [scan_bind hnumeral, hv]
    rfl

/-- What stands apart behind a number does not decide whether it is taken. -/
theorem scanNumber_write (hd : d.IsNumber) (hmore : Apart more) (hne : more ≠ []) :
    (d.Legible ∧ ∃ r, scanNumber (d.write ++ more) = .ok r) ∨
      ¬ d.Legible ∧ scanNumber (d.write ++ more) = .error .malformed := by
  cases h : scanNumber d.write with
  | error f =>
    refine .inr ⟨fun hlegible => ?_, decided_scanNumber h hmore hne⟩
    obtain ⟨r, hr⟩ := hlegible hd
    cases h.symm.trans hr
  | ok r => exact .inl ⟨fun _ => ⟨r, h⟩, _, local_scanNumber.append h fun _ _ => hmore⟩

theorem eq_integer_of_scanNumber {n : Int} (hd : d.IsNumber) (hmore : Ends more)
    (h : scanNumber (d.write ++ more) = .ok (.integer n, rest)) : d = .integer n := by
  cases d with
  | integer m => rw [eq_of_scanNumber hmore h]
  | real x =>
    obtain ⟨y, hy⟩ := real_of_scanNumber h
    cases hy
  | _ => cases hd

/-- No document of any kind starts as the words do that stand for a double. -/
theorem not_startsWith (hc : c = 'N' ∨ c = 'i') (d : Document) : ¬ d.startsWith c = true := by
  rcases hc with rfl | rfl <;> cases d with
  | boolean b => cases b <;> exact nofun
  | _ => exact nofun

/-- A document starts with a character that opens a value, and with one of its kind if it is one of
any kind. -/
theorem write_opens (d : Document) (rest : List Char) :
    ∃ c text, d.write ++ rest = c :: text ∧ Opens c ∧
      ∀ d' : Document, d'.startsWith c = true → d.startsWith c = true := by
  have hplain : d.Plain → ∃ c text, d.write ++ rest = c :: text ∧ Opens c ∧
      ∀ d' : Document, d'.startsWith c = true → d.startsWith c = true := by
    intro h
    obtain ⟨c, text, htext, hopens, hstarts⟩ := h.write_opens rest
    exact ⟨c, text, htext, hopens, fun _ _ => hstarts⟩
  cases d with
  | null => exact hplain .null
  | boolean b => exact hplain (.boolean b)
  | integer n =>
    obtain ⟨c, text, htext, hc⟩ := startsNumber_ofInt n rest
    exact ⟨c, text, htext, opens_of_startsNumber hc, fun _ _ => hc⟩
  | real x =>
    rcases write_real x with ⟨word, hword, htext⟩ | ⟨negative, digits, c, more, htext, hd, hne, -⟩
    · rw [htext]
      simp only [List.mem_cons, List.not_mem_nil, or_false] at hword
      rcases hword with rfl | rfl | rfl
      · exact ⟨'N', _, rfl, ⟨rfl, by decide, by decide⟩, fun d h =>
          absurd h (not_startsWith (.inl rfl) d)⟩
      · exact ⟨'i', _, rfl, ⟨rfl, by decide, by decide⟩, fun d h =>
          absurd h (not_startsWith (.inr rfl) d)⟩
      · exact ⟨'-', _, rfl, opens_of_startsNumber rfl, fun _ _ => rfl⟩
    · obtain ⟨d, digits, rfl⟩ := List.exists_cons_of_ne_nil hne
      have hdigit : Reader.startsNumber d = true := by
        rw [Reader.startsNumber, hd d List.mem_cons_self, Bool.or_true]
      rw [htext]
      cases negative with
      | false => exact ⟨d, _, rfl, opens_of_startsNumber hdigit, fun _ _ => hdigit⟩
      | true => exact ⟨'-', _, rfl, opens_of_startsNumber rfl, fun _ _ => rfl⟩
  | string s => exact hplain (.string s)
  | array _ => exact ⟨'[', _, rfl, ⟨rfl, by decide, by decide⟩, fun _ _ => rfl⟩
  | object _ => exact ⟨'{', _, rfl, ⟨rfl, by decide, by decide⟩, fun _ _ => rfl⟩

theorem IsNumber.startsNumber (hd : d.IsNumber) (h : d.startsWith c = true) :
    Reader.startsNumber c = true := by
  cases d with
  | integer _ | real _ => exact h
  | _ => cases hd

theorem isNumber_of_startsWith (h : d.startsWith c = true) (hc : Reader.startsNumber c = true) :
    d.IsNumber := by
  cases d with
  | integer _ | real _ => trivial
  | boolean b => cases b <;> (obtain rfl := of_decide_eq_true h; nomatch hc)
  | _ => obtain rfl := of_decide_eq_true h; nomatch hc

/-- The fault for which a document is refused that is not wanted. -/
inductive RefusedBy : Document → Fault → Prop
  /-- It is of another kind. -/
  | kind {d : Document} (h : d.Legible) (e : Mismatch) : RefusedBy d (.mismatch e)
  /-- It is a number that lies beyond the doubles, and no JSON to the reader. -/
  | beyond {d : Document} (h : ¬ d.Legible) : RefusedBy d .malformed

end Document

/-! ## Readers that refuse -/

theorem scanFound_of_scanNumber {r : Number × List Char} (h : scanNumber (c :: text) = .ok r) :
    ∃ r, Reader.scanFound (c :: text) = .ok r := by
  obtain ⟨v, left⟩ := r
  obtain ⟨_, _, htext, hc⟩ := startsNumber_of_scanNumber h
  cases htext
  simp only [Reader.scanFound]
  split
  case h_7 =>
    rw [if_pos hc, h]
    cases v <;> exact ⟨_, rfl⟩
  all_goals exact absurd rfl (ne_of_startsNumber hc (by decide))

/-- A text that starts as numbers do, or as no document does, and is no number. -/
theorem scanFound_of_malformed (h : scanNumber (c :: text) = .error .malformed)
    (hc : ∀ d : Document, d.startsWith c = true → d.IsNumber) :
    Reader.scanFound (c :: text) = .error .malformed := by
  simp only [Reader.scanFound]
  split
  case h_7 =>
    by_cases hstarts : Reader.startsNumber c = true
    · rw [if_pos hstarts, h]
      rfl
    · rw [if_neg hstarts]
      rfl
  case h_1 => exact (hc .null rfl).elim
  case h_2 => exact (hc (.boolean true) rfl).elim
  case h_3 => exact (hc (.boolean false) rfl).elim
  case h_4 => exact (hc (.array []) rfl).elim
  case h_5 => exact (hc (.object []) rfl).elim
  case h_6 => exact (hc (.string "") rfl).elim

namespace Document

variable {d : Document}

/-- The kind of a document is found, unless it is a number that is not legible. -/
theorem scanFound_write (d : Document) (hmore : Apart more) (hne : more ≠ []) :
    (d.Legible ∧ ∃ r, Reader.scanFound (d.write ++ more) = .ok r) ∨
      ¬ d.Legible ∧ Reader.scanFound (d.write ++ more) = .error .malformed := by
  have hplain : d.Plain → d.Legible ∧ ∃ r, Reader.scanFound (d.write ++ more) = .ok r := by
    intro hd
    obtain ⟨_, hf⟩ := hd.scanFound_write hmore.ends
    exact ⟨hd.legible, _, hf⟩
  by_cases hd : d.IsNumber
  · obtain ⟨c, text, htext, -, hstarts⟩ := d.write_opens more
    have hnumber := scanNumber_write hd hmore hne
    rw [htext] at hnumber ⊢
    refine hnumber.imp (And.imp_right ?_) (And.imp_right fun hr => ?_)
    · rintro ⟨r, hr⟩
      exact scanFound_of_scanNumber hr
    · refine scanFound_of_malformed hr fun d' hd' => ?_
      exact isNumber_of_startsWith hd' (hd.startsNumber (hstarts d' hd'))
  · left
    cases d with
    | null => exact hplain .null
    | boolean b => exact hplain (.boolean b)
    | integer _ | real _ => exact absurd trivial hd
    | string s => exact hplain (.string s)
    | array _ => exact ⟨fun h => h.elim, _, rfl⟩
    | object _ => exact ⟨fun h => h.elim, _, rfl⟩

/-- **A document is refused** where something else is wanted. -/
theorem refuse (d : Document) (hmore : Apart more) (hne : more ≠ []) (expected : Expected) :
    ∃ f, d.RefusedBy f ∧ (Reader.refuse expected : Scan α) (d.write ++ more) = .error f := by
  rcases d.scanFound_write hmore hne with ⟨hd, ⟨found, left⟩, hf⟩ | ⟨hd, hf⟩
  · exact ⟨_, .kind hd (.kind found expected), scan_bind hf⟩
  · exact ⟨_, .beyond hd, scan_bind_error hf⟩

end Document

/-- All documents that are not valid are refused by the reader, and nothing is logged. -/
def Reader.Refuses (read : Reader α) (valid : Document → Prop) : Prop :=
  ∀ ⦃d : Document⦄, ¬ valid d → ∀ ⦃more : List Char⦄, Apart more → more ≠ [] →
    ∃ f, d.RefusedBy f ∧ read (d.write ++ more) = throw f

theorem Reader.Refuses.map {read : Reader α} {valid : Document → Prop} (h : read.Refuses valid)
    (f : α → β) : (f <$> read).Refuses valid := by
  intro d hvalid more hmore hne
  obtain ⟨e, he, hread⟩ := h hvalid hmore hne
  refine ⟨e, he, ?_⟩
  rw [← bind_pure_comp]
  show read (d.write ++ more) >>= _ = _
  rw [hread]
  rfl

/-- A reader that wants what starts with `c` and refuses all else. -/
theorem Reader.refuses_of_ne {read : Reader α} {valid : Document → Prop} {expected : Expected}
    (wanted : Document) (hwanted : wanted.startsWith c = true)
    (hvalid : ∀ {d : Document}, d.startsWith c = true → valid d)
    (hread : ∀ {c' text}, isBlank c' = false → c' ≠ c →
      read (c' :: text) = ofScan (refuse expected) (c' :: text)) : read.Refuses valid := by
  intro d hnot more hmore hne
  obtain ⟨c', text, htext, hopens, hstarts⟩ := d.write_opens more
  have hc : c' ≠ c := by
    rintro rfl
    exact hnot (hvalid (hstarts wanted hwanted))
  obtain ⟨f, hf, he⟩ := d.refuse (α := α) hmore hne expected
  rw [htext] at he ⊢
  refine ⟨f, hf, (hread hopens.isBlank_eq hc).trans ?_⟩
  exact congrArg (fun r => ExceptT.mk (pure r)) he

theorem refuses_string : (Reader.ofScan Reader.string).Refuses Document.IsString := by
  refine Reader.refuses_of_ne (.string "") rfl (fun hd => ?_) string_of_ne
  obtain ⟨s, rfl⟩ := Document.eq_string_of_startsWith hd
  trivial

theorem refuses_integer (expected : Expected) (least greatest : Int) :
    (Reader.ofScan (Reader.integer expected least greatest)).Refuses
      (Document.IsInteger least greatest) := by
  intro d hvalid more hmore hne
  suffices h : ∃ f, d.RefusedBy f ∧
      Reader.integer expected least greatest (d.write ++ more) = .error f by
    obtain ⟨f, hf, he⟩ := h
    exact ⟨f, hf, congrArg (fun r => ExceptT.mk (pure r)) he⟩
  obtain ⟨c, text, htext, hopens, hstarts⟩ := d.write_opens more
  by_cases hc : Reader.startsNumber c = true
  · have hd := Document.isNumber_of_startsWith (hstarts (.integer 0) hc) hc
    have hnumber : Reader.number expected (d.write ++ more) = scanNumber (d.write ++ more) := by
      unfold Reader.number
      rw [htext, skipBlank_cons hopens.isBlank_eq]
      exact if_pos hc
    rcases d.scanNumber_write hd hmore hne with ⟨hlegible, ⟨v, left⟩, hr⟩ | ⟨hillegible, hr⟩
    · cases v with
      | integer n =>
        obtain rfl := d.eq_integer_of_scanNumber hd hmore.ends hr
        refine ⟨_, .kind hlegible (.range n expected), (scan_bind (hnumber.trans hr)).trans ?_⟩
        have hrange : ¬ (least ≤ n ∧ n ≤ greatest) := hvalid
        rw [Number.toRange, if_neg hrange]
        rfl
      | real x =>
        exact ⟨_, .kind hlegible (.kind (.real x) expected), scan_bind (hnumber.trans hr)⟩
    · exact ⟨_, .beyond hillegible, scan_bind_error (hnumber.trans hr)⟩
  · obtain ⟨f, hf, he⟩ := d.refuse (α := Number) hmore hne expected
    refine ⟨f, hf, scan_bind_error ?_⟩
    unfold Reader.number
    rw [htext, skipBlank_cons hopens.isBlank_eq, ← htext]
    exact (if_neg (by rw [htext]; exact hc)).trans he

end Multimap.Json
