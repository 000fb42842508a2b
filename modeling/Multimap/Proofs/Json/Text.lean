import Multimap.Json.Document
import Multimap.Json.Reader

/-!
# What scans take from written text

A string, a word and an integer that were written are taken back as they were, whatever text comes
behind them; behind an integer there must be no character that would carry it on (`Ends`).

* `scanString_flatMap_escape`: the characters of a string, up to the closing quotation mark.
* `scanNumber_ofInt`: an integer that is within the range of integers.
-/

namespace Multimap.Json

variable {α β : Type} {text rest left : List Char} {c d : Char}

/-- A scan after a scan that has succeeded. -/
theorem scan_bind {x : Scan α} {f : α → Scan β} {a : α} (h : x text = .ok (a, rest)) :
    (x >>= f) text = f a rest := by
  show Except.bind (x text) _ = _
  rw [h]
  rfl

/-- A scan after a scan that has failed. -/
theorem scan_bind_error {x : Scan α} {f : α → Scan β} {e : Fault} (h : x text = .error e) :
    (x >>= f) text = .error e := by
  show Except.bind (x text) _ = _
  rw [h]
  rfl

theorem scan_map {x : Scan α} {a : α} (f : α → β) (h : x text = .ok (a, rest)) :
    (f <$> x) text = .ok (f a, rest) := by
  show Except.bind (x text) _ = _
  rw [h]
  rfl

theorem scanWord_append (word rest : List Char) :
    scanWord word (word ++ rest) = .ok ((), rest) := by
  induction word with
  | nil => rfl
  | cons c word ih => simpa only [List.cons_append, scanWord, if_true] using ih

/-! ## Strings -/

theorem scanString_quote (rest : List Char) : scanString ('"' :: rest) = .ok ([], rest) := by
  rw [scanString]
  rfl

theorem scanString_plain {cs : List Char} (hq : c ≠ '"') (hb : c ≠ '\\') (hc : ¬ c.toNat < 0x20)
    (h : scanString text = .ok (cs, rest)) : scanString (c :: text) = .ok (c :: cs, rest) := by
  rw [scanString, if_neg hq, if_neg hb, if_neg hc, h]
  rfl

theorem scanString_backslash {cs : List Char} (he : scanEscape text = .ok (d, left))
    (h : scanString left = .ok (cs, rest)) :
    scanString ('\\' :: text) = .ok (d :: cs, rest) := by
  rw [scanString, if_neg (by decide), if_pos rfl]
  split
  · next he' => rw [he] at he'; cases he'
  · next he' =>
    rw [he] at he'
    cases he'
    rw [h]
    rfl

theorem hexDigit?_digitChar : ∀ n < 16, hexDigit? (Nat.digitChar n) = some n := by decide

/-- A control character, written with its code, is taken back. -/
theorem scanEscape_code (h : c.toNat < 0x20) (rest : List Char) :
    scanEscape ('u' :: '0' :: '0' :: Nat.digitChar (c.toNat / 16) :: Nat.digitChar (c.toNat % 16) ::
      rest) = .ok (c, rest) := by
  have hhigh := hexDigit?_digitChar (c.toNat / 16) (by omega)
  have hlow := hexDigit?_digitChar (c.toNat % 16) (by omega)
  have hzero : hexDigit? '0' = some 0 := by decide
  have hcode : ((0 * 16 + 0) * 16 + c.toNat / 16) * 16 + c.toNat % 16 = c.toNat := by omega
  have hhex : scanHex4 ('0' :: '0' :: Nat.digitChar (c.toNat / 16) ::
      Nat.digitChar (c.toNat % 16) :: rest) = .ok (c.toNat, rest) := by
    simp only [scanHex4, List.take_succ_cons, List.take_zero, List.mapM_cons, List.mapM_nil, hzero,
      hhigh, hlow]
    show Except.ok (((0 * 16 + 0) * 16 + c.toNat / 16) * 16 + c.toNat % 16, rest) = _
    rw [hcode]
  have htrailing : isTrailing c.toNat = false := by simp only [isTrailing]; simp; omega
  have hleading : isLeading c.toNat = false := by simp only [isLeading]; simp; omega
  simp only [scanEscape, if_true, scanCodePoint, hhex, bind, Except.bind, htrailing, hleading]
  rw [Char.ofNat_toNat]
  rfl

/-- A character as it stands in a string is taken back. -/
theorem scanString_escape {cs : List Char} (c : Char) (h : scanString text = .ok (cs, rest)) :
    scanString (escape c ++ text) = .ok (c :: cs, rest) := by
  unfold escape
  split
  case h_8 hq hb _ _ _ _ _ =>
    split
    · next hc => exact scanString_backslash (scanEscape_code hc text) h
    · next hc => exact scanString_plain hq hb hc h
  all_goals exact scanString_backslash rfl h

/-- **A string is taken back**, and the text behind its closing quotation mark is left. -/
theorem scanString_flatMap_escape (cs rest : List Char) :
    scanString (cs.flatMap escape ++ '"' :: rest) = .ok (cs, rest) := by
  induction cs with
  | nil => exact scanString_quote rest
  | cons c cs ih =>
    rw [List.flatMap_cons, List.append_assoc]
    exact scanString_escape c ih

/-! ## Integers -/

/-- The text does not carry on a number that stands before it. -/
def Ends (rest : List Char) : Prop :=
  ∀ c ∈ rest.head?, c.isDigit = false ∧ c ≠ '.' ∧ c ≠ 'e' ∧ c ≠ 'E'

theorem Ends.nil : Ends [] := fun _ h => absurd h (by simp)

theorem Ends.cons (hd : c.isDigit = false) (hp : c ≠ '.') (he : c ≠ 'e') (hE : c ≠ 'E') :
    Ends (c :: rest) := fun c' h => by
  obtain rfl : c = c' := by simpa using h
  exact ⟨hd, hp, he, hE⟩

theorem scanDigits_append {digits : List Char} (hd : ∀ c ∈ digits, c.isDigit) (hne : digits ≠ [])
    (hr : ∀ c ∈ rest.head?, c.isDigit = false) :
    scanDigits (digits ++ rest) = .ok (digits, rest) := by
  have htake : rest.takeWhile Char.isDigit = [] ∧ rest.dropWhile Char.isDigit = rest := by
    cases rest with
    | nil => exact ⟨rfl, rfl⟩
    | cons c rest =>
      have hc := hr c rfl
      exact ⟨List.takeWhile_cons_of_neg (by simp [hc]), List.dropWhile_cons_of_neg (by simp [hc])⟩
  unfold scanDigits
  rw [List.takeWhile_append_of_pos hd, List.dropWhile_append_of_pos hd, htake.1, htake.2,
    List.append_nil]
  cases digits with
  | nil => exact absurd rfl hne
  | cons c digits => rfl

theorem scanMinus_of_ne (h : text.head? ≠ some '-') : scanMinus text = .ok (false, text) := by
  unfold scanMinus
  split
  · exact absurd rfl h
  · rfl

theorem scanFraction_of_ends (h : Ends rest) : scanFraction rest = .ok ([], rest) := by
  unfold scanFraction
  split
  · exact absurd rfl (h '.' rfl).2.1
  · rfl

theorem scanExponent_of_ends (h : Ends rest) : scanExponent rest = .ok (none, rest) := by
  unfold scanExponent
  rw [if_neg]
  · rfl
  · rintro (he | he)
    · exact (h 'e' he).2.2.1 rfl
    · exact (h 'E' he).2.2.2 rfl

/-- The numeral of the digits of a number. -/
def naturalNumeral (negative : Bool) (n : Nat) : Numeral where
  negative
  whole := Decimal.ofNat n
  fraction := []
  exponent := none

/-- The digits of a number behind its sign are taken as a whole. -/
theorem scanNumeral_digits {negative : Bool} {n : Nat}
    (hm : scanMinus text = .ok (negative, Decimal.ofNat n ++ rest)) (hr : Ends rest) :
    scanNumeral text = .ok (naturalNumeral negative n, rest) := by
  have hdigits := scanDigits_append (fun c hc => Decimal.isDigit_of_mem_ofNat hc)
    (Decimal.ofNat_ne_nil n) fun c hc => (hr c hc).1
  have hzeros : ¬ ((Decimal.ofNat n).head? = some '0' ∧ Decimal.ofNat n ≠ ['0']) := fun h =>
    h.2 (Decimal.ofNat_of_head?_eq_zero h.1)
  unfold scanNumeral
  rw [scan_bind hm, scan_bind hdigits, if_neg hzeros]
  refine (scan_bind (scanFraction_of_ends hr)).trans ?_
  rw [scan_bind (scanExponent_of_ends hr)]
  rfl

theorem head?_ofNat_append (n : Nat) (rest : List Char) :
    ∃ c, (Decimal.ofNat n ++ rest).head? = some c ∧ c.isDigit := by
  cases h : Decimal.ofNat n with
  | nil => exact absurd h (Decimal.ofNat_ne_nil n)
  | cons c digits =>
    exact ⟨c, rfl, Decimal.isDigit_of_mem_ofNat (n := n) (by rw [h]; exact List.mem_cons_self)⟩

theorem scanNumeral_ofInt (n : Int) (hr : Ends rest) :
    scanNumeral (Decimal.ofInt n ++ rest) = .ok (naturalNumeral (n < 0) n.natAbs, rest) := by
  cases n with
  | ofNat n =>
    refine scanNumeral_digits (scanMinus_of_ne fun h => ?_) hr
    obtain ⟨c, hc, hd⟩ := head?_ofNat_append n rest
    rw [show (Decimal.ofInt (.ofNat n) ++ rest).head? = _ from hc] at h
    cases h
    exact absurd hd (by decide)
  | negSucc n =>
    rw [decide_eq_true (Int.negSucc_lt_zero n)]
    exact scanNumeral_digits rfl hr

/-- The value of the numeral of an integer is the integer. -/
theorem number?_naturalNumeral {n : Int} (hl : leastInteger ≤ n) (hg : n ≤ greatestInteger) :
    (naturalNumeral (n < 0) n.natAbs).number? = some (.integer n) := by
  have hvalue : (if decide (n < 0) = true then -(n.natAbs : Int) else n.natAbs) = n := by
    by_cases h : n < 0
    · rw [if_pos (decide_eq_true h)]
      omega
    · rw [if_neg fun h' => h (of_decide_eq_true h')]
      omega
  have hsign : (decide (n < 0) && (n.natAbs : Int) == 0) = false := by
    by_cases h : n < 0
    · rw [decide_eq_true h, Bool.true_and, beq_eq_false_iff_ne]
      omega
    · rw [decide_eq_false h, Bool.false_and]
  unfold Numeral.number? Numeral.toInteger? naturalNumeral
  simp only [Decimal.value_ofNat, hvalue, hsign, hl, hg]
  rfl

/-- **An integer is taken back**, and the text that does not carry it on is left. -/
theorem scanNumber_ofInt {n : Int} (hl : leastInteger ≤ n) (hg : n ≤ greatestInteger)
    (hr : Ends rest) : scanNumber (Decimal.ofInt n ++ rest) = .ok (.integer n, rest) := by
  unfold scanNumber
  rw [scan_bind (scanNumeral_ofInt n hr), number?_naturalNumeral hl hg]
  rfl

/-- The characters of an integer stand for themselves in a string. -/
theorem escape_of_startsNumber (h : Reader.startsNumber c = true) : escape c = [c] := by
  have hcode : ¬ c.toNat < 0x20 := by
    rw [Reader.startsNumber, Bool.or_eq_true, decide_eq_true_iff] at h
    rcases h with rfl | h
    · decide
    · rw [Char.isDigit, Bool.and_eq_true, decide_eq_true_iff] at h
      have hzero : '0'.val.toNat ≤ c.val.toNat := h.1
      have hvalue : '0'.val.toNat = 48 := rfl
      show ¬ c.val.toNat < 0x20
      omega
  unfold escape
  split
  case h_8 => exact if_neg hcode
  all_goals nomatch h

theorem startsNumber_of_mem_ofInt {n : Int} (h : c ∈ Decimal.ofInt n) :
    Reader.startsNumber c = true := by
  rcases Decimal.eq_minus_or_isDigit_of_mem_ofInt h with rfl | hdigit
  · rfl
  · rw [Reader.startsNumber, hdigit, Bool.or_true]

theorem flatMap_escape_ofInt (n : Int) : (Decimal.ofInt n).flatMap escape = Decimal.ofInt n := by
  have hescape : ∀ c ∈ Decimal.ofInt n, escape c = [c] := fun c hc =>
    escape_of_startsNumber (startsNumber_of_mem_ofInt hc)
  rw [List.flatMap_def, List.map_congr_left hescape]
  exact List.flatMap_singleton' _

/-- A number may start with what an integer starts with. -/
theorem startsNumber_ofInt (n : Int) (rest : List Char) :
    ∃ c text, Decimal.ofInt n ++ rest = c :: text ∧ Reader.startsNumber c = true := by
  cases n with
  | ofNat n =>
    obtain ⟨c, hc, hd⟩ := head?_ofNat_append n rest
    obtain ⟨text, htext⟩ := List.head?_eq_some_iff.mp hc
    exact ⟨c, text, htext, by simp [Reader.startsNumber, hd]⟩
  | negSucc n => exact ⟨'-', _, rfl, rfl⟩

end Multimap.Json
