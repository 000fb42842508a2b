import Multimap.Proofs.Json.Locality

/-!
# The text of a double

The text of a double is a word, which is no JSON, or it is a numeral: digits behind a sign, and
behind them a point with more digits, or an exponent, or both. Each part of a numeral ends where the
next one starts. So the text is taken to its end or not at all, and what stands behind it has no say
in that, if only it does not carry the number on (`Scan.Takes`).

* `FractionText`, `ExponentText`: what stands behind the digits.
* `exists_parts`: the parts of a decimal number.
* `takes_scanNumeral`: a numeral is scanned part by part.
* **`takes_real`**: the text of a double, whatever double it is.
-/

namespace Multimap.Json

variable {α : Type} {text rest : List Char}

/-! ## Signs -/

section

variable {digits : List Char} (hd : ∀ d ∈ digits, d.isDigit) (hne : digits ≠ [])

include hd hne

/-- Digits are no sign. -/
theorem head?_digits (rest : List Char) :
    (digits ++ rest).head? ≠ some '-' ∧ (digits ++ rest).head? ≠ some '+' := by
  obtain ⟨d, digits, rfl⟩ := List.exists_cons_of_ne_nil hne
  have hdigit := hd d List.mem_cons_self
  constructor
  · rintro ⟨⟩
    exact absurd hdigit (by decide)
  · rintro ⟨⟩
    exact absurd hdigit (by decide)

theorem scanMinus_sign (negative : Bool) (rest : List Char) :
    scanMinus ((if negative then ['-'] else []) ++ (digits ++ rest)) =
      .ok (negative, digits ++ rest) := by
  cases negative with
  | true => rfl
  | false => exact scanMinus_of_ne (head?_digits hd hne rest).1

theorem scanSign_append {sign : List Char} (hs : sign = [] ∨ sign = ['+'] ∨ sign = ['-']) :
    ∃ negative, ∀ rest, scanSign (sign ++ (digits ++ rest)) = .ok (negative, digits ++ rest) := by
  rcases hs with rfl | rfl | rfl
  · refine ⟨false, fun rest => ?_⟩
    obtain ⟨hminus, hplus⟩ := head?_digits hd hne rest
    show scanSign (digits ++ rest) = _
    unfold scanSign
    split
    · next heq => exact absurd (congrArg List.head? heq) hplus
    · exact scanMinus_of_ne hminus
  · exact ⟨false, fun rest => rfl⟩
  · exact ⟨true, fun rest => rfl⟩

end

/-! ## Parts of a numeral -/

/-- A point and digits, or nothing. -/
inductive FractionText : List Char → Prop
  | nothing : FractionText []
  | point {digits : List Char} (hd : ∀ d ∈ digits, d.isDigit) (hne : digits ≠ []) :
      FractionText ('.' :: digits)

/-- An exponent and maybe a sign in front of its digits, or nothing. -/
inductive ExponentText : List Char → Prop
  | nothing : ExponentText []
  | exponent {sign digits : List Char} (hs : sign = [] ∨ sign = ['+'] ∨ sign = ['-'])
      (hd : ∀ d ∈ digits, d.isDigit) (hne : digits ≠ []) : ExponentText ('e' :: (sign ++ digits))

namespace FractionText

theorem not_isDigit (h : FractionText text) (hr : ∀ c ∈ rest.head?, c.isDigit = false) :
    ∀ c ∈ (text ++ rest).head?, c.isDigit = false := by
  cases h with
  | nothing => exact hr
  | point hd hne =>
    intro c hc
    cases hc
    rfl

theorem scanFraction_eq (h : FractionText text) :
    ∃ digits, ∀ ⦃rest⦄, (∀ c ∈ rest.head?, c.isDigit = false ∧ c ≠ '.') →
      scanFraction (text ++ rest) = .ok (digits, rest) := by
  cases h with
  | nothing =>
    refine ⟨[], fun rest hr => ?_⟩
    show scanFraction rest = _
    unfold scanFraction
    split
    · exact absurd rfl (hr '.' rfl).2
    · rfl
  | @point digits hd hne =>
    exact ⟨digits, fun rest hr => scanDigits_append hd hne fun c hc => (hr c hc).1⟩

end FractionText

namespace ExponentText

theorem ends (h : ExponentText text) (hr : Ends rest) :
    ∀ c ∈ (text ++ rest).head?, c.isDigit = false ∧ c ≠ '.' := by
  cases h with
  | nothing => exact fun c hc => ⟨(hr c hc).1, (hr c hc).2.1⟩
  | exponent hs hd hne =>
    intro c hc
    cases hc
    exact ⟨rfl, by decide⟩

theorem scanExponent_eq (h : ExponentText text) :
    ∃ n, ∀ ⦃rest⦄, Ends rest → scanExponent (text ++ rest) = .ok (n, rest) := by
  cases h with
  | nothing => exact ⟨none, fun rest hr => scanExponent_of_ends hr⟩
  | @exponent sign digits hs hd hne =>
    obtain ⟨negative, hsign⟩ := scanSign_append hd hne hs
    let value : Int := Decimal.value digits
    refine ⟨some (if negative then -value else value), fun rest hr => ?_⟩
    rw [List.cons_append, List.append_assoc, scanExponent_cons (.inl rfl), scan_bind (hsign rest)]
    exact scan_bind (scanDigits_append hd hne fun c hc => (hr c hc).1)

end ExponentText

/-! ## Numerals -/

/-- As long as what is behind the text does not carry a number on, the scan takes the text and no
more, or it fails, and in either case it does not matter what is behind it. -/
def Scan.Takes (scan : Scan α) (text : List Char) : Prop :=
  ∃ x : Except Fault α, ∀ ⦃rest⦄, Ends rest → scan (text ++ rest) = (·, rest) <$> x

/-- **A numeral** is taken part by part, unless it has a zero in front. -/
theorem takes_scanNumeral {negative : Bool} {digits fraction exponent : List Char}
    (hd : ∀ d ∈ digits, d.isDigit) (hne : digits ≠ []) (hfraction : FractionText fraction)
    (hexponent : ExponentText exponent) :
    scanNumeral.Takes ((if negative then ['-'] else []) ++ digits ++ fraction ++ exponent) := by
  obtain ⟨behind, hbehind⟩ := hfraction.scanFraction_eq
  obtain ⟨n, hn⟩ := hexponent.scanExponent_eq
  refine ⟨if digits.head? = some '0' ∧ digits ≠ ['0'] then throw .malformed
    else pure ⟨negative, digits, behind, n⟩, fun rest hr => ?_⟩
  have hends := hexponent.ends hr
  have hwhole : scanDigits (digits ++ (fraction ++ (exponent ++ rest))) =
      .ok (digits, fraction ++ (exponent ++ rest)) :=
    scanDigits_append hd hne (hfraction.not_isDigit fun c hc => (hends c hc).1)
  simp only [List.append_assoc]
  unfold scanNumeral
  rw [scan_bind (scanMinus_sign hd hne negative _), scan_bind hwhole]
  split
  · rfl
  · refine (scan_bind (hbehind hends)).trans ?_
    rw [scan_bind (hn hr)]
    rfl

/-! ## Doubles -/

/-- The text of a number that is written with a fraction or an exponent. -/
structure Parts (text digits fraction exponent : List Char) : Prop where
  text_eq : text = digits ++ fraction ++ exponent
  isDigit : ∀ d ∈ digits, d.isDigit
  ne_nil : digits ≠ []
  fractionText : FractionText fraction
  exponentText : ExponentText exponent
  behind_ne_nil : fraction ++ exponent ≠ []

theorem exponentText_ofInt (n : Int) :
    ExponentText ('e' :: ((if n < 0 then [] else ['+']) ++ Decimal.ofInt n)) := by
  have hdigits : ∀ m : Nat, ∀ d ∈ Decimal.ofNat m, d.isDigit :=
    fun _ _ => Decimal.isDigit_of_mem_ofNat
  cases n with
  | ofNat m =>
    have hsign : ¬ Int.ofNat m < 0 := Int.not_lt.mpr (Int.natCast_nonneg m)
    rw [if_neg hsign]
    exact .exponent (.inr (.inl rfl)) (hdigits m) (Decimal.ofNat_ne_nil m)
  | negSucc m =>
    rw [if_pos (Int.negSucc_lt_zero m)]
    show ExponentText ('e' :: (['-'] ++ Decimal.ofNat (m + 1)))
    exact .exponent (.inr (.inr rfl)) (hdigits (m + 1)) (Decimal.ofNat_ne_nil _)

/-- **The parts of a decimal number.** -/
theorem exists_parts (n : Decimal.Scientific) :
    ∃ digits fraction exponent,
      Parts (Decimal.Style.json.writeScientific n) digits fraction exponent := by
  have hdigit : ∀ d ∈ Decimal.ofNat n.digits, d.isDigit := fun d => Decimal.isDigit_of_mem_ofNat
  have hne := Decimal.ofNat_ne_nil n.digits
  unfold Decimal.Style.writeScientific
  dsimp only
  generalize Decimal.ofNat n.digits = digits at hdigit hne ⊢
  generalize n.exponent + digits.length - 1 = e
  have hpoint : ∀ {k}, ¬ digits.length ≤ k → FractionText ('.' :: digits.drop k) := by
    intro k hk
    refine .point (fun d hd => hdigit d (List.mem_of_mem_drop hd)) ?_
    rw [Ne, List.drop_eq_nil_iff]
    exact hk
  have htake : ∀ k, digits.take (k + 1) ≠ [] := by
    intro k
    rw [Ne, List.take_eq_nil_iff]
    exact fun h => h.elim nofun hne
  split
  · unfold Decimal.Style.digitsInPlace
    split
    · -- below one: zeros between the point and the digits
      refine ⟨['0'], '.' :: (List.replicate (-e - 1).toNat '0' ++ digits), [], by simp, by simp,
        by simp, .point (fun d hd => ?_) (by simp [hne]), .nothing, by simp⟩
      rcases List.mem_append.mp hd with hd | hd
      · rw [List.eq_of_mem_replicate hd]
        rfl
      · exact hdigit d hd
    dsimp only
    split
    · -- a whole number: zeros behind the digits
      refine ⟨digits ++ List.replicate (e.toNat + 1 - digits.length) '0', ['.', '0'], [],
        (List.append_nil _).symm, fun d hd => ?_, by simp [hne], .point (by simp) (by simp),
        .nothing, by simp⟩
      rcases List.mem_append.mp hd with hd | hd
      · exact hdigit d hd
      · rw [List.eq_of_mem_replicate hd]
        rfl
    · next hlength =>
      exact ⟨digits.take (e.toNat + 1), '.' :: digits.drop (e.toNat + 1), [],
        (List.append_nil _).symm, fun d hd => hdigit d (List.mem_of_mem_take hd), htake _,
        hpoint hlength, .nothing, by simp⟩
  · unfold Decimal.Style.digitsWithExponent
    dsimp only
    refine ⟨digits.take 1, if digits.length ≤ 1 then [] else '.' :: digits.drop 1,
      'e' :: ((if e < 0 then [] else ['+']) ++ Decimal.ofInt e), by simp [Decimal.Style.json],
      fun d hd => hdigit d (List.mem_of_mem_take hd), htake 0, ?_, exponentText_ofInt e, by simp⟩
    split
    · exact .nothing
    · next hlength => exact hpoint hlength

/-- A number is taken with the numeral that it is written as, if that has a value. -/
theorem Scan.Takes.scanNumber (h : scanNumeral.Takes text) : scanNumber.Takes text := by
  obtain ⟨x, hx⟩ := h
  refine ⟨x >>= fun n => n.number?.elim (throw Fault.malformed) pure, fun rest hr => ?_⟩
  cases x with
  | error e => exact scan_bind_error (hx hr)
  | ok n =>
    refine (scan_bind (hx hr)).trans ?_
    show _ = (·, rest) <$> (n.number?.elim (throw Fault.malformed) pure : Except Fault Number)
    cases n.number? <;> rfl

/-- **The text of a double** is taken as a whole or not at all. -/
theorem takes_real (x : Float) : scanNumber.Takes (Document.real x).write := by
  refine Scan.Takes.scanNumber ?_
  rw [Document.write, Decimal.Style.write]
  cases Double.ofFloat x with
  | notANumber => exact ⟨throw .malformed, fun rest _ => rfl⟩
  | infinite negative => cases negative <;> exact ⟨throw .malformed, fun rest _ => rfl⟩
  | finite negative m q =>
    obtain ⟨digits, fraction, exponent, h⟩ :=
      exists_parts (Decimal.shortest Decimal.Style.json.tie m q)
    have htakes : scanNumeral.Takes
        ((if negative then ['-'] else []) ++ digits ++ fraction ++ exponent) :=
      takes_scanNumeral h.isDigit h.ne_nil h.fractionText h.exponentText
    dsimp only
    rwa [h.text_eq, ← List.append_assoc, ← List.append_assoc]

end Multimap.Json
