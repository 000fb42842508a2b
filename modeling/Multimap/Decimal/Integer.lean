/-!
# Integers in decimal digits

`ofNat` and `ofInt` write a number with as few digits as it has; `value` reads digits.
-/

namespace Multimap.Decimal

/-- The digits of `n`, without leading zeros. -/
def ofNat (n : Nat) : List Char := Nat.toDigits 10 n

/-- The digits of `n` behind its sign. -/
def ofInt : Int → List Char
  | .ofNat n => ofNat n
  | .negSucc n => '-' :: ofNat (n + 1)

/-- The number that digits stand for. -/
def value (digits : List Char) : Nat := Nat.ofDigitChars 10 digits 0

@[simp] theorem value_ofNat (n : Nat) : value (ofNat n) = n := by
  simp [value, ofNat]

theorem isDigit_of_mem_ofNat {n : Nat} {c : Char} (h : c ∈ ofNat n) : c.isDigit :=
  Nat.isDigit_of_mem_toDigits (by decide) (by decide) h

theorem ofNat_ne_nil (n : Nat) : ofNat n ≠ [] := Nat.toDigits_ne_nil

theorem ofNat_injective {m n : Nat} (h : ofNat m = ofNat n) : m = n := by
  rw [← value_ofNat m, h, value_ofNat]

theorem ofInt_ne_nil (n : Int) : ofInt n ≠ [] := by
  cases n with
  | ofNat n => exact ofNat_ne_nil n
  | negSucc n => exact List.cons_ne_nil _ _

theorem eq_minus_or_isDigit_of_mem_ofInt {n : Int} {c : Char} (h : c ∈ ofInt n) :
    c = '-' ∨ c.isDigit := by
  cases n with
  | ofNat n => exact .inr (isDigit_of_mem_ofNat h)
  | negSucc n => exact (List.mem_cons.mp h).imp id isDigit_of_mem_ofNat

/-- No digits are the digits behind a sign. -/
theorem ofNat_ne_minus (m : Nat) (digits : List Char) : ofNat m ≠ '-' :: digits := by
  intro h
  have hminus : '-' ∈ ofNat m := by
    rw [h]
    exact List.mem_cons_self
  exact absurd (isDigit_of_mem_ofNat hminus) (by decide)

theorem ofInt_injective {m n : Int} (h : ofInt m = ofInt n) : m = n := by
  cases m with
  | ofNat m =>
    cases n with
    | ofNat n => exact congrArg Int.ofNat (ofNat_injective h)
    | negSucc n => exact absurd h (ofNat_ne_minus m _)
  | negSucc m =>
    cases n with
    | ofNat n => exact absurd h.symm (ofNat_ne_minus n _)
    | negSucc n =>
      have hdigits : ofNat (m + 1) = ofNat (n + 1) := List.tail_eq_of_cons_eq h
      exact congrArg Int.negSucc (Nat.succ.inj (ofNat_injective hdigits))

/-- Only zero is written with a zero in front. -/
theorem ofNat_of_head?_eq_zero {n : Nat} (h : (ofNat n).head? = some '0') : ofNat n = ['0'] := by
  unfold ofNat at h ⊢
  induction n using Nat.strongRecOn with
  | ind n ih =>
    by_cases hn : n < 10
    · rw [Nat.toDigits_of_lt_base hn] at h ⊢
      rw [List.head?_cons, Option.some.injEq] at h
      rw [h]
    · have hfront : (Nat.toDigits 10 (n / 10)).head? = some '0' := by
        rw [Nat.toDigits_of_base_le (by decide) (by omega), List.head?_append] at h
        cases hd : (Nat.toDigits 10 (n / 10)).head? with
        | none => exact absurd (List.head?_eq_none_iff.mp hd) Nat.toDigits_ne_nil
        | some c => rw [hd] at h; exact h
      -- the digits in front would be those of zero, but there are some
      have hzero := congrArg value (ih (n / 10) (by omega) hfront)
      rw [show Nat.toDigits 10 (n / 10) = ofNat (n / 10) from rfl, value_ofNat] at hzero
      have : n / 10 = 0 := hzero
      omega

end Multimap.Decimal
