import Multimap.Json.Scan

/-!
# What JSON numbers stand for

A numeral without fraction and exponent is an integer as long as it lies between `-2 ^ 63` and
`2 ^ 64 - 1`, except that `-0` is the double of that sign. All others are doubles.

The double of a numeral is found by a few steps of double arithmetic, so it may differ in the last
digits from the double nearest to the numeral: its digits are taken into a significand of 64 bits
for as long as they fit, and that is scaled by a power of ten.
-/

namespace Multimap.Json

/-- The value of a JSON number. -/
inductive Number
  | integer (n : Int)
  | real (x : Float)

/-! ## Scaling by powers of ten -/

/-- The double nearest to `10 ^ n`. -/
def powerOfTen (n : Nat) : Float := Float.ofScientific 1 false n

/-- Largest `n` for which `10 ^ n` is a double. -/
def maxPower : Nat := 308

/-- `x` divided by `10 ^ n`, in steps of at most `10 ^ 308`. -/
def scaleDown (x : Float) (n : Nat) : Float :=
  if n ≤ maxPower then x / powerOfTen n
  else if x == 0 then x
  else scaleDown (x / powerOfTen maxPower) (n - maxPower)
termination_by n
decreasing_by simp only [maxPower] at *; omega

/-- `x` multiplied by `10 ^ n`, if that is a double. -/
def scaleUp? (x : Float) (n : Nat) : Option Float :=
  if n ≤ maxPower then
    let y := x * powerOfTen n
    if y.isInf then none else some y
  else if x == 0 then some x
  else none

/-- `significand · 10 ^ exponent`, if that is a double. -/
def scale? (significand : Nat) (exponent : Int) : Option Float :=
  let x := (UInt64.ofNat significand).toFloat
  match exponent with
  | .ofNat n => scaleUp? x n
  | .negSucc n => some (scaleDown x (n + 1))

/-! ## The value of a numeral -/

/-- Least number that is read as an integer, `-2 ^ 63`. -/
def leastInteger : Int := -0x8000000000000000

/-- Greatest number that is read as an integer, `2 ^ 64 - 1`. -/
def greatestInteger : Int := 0xFFFFFFFFFFFFFFFF

/-- Takes digits behind those of `n` for as long as the number fits 64 bits: the number and the
digits left over. -/
def takeDigits (n : Nat) : List Char → Nat × List Char
  | [] => (n, [])
  | c :: digits =>
    let m := 10 * n + (c.toNat - '0'.toNat)
    if m < UInt64.size then takeDigits m digits else (n, c :: digits)

namespace Numeral

/-- The double of a numeral. Of digits of the whole part that are left over only the number counts,
and those of the fraction do not count. -/
def toFloat? (n : Numeral) : Option Float := do
  let (significand, wholeLeft) := takeDigits 0 n.whole
  let (significand, fractionLeft) := takeDigits significand n.fraction
  let shift : Int := wholeLeft.length - (n.fraction.length - fractionLeft.length : Nat)
  let x ← scale? significand (n.exponent.getD 0 + shift)
  return if n.negative then -x else x

/-- The integer of a numeral, if it is one. -/
def toInteger? (n : Numeral) : Option Int :=
  let magnitude : Int := Decimal.value n.whole
  let value := if n.negative then -magnitude else magnitude
  if n.fraction.isEmpty && n.exponent.isNone && !(n.negative && magnitude == 0) &&
      leastInteger ≤ value && value ≤ greatestInteger then some value
  else none

/-- The value of a numeral. There is none if it lies beyond the doubles. -/
def number? (n : Numeral) : Option Number :=
  match n.toInteger? with
  | some i => some (.integer i)
  | none => n.toFloat?.map .real

end Numeral

/-- Takes a number. -/
def scanNumber : Scan Number := do
  match (← scanNumeral).number? with
  | some n => return n
  | none => throw .malformed

namespace Number

/-- The double nearest to the number. -/
def toFloat : Number → Float
  | integer n =>
    let x := (UInt64.ofNat n.natAbs).toFloat
    if n < 0 then -x else x
  | real x => x

/-- The number as an integer of the given range. -/
def toRange (expected : Expected) (least greatest : Int) : Number → Except Fault Int
  | integer n =>
    if least ≤ n ∧ n ≤ greatest then pure n else throw (.mismatch (.range n expected))
  | real x => throw (.mismatch (.kind (.real x) expected))

end Number

end Multimap.Json
