/-!
# Doubles as exact numbers

A finite double is a sign and a number `m · 2 ^ q` with natural `m` and whole `q`, read off its
bits. The numbers that are rounded to it when they are read form an interval around `m · 2 ^ q`; in
units of `2 ^ (q - 2)` that interval goes from `Double.low m q` to `Double.high m`, and its ends
belong to it when `m` is even.
-/

namespace Multimap

/-- What a double stands for. -/
inductive Double
  | notANumber
  | infinite (negative : Bool)
  /-- The number `m · 2 ^ q`, negated if `negative`. -/
  | finite (negative : Bool) (m : Nat) (q : Int)
  deriving DecidableEq, Repr

namespace Double

/-- Least exponent of a double. -/
def minExponent : Int := -1074

/-- The bit in front of the fraction, `2 ^ 52`, which is left out of the bits. -/
def leadingBit : Nat := 0x10000000000000

/-- The double with the given bits: sign, eleven bits of exponent, 52 bits of fraction. -/
def ofBits (bits : UInt64) : Double :=
  let negative := bits >>> 63 == 1
  let exponent := (bits >>> 52 &&& 0x7FF).toNat
  let fraction := (bits &&& 0xFFFFFFFFFFFFF).toNat
  if exponent = 0x7FF then
    if fraction = 0 then infinite negative else notANumber
  else if exponent = 0 then finite negative fraction minExponent
  else finite negative (leadingBit + fraction) (minExponent + (exponent - 1 : Nat))

def ofFloat (x : Float) : Double := ofBits x.toBits

/-- Lower end of the numbers that are rounded to `m · 2 ^ q`, in units of `2 ^ (q - 2)`: half way to
the next double below, which is twice as near where the exponent changes. -/
def low (m : Nat) (q : Int) : Nat :=
  if m = leadingBit ∧ minExponent < q then 4 * m - 1 else 4 * m - 2

/-- Upper end of the numbers that are rounded to `m · 2 ^ q`, in units of `2 ^ (q - 2)`. -/
def high (m : Nat) : Nat := 4 * m + 2

end Double

end Multimap
