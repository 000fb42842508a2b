import Multimap.Decimal.Double

/-!
# The shortest decimal number that reads back

Of the decimal numbers that are rounded to a given double, `shortest` takes one with the fewest
digits, and of those the nearest. It goes through the grids of the multiples of `10 ^ g`, from
coarse to fine. If a grid has a point in the interval of the double then it has one next to the
double itself, so it is enough to look at two points of a grid (`point?`).
-/

namespace Multimap.Decimal

/-- Which of two points is taken that are equally near. -/
inductive Tie
  /-- The one farther from zero. -/
  | away
  /-- The one with an even last digit. -/
  | even
  deriving DecidableEq, Repr

/-- The decimal number `digits · 10 ^ exponent`. -/
structure Scientific where
  digits : Nat
  exponent : Int
  deriving DecidableEq, Repr

/-- The multiple `n · 10 ^ g` next to `m · 2 ^ q`, below or above it, that is rounded to it; the
nearer one if there are two. -/
def point? (tie : Tie) (m : Nat) (q g : Int) : Option Nat :=
  -- `2 ^ (q - 2) = a / b · 10 ^ g`
  let a := Nat.pow 2 (q - 2).toNat * Nat.pow 10 (-g).toNat
  let b := Nat.pow 2 (2 - q).toNat * Nat.pow 10 g.toNat
  let low := Double.low m q * a
  let middle := 4 * m * a
  let high := Double.high m * a
  let inside (n : Nat) : Bool :=
    if m % 2 = 0 then low ≤ n * b ∧ n * b ≤ high else low < n * b ∧ n * b < high
  let n := middle / b
  match inside n, inside (n + 1) with
  | false, false => none
  | true, false => some n
  | false, true => some (n + 1)
  | true, true =>
    match compare (middle - n * b) ((n + 1) * b - middle), tie with
    | .lt, _ => some n
    | .gt, _ => some (n + 1)
    | .eq, .away => some (n + 1)
    | .eq, .even => some (if n % 2 = 0 then n else n + 1)

/-- An exponent `g` with `m · 2 ^ q < 10 ^ (g + 1)`, at most two too large. -/
def topExponent (m : Nat) (q : Int) : Int := (q + m.log2 + 1) * 30103 / 100000 + 1

/-- The shortest decimal number that is rounded to `m · 2 ^ q`. Seventeen digits are always enough,
so one of the grids has a point. -/
def shortest (tie : Tie) (m : Nat) (q : Int) : Scientific :=
  if m = 0 then ⟨0, 0⟩
  else
    let found := (List.range 20).findSome? fun (i : Nat) =>
      let g := topExponent m q - i
      (point? tie m q g).map (Scientific.mk · g)
    found.getD ⟨0, 0⟩

end Multimap.Decimal
