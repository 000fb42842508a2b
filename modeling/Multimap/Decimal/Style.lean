import Multimap.Decimal.Integer
import Multimap.Decimal.Shortest

/-!
# Doubles in decimal text

The text of a double holds the digits of the shortest decimal number that reads back. A `Style`
says how they are laid out: how far zeros stand in for an exponent, what is done to whole numbers,
and how an exponent looks.
-/

namespace Multimap.Decimal

/-- A layout of decimal numbers. The exponent that it speaks of is that of the first digit. -/
structure Style where
  /-- Which of two equally short and equally near numbers is written. -/
  tie : Tie
  /-- The exponents for which the digits are written in place, without an exponent. -/
  inPlace : Int → Bool
  /-- What a whole number ends in when it is written in place. -/
  wholeEnding : List Char
  /-- What stands before an exponent that is not negative. -/
  exponentSign : List Char

namespace Style

/-- The digits in place, the first of which counts `10 ^ exponent`. -/
def digitsInPlace (st : Style) (digits : List Char) (exponent : Int) : List Char :=
  if exponent < 0 then
    '0' :: '.' :: List.replicate (-exponent - 1).toNat '0' ++ digits
  else
    let whole := exponent.toNat + 1
    if digits.length ≤ whole then
      digits ++ List.replicate (whole - digits.length) '0' ++ st.wholeEnding
    else digits.take whole ++ '.' :: digits.drop whole

/-- One digit, the others behind a point, and the exponent. -/
def digitsWithExponent (st : Style) (digits : List Char) (exponent : Int) : List Char :=
  let fraction := if digits.length ≤ 1 then [] else '.' :: digits.drop 1
  let sign := if exponent < 0 then [] else st.exponentSign
  digits.take 1 ++ fraction ++ 'e' :: sign ++ ofInt exponent

/-- The text of a decimal number. -/
def writeScientific (st : Style) (n : Scientific) : List Char :=
  let digits := ofNat n.digits
  let exponent := n.exponent + digits.length - 1
  if st.inPlace exponent then st.digitsInPlace digits exponent
  else st.digitsWithExponent digits exponent

/-- The text of a double. -/
def write (st : Style) (x : Float) : List Char :=
  let sign (negative : Bool) : List Char := if negative then ['-'] else []
  match Double.ofFloat x with
  | .notANumber => "NaN".toList
  | .infinite negative => sign negative ++ "inf".toList
  | .finite negative m q => sign negative ++ st.writeScientific (shortest st.tie m q)

/-! ## The three layouts in use -/

/-- Digits in place throughout, and whole numbers without a fraction. -/
def plain : Style where
  tie := .away
  inPlace _ := true
  wholeEnding := []
  exponentSign := []

/-- Digits in place from `10 ^ -4` to below `10 ^ 16`, and a fraction in every number in place. -/
def inspected : Style where
  tie := .away
  inPlace e := -4 ≤ e ∧ e < 16
  wholeEnding := ['.', '0']
  exponentSign := []

/-- Digits in place from `10 ^ -5` to below `10 ^ 16`, a fraction in every number in place, and a
sign on every exponent. -/
def json : Style where
  tie := .even
  inPlace e := -5 ≤ e ∧ e < 16
  wholeEnding := ['.', '0']
  exponentSign := ['+']

end Style

end Multimap.Decimal
