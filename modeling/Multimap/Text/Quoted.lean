import Multimap.Decimal.Integer
import Multimap.Text.GraphemeExtender
import Multimap.Text.Printable

/-!
# Quoted text

Text between double quotes in which every character can be told apart when it is looked at: what is
not printable, or would be drawn onto the character before it, is written as its code point.
-/

namespace Multimap.Text

/-- The character by its code point, in hexadecimal digits. -/
def codePoint (c : Char) : List Char :=
  '\\' :: 'u' :: '{' :: Nat.toDigits 16 c.toNat ++ ['}']

/-- How a character stands between the quotes. -/
def escape : Char → List Char
  | '\x00' => ['\\', '0']
  | '\t' => ['\\', 't']
  | '\r' => ['\\', 'r']
  | '\n' => ['\\', 'n']
  | '"' => ['\\', '"']
  | '\\' => ['\\', '\\']
  | c => if isPrintable c && !isGraphemeExtender c then [c] else codePoint c

/-- The text between double quotes. -/
def quote (text : List Char) : List Char := '"' :: text.flatMap escape ++ ['"']

end Multimap.Text
