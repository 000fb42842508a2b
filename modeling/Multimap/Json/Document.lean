import Multimap.Decimal.Style

/-!
# JSON documents and their compact text

A document is a tree whose objects keep their members in order, and may have several of one name.
`Document.write` is its text without blanks.
-/

namespace Multimap.Json

/-- A JSON document. -/
inductive Document
  | null
  | boolean (b : Bool)
  | integer (n : Int)
  /-- A number that is written with a fraction or an exponent. -/
  | real (x : Float)
  | string (s : String)
  | array (items : List Document)
  | object (members : List (String × Document))

/-- How a character stands in a string: a quotation mark, a backslash and the characters below the
blank are written behind a backslash. -/
def escape : Char → List Char
  | '"' => ['\\', '"']
  | '\\' => ['\\', '\\']
  | '\x08' => ['\\', 'b']
  | '\x0c' => ['\\', 'f']
  | '\n' => ['\\', 'n']
  | '\r' => ['\\', 'r']
  | '\t' => ['\\', 't']
  | c =>
    if c.toNat < 0x20 then
      ['\\', 'u', '0', '0', Nat.digitChar (c.toNat / 16), Nat.digitChar (c.toNat % 16)]
    else [c]

/-- A string in quotation marks. -/
def writeString (s : String) : List Char := '"' :: s.toList.flatMap escape ++ ['"']

namespace Document

mutual

/-- The text of a document, without blanks. -/
def write : Document → List Char
  | null => "null".toList
  | boolean true => "true".toList
  | boolean false => "false".toList
  | integer n => Decimal.ofInt n
  | real x => Decimal.Style.json.write x
  | string s => writeString s
  | array items => '[' :: writeItems items ++ [']']
  | object members => '{' :: writeMembers members ++ ['}']

/-- The items of an array with commas between them. -/
def writeItems : List Document → List Char
  | [] => []
  | [d] => d.write
  | d :: e :: rest => d.write ++ ',' :: writeItems (e :: rest)

/-- The members of an object with commas between them. -/
def writeMembers : List (String × Document) → List Char
  | [] => []
  | [(name, d)] => writeString name ++ ':' :: d.write
  | (name, d) :: e :: rest => writeString name ++ ':' :: d.write ++ ',' :: writeMembers (e :: rest)

end

end Document

end Multimap.Json
