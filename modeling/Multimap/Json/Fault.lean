import Multimap.Decimal.Style
import Multimap.Text.Quoted

/-!
# What can go wrong when JSON is read

A text is no JSON (`malformed`), or it ends too soon (`ended`), or it is JSON of another kind than
is wanted (`mismatch`). Only a mismatch is put into words.
-/

namespace Multimap.Json

/-- What is wanted. -/
inductive Expected
  | map
  | sequence
  | string
  | int64
  | byte
  | double
  | intPair
  deriving DecidableEq, Repr

def Expected.describe : Expected → String
  | map => "a map from keys to sequences of values"
  | sequence => "a sequence"
  | string => "a string"
  | int64 => "i64"
  | byte => "u8"
  | double => "f64"
  | intPair => "tuple struct Pair"

/-- What is there. Of arrays and objects only their kind is seen. -/
inductive Found
  | null
  | boolean (b : Bool)
  | integer (n : Int)
  | real (x : Float)
  | string (s : String)
  | sequence
  | map

/-- The text between backticks. -/
def ticked (text : List Char) : List Char := '\x60' :: text ++ ['\x60']

def Found.describe : Found → List Char
  | null => "null".toList
  | boolean b => "boolean ".toList ++ ticked (if b then "true".toList else "false".toList)
  | integer n => "integer ".toList ++ ticked (Decimal.ofInt n)
  | real x => "floating point ".toList ++ ticked (Decimal.Style.json.write x)
  | string s => "string ".toList ++ Text.quote s.toList
  | sequence => "sequence".toList
  | map => "map".toList

/-- JSON of another kind than is wanted. -/
inductive Mismatch
  | kind (found : Found) (expected : Expected)
  /-- An integer that the wanted type has no room for. -/
  | range (n : Int) (expected : Expected)

def Mismatch.message : Mismatch → String
  | kind found expected =>
    "invalid type: " ++ String.ofList found.describe ++ ", expected " ++ expected.describe
  | range n expected =>
    "invalid value: " ++ String.ofList (Found.integer n).describe ++ ", expected " ++
      expected.describe

/-- Why a text cannot be read. -/
inductive Fault
  | malformed
  | ended
  | mismatch (m : Mismatch)

end Multimap.Json
