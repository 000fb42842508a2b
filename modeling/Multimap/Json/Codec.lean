import Multimap.Basic
import Multimap.Json.Document
import Multimap.Json.Reader

/-!
# Multimaps as JSON

A map is an object with a member for each entry, in the order of its listing: the name of the key
and the array of the values. `document?` is what `serialize` hands over and `toJson?` the text of
it. Keys that are integers are named by their digits; pairs of integers have no name, so a map with
such a key has no JSON form.

Reading goes the other way: `ofJson` is `deserialize`, and `readMap` is `visit_map`, which goes
through the members. The values of a member are taken as a whole (`next_entry`) and then offered to
the sequence of its key (`append_values`, which is `accumulate`), `null` as an absent value, so
several members of one name add to one sequence, and a name without values registers its key.
-/

namespace Multimap

open Json

/-! ## Keys -/

/-- Types of keys, with the names that they have as members of an object. -/
class MemberName (K : Type) where
  /-- The name of a key, if it has one. -/
  name? : K → Option String
  /-- Takes a name and its closing quotation mark. -/
  scanName : Scan K

namespace MemberName

/-- Takes the characters of a name. -/
def scanText : Scan String := fun text => do
  let (characters, rest) ← scanString text
  return (String.ofList characters, rest)

/-- Takes a name that is an integer of the given range and nothing else. -/
def scanInteger (expected : Expected) (least greatest : Int) : Scan Int := fun text =>
  if text.head?.any Reader.startsNumber then do
    let (n, rest) ← scanNumber text
    let n ← n.toRange expected least greatest
    match rest with
    | '"' :: rest => pure (n, rest)
    | _ => throw .malformed
  else throw .malformed

instance : MemberName String where
  name? := some
  scanName := scanText

instance : MemberName CaselessText where
  name? t := some t.spelling
  scanName := CaselessText.mk <$> scanText

instance : MemberName Int64 where
  name? n := some (String.ofList (Decimal.ofInt n.toInt))
  scanName := Int64.ofInt <$> scanInteger .int64 Int64.minValue.toInt Int64.maxValue.toInt

instance : MemberName UInt8 where
  name? n := some (String.ofList (Decimal.ofNat n.toNat))
  scanName := (fun n => UInt8.ofNat n.toNat) <$> scanInteger .byte 0 255

instance : MemberName IntPair where
  name? _ := none
  scanName := do throw (.mismatch (.kind (.string (← scanText)) .intPair))

end MemberName

/-! ## Values -/

/-- Types of values that are read from JSON and written as JSON. -/
class JsonValue (V : Type) where
  /-- The document of a value, if it has one. -/
  document? : V → Option Document
  /-- Takes a value. -/
  read : Reader V

instance : JsonValue String where
  document? s := some (.string s)
  read := .ofScan Reader.string

instance : JsonValue Int64 where
  document? n := some (.integer n.toInt)
  read := .ofScan do
    return Int64.ofInt (← Reader.integer .int64 Int64.minValue.toInt Int64.maxValue.toInt)

instance : JsonValue UInt8 where
  document? n := some (.integer n.toNat)
  read := .ofScan do return UInt8.ofNat (← Reader.integer .byte 0 255).toNat

/-- Doubles that are not finite are written as absent values. -/
instance : JsonValue Float where
  document? x := some (if x.isFinite then .real x else .null)
  read := .ofScan do return (← Reader.number .double).toFloat

/-! ## Maps -/

variable {K V P : Type} [Ord K] [MemberName K] [JsonValue V]

/-- The member of an entry. -/
def member? (e : Entry K V) : Option (String × Document) := do
  return (← MemberName.name? e.1, .array (← e.2.mapM JsonValue.document?))

/-- The document of a map, if all its keys have names. -/
def document? (m : Multimap K V P) : Option Document := do
  return .object (← m.listing.mapM member?)

/-- The JSON text of a map, if all its keys have names. -/
def toJson? (m : Multimap K V P) : Option String :=
  m.document?.map fun d => String.ofList d.write

variable [AbsencePolicy P V]

/-- Takes the name of a member, from its opening quotation mark on. -/
def readName : Scan K
  | '"' :: rest => MemberName.scanName rest
  | text => throw (.stuck text)

/-- Takes a member and offers its values to the map. -/
def readMember (m : Multimap K V P) : Reader (Multimap K V P) := do
  let k ← .ofScan readName
  Reader.ofScan Reader.skipColon
  let offered ← Reader.sequence JsonValue.read
  .ofLogged (m.accumulate k offered)

/-- Takes an object, whose members are added to the map. -/
def readMap (m : Multimap K V P) : Reader (Multimap K V P) := Reader.object readMember m

/-- The map that a JSON text stands for. -/
def ofJson (a : Arrangement) (p : P) (text : String) : Logged (Except Fault (Multimap K V P)) :=
  Reader.whole (readMap (empty a p)) text.toList

instance [Inhabited P] : JsonValue (Multimap K V P) where
  document? := document?
  read := readMap default

end Multimap
