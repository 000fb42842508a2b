import Multimap.Hashing
import Multimap.Json.Fault
import Multimap.Operation

/-!
# Commands to a workspace and their reports

A `Command` makes a map, works on one or asks about one or two of them. A `Report` holds the reply,
or the reason why there is none, and the entries of the map that the command may have changed.
-/

namespace Multimap

/-- Where a new map comes from. -/
inductive Origin (K V : Type)
  /-- A map without keys. -/
  | empty (a : Arrangement) (p : Policy V)
  /-- A store filled with entries, which may be missing. -/
  | store (a : Arrangement) (entries : Option (List (Entry K V)))
  /-- Pairs of a key and a value. -/
  | pairs (a : Arrangement) (p : Policy V) (ps : List (K × V))
  /-- A JSON text. -/
  | json (a : Arrangement) (p : Policy V) (text : String)

/-- The texts of a map. -/
inductive Form
  | plain
  | line
  | block
  | json

/-- A request to a workspace. -/
inductive Command (K V : Type)
  /-- Makes a map and puts it into a slot, under the policy if one is given. -/
  | create (slot : String) (origin : Origin K V) (policy : Option (Policy V))
  /-- Puts a copy of the map in `source` into a slot. -/
  | copy (slot source : String)
  /-- Keeps of a map only its store. -/
  | unwrap (slot : String)
  /-- Takes a map apart into its entries. -/
  | consume (slot : String)
  /-- Has a map carry out an operation. -/
  | operate (slot : String) (operation : Operation K V (Policy V))
  | keys (slot : String)
  | sequences (slot : String)
  | entries (slot : String)
  /-- Asks the store itself for its size, whether it is empty and whether it has a key. -/
  | storeFacts (slot : String) (k : K)
  /-- Whether two maps are equal. -/
  | equal (slot other : String)
  /-- Whether two maps are equal up to the order of values. -/
  | equalUpToOrder (slot other : String)
  /-- Whether a hasher is fed the same by two maps. -/
  | sameHash (slot other : String)
  /-- Makes each of the requests that are refused. -/
  | refusals (k : K)
  | policy (slot : String)
  | text (slot : String) (form : Form)

/-- Why a command fails. -/
inductive Failure
  | noMap
  | argument (e : ArgumentError)
  | unreadable (fault : Json.Fault)
  /-- A key has no name in JSON. -/
  | unnamedKey
  /-- The values are of a type that is not hashed. -/
  | unhashed

def Failure.message : Failure → Option String
  | argument e => some e.message
  | unreadable (.mismatch m) => some m.message
  | unnamedKey => some "key must be a string"
  | noMap | unreadable .malformed | unreadable .ended | unhashed => none

/-- What a command is replied. -/
inductive Reply (K V : Type)
  | answer (a : Answer V)
  | keys (ks : List K)
  | sequences (vs : List (List V))
  | entries (es : List (Entry K V))
  | storeFacts (size : Nat) (isEmpty contains : Bool)
  | refusals (es : List ArgumentError)
  | policy (p : Policy V)
  | text (s : String)
  | failure (f : Failure)

/-- The reply to a command, and the entries of the map that it may have changed. -/
structure Report (K V : Type) where
  reply : Reply K V
  entries : Option (List (Entry K V))

end Multimap
