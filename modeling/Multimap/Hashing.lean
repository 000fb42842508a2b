import Multimap.Basic

/-!
# What a hash is computed from

A value is hashed by feeding a hasher with items, one after the other. Values that are equal feed
the same items; a caseless text, for one, feeds its folded form. Each sequence is preceded by its
length, so that a value cannot pass from the end of one sequence to the start of the next unseen.
-/

namespace Multimap

/-- What a hasher takes in at a time. -/
inductive HashItem
  | length (n : Nat)
  | integer (n : Int64)
  | byte (b : UInt8)
  | text (s : String)
  deriving DecidableEq, Repr

/-- Types whose values can be hashed. -/
class HashInput (α : Type) where
  hashItems : α → List HashItem

export HashInput (hashItems)

instance : HashInput String := ⟨fun s => [.text s]⟩

instance : HashInput Int64 := ⟨fun n => [.integer n]⟩

instance : HashInput UInt8 := ⟨fun b => [.byte b]⟩

instance : HashInput CaselessText := ⟨fun t => [.text t.folded]⟩

instance : HashInput IntPair := ⟨fun p => [.integer p.first, .integer p.second]⟩

instance {V : Type} [HashInput V] : HashInput (List V) :=
  ⟨fun vs => .length vs.length :: vs.flatMap hashItems⟩

/-- A map feeds its entries in the order of the store, which is why only maps with sorted keys have
hashes that go with their equality. -/
instance {K V P : Type} [HashInput K] [HashInput V] : HashInput (Multimap K V P) :=
  ⟨fun m => .length m.size :: m.store.entries.flatMap fun e => hashItems e.1 ++ hashItems e.2⟩

end Multimap
