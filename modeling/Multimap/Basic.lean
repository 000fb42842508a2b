import Multimap.Policy
import Multimap.Store

/-!
# Multimaps

Model of `MultivaluedMap`: a store together with the policy that decides about absent values.

* Values are offered to the ends of a sequence, and there the policy may have its say: `append` is
  `add`, `prepend` is `add_first`, `assign` is `put_single`, `appendAll` is `add_all` and
  `appendAll?` is `try_add_all`. `accumulate` is `append_values`, which takes the members of an
  object that is read, and `ofPairs` is `from_iter`.
* Whole sequences are written, changed in place and removed as the store does it, past the policy:
  `insertAll` is `put_all`, also for the literal entries of `multivalued_map!`, and `erase` is
  `remove`. What `get_mut` lends is changed by `modify`, what `iter_mut` lends by `mapSequences`;
  `get_values` is `register`, with a `modify` for what is done to the sequence that it lends.
* Of the views, `first?` is `get_first`, `contains` is `contains_key`, `containsSequence` is
  `contains_value`, `size` is `len`, and `flatten` goes through `iter`.
* A map is made by `empty` (`new`), over a store by `ofStore?` (`try_from_store`), and comes under
  another policy by `withPolicy` (`with_null_policy`).

The operations that may ask the policy are `Logged`; the others are plain functions. Every operation
registers the key that it writes to, with two exceptions: `modify` leaves a key alone that is not
registered, and `appendAll` without values does nothing.
-/

/-- A multimap with keys of type `K`, values of type `V` and a policy of type `P`. -/
structure Multimap (K V P : Type) where
  store : Multimap.Store K V
  policy : P
  deriving Repr

namespace Multimap

/-- Why a request is refused. -/
inductive ArgumentError
  | storeMissing
  | valuesMissing
  deriving DecidableEq, Repr

def ArgumentError.message : ArgumentError → String
  | storeMissing => "Invalid argument: underlying store must not be absent"
  | valuesMissing => "Invalid argument: supplied collection of values must not be absent"

variable {K V P : Type}

/-! ## Making maps -/

/-- The map without keys. -/
def empty (a : Arrangement) (p : P) : Multimap K V P := ⟨.empty a, p⟩

instance [Inhabited P] : Inhabited (Multimap K V P) := ⟨empty .arrival default⟩

/-- The map over a store that may be missing. -/
def ofStore? (p : P) : Option (Store K V) → Logged (Except ArgumentError (Multimap K V P))
  | some s => pure (.ok ⟨s, p⟩)
  | none => do
    Logged.log .storeMissing
    return .error .storeMissing

/-- The same entries under another policy. -/
def withPolicy {Q : Type} (m : Multimap K V P) (q : Q) : Multimap K V Q := ⟨m.store, q⟩

/-! ## Views -/

/-- Number of registered keys. -/
def size (m : Multimap K V P) : Nat := m.store.size

def isEmpty (m : Multimap K V P) : Bool := m.store.isEmpty

/-- Whether some key has a sequence that equals `vs` value by value. -/
def containsSequence [BEq V] (m : Multimap K V P) (vs : List V) : Bool :=
  m.store.sequences.any (· == vs)

/-- The pairs of a key and one of its values, entry by entry. -/
def flatten (m : Multimap K V P) : List (K × V) :=
  m.store.entries.flatMap fun e => e.2.map (e.1, ·)

section

variable [Ord K]

/-- The sequence of `k`, when `k` is registered. -/
def get? (m : Multimap K V P) (k : K) : Option (List V) := m.store.get? k

/-- The sequence of `k`, empty when `k` is not registered. -/
def sequence (m : Multimap K V P) (k : K) : List V := m.store.sequence k

/-- The first value of `k`, when there is one. -/
def first? (m : Multimap K V P) (k : K) : Option V := (m.get? k).bind (·.head?)

/-- Whether `k` is registered. -/
def contains (m : Multimap K V P) (k : K) : Bool := m.store.contains k

/-- The entries in an order that can be relied on. -/
def listing (m : Multimap K V P) : List (Entry K V) := m.store.listing

end

/-! ## Whole sequences -/

/-- Unregisters every key. -/
def clear (m : Multimap K V P) : Multimap K V P := { m with store := m.store.clear }

/-- Applies `f` to every sequence. -/
def mapSequences (m : Multimap K V P) (f : List V → List V) : Multimap K V P :=
  { m with store := m.store.mapSequences f }

variable [Ord K]

/-- Writes the sequence `vs` under `k`. -/
def insert (m : Multimap K V P) (k : K) (vs : List V) : Multimap K V P :=
  { m with store := m.store.insert k vs }

/-- Writes the entries one after the other. -/
def insertAll (m : Multimap K V P) (es : List (Entry K V)) : Multimap K V P :=
  es.foldl (fun m e => m.insert e.1 e.2) m

/-- They are written to the store. -/
theorem insertAll_eq (m : Multimap K V P) (es : List (Entry K V)) :
    m.insertAll es = ⟨m.store.insertAll es, m.policy⟩ := by
  induction es generalizing m with
  | nil => rfl
  | cons e es ih => exact ih (m.insert e.1 e.2)

/-- Registers `k` with an empty sequence, if it is not registered. -/
def register (m : Multimap K V P) (k : K) : Multimap K V P :=
  { m with store := m.store.register k }

/-- Applies `f` to the sequence of `k`, if `k` is registered. -/
def modify (m : Multimap K V P) (k : K) (f : List V → List V) : Multimap K V P :=
  { m with store := m.store.modify k f }

/-- Unregisters `k`. -/
def erase (m : Multimap K V P) (k : K) : Multimap K V P := { m with store := m.store.erase k }

/-! ## Offering values -/

variable [AbsencePolicy P V]

/-- Has `k` hold the one value offered. The policy sees an empty sequence. -/
def assign (m : Multimap K V P) (k : K) (v : Option V) : Logged (Multimap K V P) := do
  let (p, vs) ← supply m.policy .back [] v
  return ⟨m.store.insert k vs, p⟩

/-- Offers a value for the back of the sequence of `k`. -/
def append (m : Multimap K V P) (k : K) (v : Option V) : Logged (Multimap K V P) := do
  let (p, vs) ← supply m.policy .back (m.sequence k) v
  return ⟨m.store.insert k vs, p⟩

/-- Offers a value for the front of the sequence of `k`. -/
def prepend (m : Multimap K V P) (k : K) (v : Option V) : Logged (Multimap K V P) := do
  let (p, vs) ← supply m.policy .front (m.sequence k) v
  return ⟨m.store.insert k vs, p⟩

/-- Registers `k` and offers the values one after the other for the back of its sequence. -/
def accumulate (m : Multimap K V P) (k : K) (offered : List (Option V)) :
    Logged (Multimap K V P) := do
  let (p, vs) ← supplyAll m.policy (m.sequence k) offered
  return ⟨m.store.insert k vs, p⟩

/-- Offers the values one after the other for the back of the sequence of `k`. Without values
nothing happens, and `k` is not registered. -/
def appendAll (m : Multimap K V P) (k : K) (offered : List (Option V)) : Logged (Multimap K V P) :=
  if offered.isEmpty then pure m else m.accumulate k offered

/-- `appendAll` for a collection of values that may be missing, which is an error. -/
def appendAll? (m : Multimap K V P) (k : K) :
    Option (List (Option V)) → Logged (Except ArgumentError Unit × Multimap K V P)
  | some offered => do return (.ok (), ← m.appendAll k offered)
  | none => do
    Logged.log .valuesMissing
    return (.error .valuesMissing, m)

/-- Appends the value of every pair under its key. -/
def extend (m : Multimap K V P) (pairs : List (K × V)) : Logged (Multimap K V P) :=
  pairs.foldlM (fun m e => m.append e.1 (some e.2)) m

/-- The map of the pairs: the values of a key in the order of the pairs. -/
def ofPairs (a : Arrangement) (p : P) (pairs : List (K × V)) : Logged (Multimap K V P) :=
  (empty a p).extend pairs

end Multimap
