import Multimap.Basic

/-!
# Operations and runs

An `Operation` is a request to one multimap, as data: what changes the map, and the look-ups
(`Query`) that only read it. `run` carries out a list of them, one after the other, and collects the
answers.

Most are the functions of their names. Four change a sequence that the map lends: `edit` goes
through `get_values`, `modify` through `get_mut`, `modifyAll` through `iter_mut`, and `update` goes
past the map to `entry_or_default` of its store (`store_mut`). `setPolicy` is `with_null_policy`.
-/

namespace Multimap

variable {K V P : Type}

/-- A look-up whose answer does not hang on the order of the keys. -/
inductive Query (K V : Type)
  /-- The sequence of a key. -/
  | sequence (k : K)
  /-- The first value of a key. -/
  | first (k : K)
  /-- Whether a key is registered. -/
  | contains (k : K)
  /-- Whether some key has this sequence. -/
  | containsSequence (vs : List V)
  /-- Number of keys. -/
  | size
  | isEmpty

/-- A request to a multimap. -/
inductive Operation (K V P : Type)
  | assign (k : K) (v : Option V)
  | append (k : K) (v : Option V)
  | prepend (k : K) (v : Option V)
  | appendAll (k : K) (offered : List (Option V))
  /-- `appendAll` of a collection that may be missing. -/
  | appendAll? (k : K) (offered : Option (List (Option V)))
  | extend (pairs : List (K × V))
  | insert (k : K) (vs : List V)
  | insertAll (entries : List (Entry K V))
  | erase (k : K)
  | clear
  /-- Registers the key and then changes its sequence; answers the sequence before the change. -/
  | edit (k : K) (f : List V → List V)
  /-- Writes the changed sequence of the key; answers it. -/
  | update (k : K) (f : List V → List V)
  /-- Changes the sequence of the key if it is registered; answers the sequence before. -/
  | modify (k : K) (f : List V → List V)
  /-- Changes every sequence; answers how many there are. -/
  | modifyAll (f : List V → List V)
  /-- From here on another policy is asked. -/
  | setPolicy (p : P)
  | query (q : Query K V)

/-- What a request is answered. -/
inductive Answer (V : Type)
  | done
  | accepted
  | refused (e : ArgumentError)
  /-- A sequence, if there is one. -/
  | sequence (vs : Option (List V))
  /-- A value, if there is one. -/
  | value (v : Option V)
  | truth (b : Bool)
  | count (n : Nat)
  deriving DecidableEq, Repr

variable [Ord K] [BEq V]

/-- The answer to a look-up. -/
def Query.answer (m : Multimap K V P) : Query K V → Answer V
  | sequence k => .sequence (m.get? k)
  | first k => .value (m.first? k)
  | contains k => .truth (m.contains k)
  | containsSequence vs => .truth (m.containsSequence vs)
  | size => .count m.size
  | isEmpty => .truth m.isEmpty

variable [AbsencePolicy P V]

/-- Carries out a request: the answer, and the map afterwards. -/
def Operation.run (m : Multimap K V P) : Operation K V P → Logged (Answer V × Multimap K V P)
  | assign k v => return (.done, ← m.assign k v)
  | append k v => return (.done, ← m.append k v)
  | prepend k v => return (.done, ← m.prepend k v)
  | appendAll k offered => return (.done, ← m.appendAll k offered)
  | appendAll? k offered => do
    match ← m.appendAll? k offered with
    | (.ok _, m) => return (.accepted, m)
    | (.error e, m) => return (.refused e, m)
  | extend pairs => return (.done, ← m.extend pairs)
  | insert k vs => return (.sequence (m.get? k), m.insert k vs)
  | insertAll entries => return (.done, m.insertAll entries)
  | erase k => return (.sequence (m.get? k), m.erase k)
  | clear => return (.done, m.clear)
  | edit k f =>
    let m := m.register k
    return (.sequence (m.get? k), m.modify k f)
  | update k f =>
    let m := { m with store := m.store.update k f }
    return (.sequence (m.get? k), m)
  | modify k f => return (.sequence (m.get? k), m.modify k f)
  | modifyAll f => return (.count m.size, m.mapSequences f)
  | setPolicy p => return (.done, m.withPolicy p)
  | query q => return (q.answer m, m)

/-- Carries out requests one after the other: the answers in that order, and the map afterwards. -/
def run (m : Multimap K V P) : List (Operation K V P) → Logged (List (Answer V) × Multimap K V P)
  | [] => return ([], m)
  | o :: os => do
    let (a, m) ← o.run m
    let (as, m) ← m.run os
    return (a :: as, m)

end Multimap
