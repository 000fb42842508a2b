import Multimap.Key

/-!
# Stores: keys with a sequence of values each

A store holds entries, each a key and its sequence of values. It models the containers behind
`Store` and `Lookup` by their arrangement: `IndexMap` is `arrival`, `BTreeMap` is `sorted` and
`HashMap` is `unordered`. The view of a store is `get?`, the sequence of a key; `entry_or_default`
is `register`, or `update` for what is written to the sequence that it lends, and `modify` does the
same for `get_mut`, `mapSequences` for `iter_mut` and `erase` for `remove`.

What an operation does to a key is decided by `SameKey`, and what it does to the order of the keys
by the arrangement alone:

* a key that is new goes to the end, to its sorted place or anywhere (`Arrangement.place`);
* a key that is there keeps its place and its spelling, whatever is written under it;
* a key that goes leaves the others in their order.

A store built from `empty` by these operations has no two keys that are the same.
-/

namespace Multimap

/-- A key and its sequence of values. -/
abbrev Entry (K V : Type) := K × List V

/-- How the entries of a store are laid out. -/
inductive Arrangement
  /-- In the order in which the keys were registered. -/
  | arrival
  /-- In ascending order of the keys. -/
  | sorted
  /-- In an order of no meaning. -/
  | unordered
  deriving DecidableEq, Repr, Inhabited

/-- The list with `e`, an entry for a key that is not in it, put where the arrangement wants it. -/
def Arrangement.place {K V : Type} [Ord K] (a : Arrangement) (e : Entry K V)
    (es : List (Entry K V)) : List (Entry K V) :=
  match a with
  | .arrival => es ++ [e]
  | .sorted =>
    es.takeWhile (fun e' => compare e'.1 e.1 = .lt) ++
      e :: es.dropWhile (fun e' => compare e'.1 e.1 = .lt)
  | .unordered => e :: es

/-- Entries in an arrangement. -/
structure Store (K V : Type) where
  arrangement : Arrangement
  entries : List (Entry K V)
  deriving Repr

namespace Store

variable {K V : Type}

/-- The store without keys. -/
def empty (a : Arrangement) : Store K V := ⟨a, []⟩

/-! ## Views -/

/-- Number of keys, those with an empty sequence included. -/
def size (s : Store K V) : Nat := s.entries.length

def isEmpty (s : Store K V) : Bool := s.entries.isEmpty

def keys (s : Store K V) : List K := s.entries.map (·.1)

def sequences (s : Store K V) : List (List V) := s.entries.map (·.2)

/-! ## Operations that look at no key -/

/-- Unregisters every key. -/
def clear (s : Store K V) : Store K V := { s with entries := [] }

/-- Applies `f` to every sequence. -/
def mapSequences (s : Store K V) (f : List V → List V) : Store K V :=
  { s with entries := s.entries.map fun e => (e.1, f e.2) }

@[simp] theorem keys_mapSequences {s : Store K V} {f : List V → List V} :
    (s.mapSequences f).keys = s.keys := by
  simp [keys, mapSequences, Function.comp_def]

/-! ## Looking up keys -/

variable [Ord K]

/-- The entry whose key is the same as `k`. -/
def find? (s : Store K V) (k : K) : Option (Entry K V) := s.entries.find? (SameKey k ·.1)

/-- The sequence of `k`, when `k` is registered. -/
def get? (s : Store K V) (k : K) : Option (List V) := (s.find? k).map (·.2)

/-- The sequence of `k`, empty when `k` is not registered. -/
def sequence (s : Store K V) (k : K) : List V := (s.get? k).getD []

/-- Whether `k` is registered, be it with an empty sequence. -/
def contains (s : Store K V) (k : K) : Bool := (s.get? k).isSome

/-- The entries in an order that can be relied on: that of the arrangement when it has a meaning,
else ascending by key. -/
def listing (s : Store K V) : List (Entry K V) :=
  match s.arrangement with
  | .unordered => s.entries.mergeSort fun e f => (compare e.1 f.1).isLE
  | _ => s.entries

/-! ## Operations on a key -/

/-- Applies `f` to the sequence of `k`, if `k` is registered. -/
def modify (s : Store K V) (k : K) (f : List V → List V) : Store K V :=
  { s with entries := s.entries.map fun e => if SameKey k e.1 then (e.1, f e.2) else e }

/-- Writes the sequence `vs` under `k`, registering `k` if need be. -/
def insert (s : Store K V) (k : K) (vs : List V) : Store K V :=
  if s.contains k then s.modify k fun _ => vs
  else { s with entries := s.arrangement.place (k, vs) s.entries }

/-- Registers `k` with an empty sequence, if it is not registered. -/
def register (s : Store K V) (k : K) : Store K V :=
  if s.contains k then s else s.insert k []

/-- Applies `f` to the sequence of `k`, the empty one if `k` is not registered, and writes the
outcome under `k`. -/
def update (s : Store K V) (k : K) (f : List V → List V) : Store K V :=
  s.insert k (f (s.sequence k))

/-- Unregisters `k`. -/
def erase (s : Store K V) (k : K) : Store K V :=
  { s with entries := s.entries.filter fun e => ¬ SameKey k e.1 }

/-- Writes the entries one after the other. -/
def insertAll (s : Store K V) (es : List (Entry K V)) : Store K V :=
  es.foldl (fun s e => s.insert e.1 e.2) s

/-- The store filled with the entries, of which the last one written under a key counts. -/
def ofEntries (a : Arrangement) (es : List (Entry K V)) : Store K V := (empty a).insertAll es

/-! ## What the operations keep -/

variable {s : Store K V} {k : K} {vs : List V} {f : List V → List V}

@[simp] theorem keys_modify : (s.modify k f).keys = s.keys := by
  simp only [keys, modify, List.map_map]
  exact List.map_congr_left fun e _ => by simp only [Function.comp]; split <;> rfl

theorem contains_iff : s.contains k ↔ ∃ e ∈ s.entries, SameKey k e.1 := by
  simp [contains, get?, find?]

theorem insert_of_contains (h : s.contains k = true) : s.insert k vs = s.modify k fun _ => vs := by
  simp [insert, h]

theorem keys_insert_of_contains (h : s.contains k = true) : (s.insert k vs).keys = s.keys := by
  simp [insert, h]

theorem entries_insert_of_not_contains (h : s.contains k = false) :
    (s.insert k vs).entries = s.arrangement.place (k, vs) s.entries := by
  simp [insert, h]

end Store

end Multimap
