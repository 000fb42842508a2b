import Multimap.Operation
import Multimap.Proofs.Bulk
import Multimap.Proofs.KeyOrder

/-!
# Values that are only added

Requests that add values put each of them at one end of the sequence of its key (`Placement`), and
do nothing else: no value is lost, put in twice or moved behind another one. What a run of such
requests leaves can be read off its values. A sequence is what was put in front, the last of it
first, then what was there, then what was put behind.

* `extend_eq_placeAll`, `extend_map`: the values of pairs, and pairs of one key.
* `Addition.run_eq`, `run_operations`: a request, and a run of requests, put their values in place.
* `sequence_placeAll`: the sequence of a key afterwards.
* `written_placeAll`: which keys are written to, and so where they stand (`Store.Joins`).
* **`additions_keep_all`**: a run of requests that add values, and the map of some pairs.
-/

namespace Multimap

variable {K V P : Type}

/-! ## Additions and their values -/

/-- A request that adds values, all of which are there. -/
inductive Addition (K V : Type)
  | append (k : K) (v : V)
  | prepend (k : K) (v : V)
  | appendAll (k : K) (vs : List V)
  | extend (pairs : List (K × V))

/-- A value, the key that it is for and the end of the sequence at which it goes in. -/
structure Placement (K V : Type) where
  position : Position
  key : K
  value : V

namespace Addition

/-- The request to a map. -/
def operation : Addition K V → Operation K V P
  | append k v => .append k (some v)
  | prepend k v => .prepend k (some v)
  | appendAll k vs => .appendAll k (vs.map some)
  | extend pairs => .extend pairs

/-- The values that are added, in order. -/
def placements : Addition K V → List (Placement K V)
  | append k v => [⟨.back, k, v⟩]
  | prepend k v => [⟨.front, k, v⟩]
  | appendAll k vs => vs.map (⟨.back, k, ·⟩)
  | extend pairs => pairs.map fun e => ⟨.back, e.1, e.2⟩

end Addition

variable [Ord K]

/-- The values for `k` at an end of its sequence, in order. -/
def valuesAt (position : Position) (k : K) (xs : List (Placement K V)) : List V :=
  (xs.filter fun x => x.position = position ∧ SameKey k x.key).map (·.value)

/-- The map with the value in its place. -/
def place (m : Multimap K V P) (x : Placement K V) : Multimap K V P :=
  m.insert x.key (x.position.place x.value (m.sequence x.key))

/-- The map with the values in their places, one after the other. -/
def placeAll (m : Multimap K V P) (xs : List (Placement K V)) : Multimap K V P := xs.foldl place m

/-! ## The map afterwards -/

section

variable {m : Multimap K V P} {k : K}

theorem policy_placeAll (xs : List (Placement K V)) : (m.placeAll xs).policy = m.policy := by
  induction xs generalizing m with
  | nil => rfl
  | cons x xs ih => exact ih

theorem written_placeAll (xs : List (Placement K V)) :
    m.store.Written (xs.map (·.key)) (m.placeAll xs).store := by
  induction xs generalizing m with
  | nil => exact .nil _
  | cons x xs ih => exact .cons _ _ (ih (m := m.place x))

variable [Std.TransOrd K]

theorem sequence_place (x : Placement K V) :
    (m.place x).sequence k =
      if SameKey k x.key then x.position.place x.value (m.sequence k) else m.sequence k := by
  show ((m.store.insert x.key (x.position.place x.value (m.store.sequence x.key))).get? k).getD [] =
    if SameKey k x.key then x.position.place x.value ((m.store.get? k).getD []) else _
  rw [Store.get?_insert]
  by_cases h : SameKey k x.key
  · rw [if_pos h.symm, if_pos h, Store.sequence, Store.get?_congr h]
    rfl
  · rw [if_neg (mt SameKey.symm h), if_neg h]
    rfl

/-- **No value is lost, put in twice or moved**: what was put in front, the last of it first, then
what was there, then what was put behind. -/
theorem sequence_placeAll (xs : List (Placement K V)) :
    (m.placeAll xs).sequence k =
      (valuesAt .front k xs).reverse ++ m.sequence k ++ valuesAt .back k xs := by
  induction xs generalizing m with
  | nil => simp [placeAll, valuesAt]
  | cons x xs ih =>
    obtain ⟨position, j, v⟩ := x
    show ((m.place _).placeAll xs).sequence k = _
    rw [ih, sequence_place]
    by_cases h : SameKey k j
    · cases position <;> simp [valuesAt, h, Position.place]
    · simp [valuesAt, h]

end

/-! ## Runs of additions -/

section

variable [AbsencePolicy P V]

/-- The values of pairs are put behind. -/
theorem extend_eq_placeAll (m : Multimap K V P) (pairs : List (K × V)) :
    m.extend pairs = pure (m.placeAll (pairs.map fun e => ⟨.back, e.1, e.2⟩)) := by
  induction pairs generalizing m with
  | nil => rfl
  | cons e pairs ih => exact ih _

variable [Std.TransOrd K]

/-- The pairs of one key are its values in bulk. -/
theorem extend_map (m : Multimap K V P) (k : K) (vs : List V) :
    m.extend (vs.map (k, ·)) = m.appendAll k (vs.map some) := by
  rw [appendAll_eq_foldlM, extend, List.foldlM_map, List.foldlM_map]

variable [BEq V]

/-- **One addition** puts its values in their places, and the policy has no part in it. -/
theorem Addition.run_eq (m : Multimap K V P) (a : Addition K V) :
    a.operation.run m = pure (.done, m.placeAll a.placements) := by
  cases a with
  | append k v => rfl
  | prepend k v => rfl
  | appendAll k vs =>
    simp only [operation, Operation.run, ← extend_map, extend_eq_placeAll, List.map_map]
    rfl
  | extend pairs =>
    simp only [operation, Operation.run, extend_eq_placeAll]
    rfl

/-- **A run of additions** puts all their values in their places. -/
theorem run_operations (m : Multimap K V P) (as : List (Addition K V)) :
    m.run (as.map Addition.operation) =
      pure (as.map fun _ => .done, m.placeAll (as.flatMap Addition.placements)) := by
  induction as generalizing m with
  | nil => rfl
  | cons a as ih =>
    simp only [List.map_cons, run, a.run_eq, pure_bind, ih, List.flatMap_cons, placeAll,
      List.foldl_append]

/-- What requests that add values leave of a map. -/
structure KeepsAll (m : Multimap K V P) (as : List (Addition K V))
    (x : Logged (List (Answer V) × Multimap K V P)) : Prop where
  /-- Nothing is logged. -/
  events_eq : x.events = []
  policy_eq : x.value.2.policy = m.policy
  /-- The keys are those that were there and those for which there is a value. -/
  contains_iff (k : K) : x.value.2.contains k = true ↔
    m.contains k = true ∨ ∃ y ∈ as.flatMap Addition.placements, SameKey k y.key
  /-- The values of a key are those put in front, the last one first, those that were there, and
  those put behind. -/
  get?_eq (k : K) : x.value.2.contains k = true → x.value.2.get? k =
    some ((valuesAt .front k (as.flatMap Addition.placements)).reverse ++ m.sequence k ++
      valuesAt .back k (as.flatMap Addition.placements))
  /-- The keys that were there keep their places and spellings, and the new ones follow as they come
  first; sorted keys stay sorted. -/
  joins : m.store.Joins ((as.flatMap Addition.placements).map (·.key)) x.value.2.store

/-- **No value is lost, put in twice or moved** by requests that add values, over any arrangement
and under any policy. The map of some pairs is what the request to append them leaves of the map
without keys. -/
theorem additions_keep_all {m : Multimap K V P} (hm : m.store.WellFormed)
    (as : List (Addition K V)) :
    KeepsAll m as (m.run (as.map Addition.operation)) ∧
      ∀ (a : Arrangement) (p : P) (pairs : List (K × V)),
        (empty a p).run [(Addition.extend pairs).operation] =
          (fun n => ([.done], n)) <$> ofPairs a p pairs := by
  constructor
  · have hwritten := written_placeAll (m := m) (as.flatMap Addition.placements)
    rw [run_operations]
    constructor
    case events_eq => rfl
    case policy_eq => exact policy_placeAll _
    case contains_iff => exact hwritten.contains_map_iff
    case get?_eq =>
      intro k hk
      exact (Store.get?_of_contains hk).trans (congrArg some (sequence_placeAll _))
    case joins => exact hwritten.joins hm
  · intro a p pairs
    simp [run, Addition.operation, Operation.run, ofPairs]

/-- Values go in at both ends, and the key keeps its spelling. -/
theorem additions_keep_all_caseless :
    let m : Multimap CaselessText Int64 (Policy Int64) := ⟨⟨.arrival, [(⟨"b"⟩, [1])]⟩, .counting []⟩
    let as : List (Addition CaselessText Int64) := [.extend [(⟨"B"⟩, 2)], .prepend ⟨"B"⟩ 0]
    m.store.WellFormed ∧ KeepsAll m as (m.run (as.map Addition.operation)) ∧
      (m.run (as.map Addition.operation)).value.2.store.entries = [(⟨"b"⟩, [0, 1, 2])] := by
  intro m as
  have hm : m.store.WellFormed := ⟨List.pairwise_singleton _ _, nofun⟩
  exact ⟨hm, (additions_keep_all hm as).1, by decide +kernel⟩

end

end Multimap
