import Multimap.Operation
import Multimap.Proofs.KeyOrder

/-!
# Sequences that replace others

A sequence that is written under a key takes the place of the one that is there. Of several that are
written under one key the last one counts, and yet the key stands where the first one came, in the
spelling of that one. It makes no difference whether the entries are written at once, one by one or
into a store from which a map is made, and no policy is asked.

* `Store.eq_of_views`: a well-formed store is made up of its keys and what is looked up under them.
* `Store.get?_insertAll`: what is looked up after entries have been written.
* `Store.insertAll_again`: to write them once more changes nothing.
* `run_insert`: the entries one by one, and what is answered.
* **`insertAll_replaces`**: the map that is left when entries have been written, in every way.
-/

namespace Multimap

variable {K V P : Type} [Ord K]

/-! ## Entries that are written to a store -/

namespace Store

variable {s t : Store K V}

theorem written_insertAll (s : Store K V) (es : List (Entry K V)) :
    s.Written (es.map (·.1)) (s.insertAll es) := by
  induction es generalizing s with
  | nil => exact .nil s
  | cons e es ih => exact .cons e.1 e.2 (ih (s.insert e.1 e.2))

variable [Std.TransOrd K]

/-- Under keys that are there, entries are written without a change to the keys. -/
theorem keys_insertAll {es : List (Entry K V)} (h : ∀ e ∈ es, s.contains e.1 = true) :
    (s.insertAll es).keys = s.keys := by
  induction es generalizing s with
  | nil => rfl
  | cons e es ih =>
    obtain ⟨he, hes⟩ := List.forall_mem_cons.mp h
    have hkeys : (s.insert e.1 e.2).keys = s.keys := keys_insert_of_contains he
    have hstill (e' : Entry K V) (he' : e' ∈ es) : (s.insert e.1 e.2).contains e'.1 = true := by
      rw [contains_eq_isSome, get?_insert]
      split
      · rfl
      · exact hes e' he'
    exact (ih hstill).trans hkeys

/-- **The last entry for a key counts**, wherever in the list it is. -/
theorem get?_insertAll (s : Store K V) (es : List (Entry K V)) (k : K) :
    (s.insertAll es).get? k = ((es.findRev? (SameKey k ·.1)).map (·.2)).or (s.get? k) := by
  induction es generalizing s with
  | nil => rfl
  | cons e es ih =>
    show ((s.insert e.1 e.2).insertAll es).get? k = _
    rw [ih, get?_insert, List.findRev?_eq_find?_reverse, List.findRev?_eq_find?_reverse,
      List.reverse_cons, List.find?_append, Option.map_or, Option.or_assoc]
    by_cases h : SameKey k e.1
    · simp [h, h.symm]
    · simp [h, mt SameKey.symm h]

/-- The entries are the keys, each with what is looked up under it. -/
theorem WellFormed.entries_eq (h : s.WellFormed) :
    s.entries = s.keys.map fun k => (k, s.sequence k) := by
  have hentry : ∀ e ∈ s.entries, (e.1, s.sequence e.1) = e := by
    intro e he
    have hget := h.get?_eq_some_iff.mpr ⟨e, he, SameKey.refl e.1, rfl⟩
    rw [sequence, hget]
    rfl
  rw [keys, List.map_map]
  exact ((List.map_congr_left hentry).trans (List.map_id' _)).symm

/-- **A store is made up of its keys and what is looked up under them.** -/
theorem eq_of_views (hs : s.WellFormed) (ht : t.WellFormed)
    (harrangement : s.arrangement = t.arrangement) (hkeys : s.keys = t.keys)
    (hget : ∀ k, s.get? k = t.get? k) : s = t := by
  refine eq_of_entries harrangement ?_
  rw [hs.entries_eq, ht.entries_eq, hkeys]
  exact List.map_congr_left fun k _ => by rw [sequence, hget, sequence]

/-- To write the entries once more changes nothing. -/
theorem WellFormed.insertAll_again (hs : s.WellFormed) (es : List (Entry K V)) :
    (s.insertAll es).insertAll es = s.insertAll es := by
  have honce := s.written_insertAll es
  have htwice := (s.insertAll es).written_insertAll es
  have hthere (e : Entry K V) (he : e ∈ es) : (s.insertAll es).contains e.1 = true :=
    (honce.contains_map_iff e.1).mpr (.inr ⟨e, he, SameKey.refl e.1⟩)
  refine eq_of_views (htwice.wellFormed (honce.wellFormed hs)) (honce.wellFormed hs)
    htwice.arrangement_eq (keys_insertAll hthere) fun k => ?_
  rw [get?_insertAll, get?_insertAll, ← Option.or_assoc, Option.or_self]

end Store

/-! ## Entries that are written to a map -/

/-- The map whose entries are written out: each is put into the map without keys. -/
def literal (es : List (Entry K V)) : Multimap K V DropAbsent :=
  es.foldl (fun m e => m.insert e.1 e.2) (empty .arrival ⟨⟩)

/-- **Entries one by one**: each is answered what was there for its key until then. -/
theorem run_insert [BEq V] [AbsencePolicy P V] (m : Multimap K V P) (es : List (Entry K V)) :
    m.run (es.map fun e => .insert e.1 e.2) =
      pure (es.mapIdx fun i e => .sequence ((m.insertAll (es.take i)).get? e.1),
        m.insertAll es) := by
  induction es generalizing m with
  | nil => rfl
  | cons e es ih =>
    rw [List.map_cons, run, List.mapIdx_cons]
    simp only [Operation.run, pure_bind, ih]
    rfl

/-- What entries that are written leave of a map. -/
structure Replaces (m : Multimap K V P) (es : List (Entry K V)) : Prop where
  /-- Under a key there is the sequence of the last entry for it, or the one that was there. -/
  get?_eq (k : K) :
    (m.insertAll es).get? k = ((es.findRev? (SameKey k ·.1)).map (·.2)).or (m.get? k)
  contains_iff (k : K) :
    (m.insertAll es).contains k = true ↔ m.contains k = true ∨ ∃ e ∈ es, SameKey k e.1
  /-- The keys that were there keep their places and spellings, and the new ones follow as they come
  first; sorted keys stay sorted. -/
  joins : m.store.Joins (es.map (·.1)) (m.insertAll es).store
  /-- Written once more, the entries change nothing. -/
  again : (m.insertAll es).insertAll es = m.insertAll es
  policy_eq : (m.insertAll es).policy = m.policy
  /-- The policy has no part in it. -/
  insertAll_withPolicy {Q : Type} (q : Q) :
    (m.withPolicy q).insertAll es = (m.insertAll es).withPolicy q
  /-- Nothing is logged. -/
  run_eq [BEq V] [AbsencePolicy P V] : m.run [.insertAll es] = pure ([.done], m.insertAll es)
  /-- One by one the entries leave the same map, and nothing is logged. Each of them is answered
  what would have been looked up just before. -/
  run_insert_eq [BEq V] [AbsencePolicy P V] :
    m.run (es.map fun e => .insert e.1 e.2) =
      pure (es.mapIdx fun i e => .sequence ((m.insertAll (es.take i)).get? e.1), m.insertAll es)

/-- **The last sequence counts, at the first place**: entries that are written replace what is
there, over any arrangement and under any policy. If there is nothing yet, the map that is left is
also the one whose entries are written out and the one of a store that is filled with them. -/
theorem insertAll_replaces [Std.TransOrd K] {m : Multimap K V P} (hm : m.store.WellFormed)
    (es : List (Entry K V)) :
    Replaces m es ∧
      ∀ p : P, ((empty .arrival p).insertAll es).store = (literal es).store ∧
        ofStore? p (some (.ofEntries .arrival es)) =
          pure (.ok ((empty .arrival p).insertAll es)) := by
  have hstore : (m.insertAll es).store = m.store.insertAll es := by rw [insertAll_eq]
  have hwritten : m.store.Written (es.map (·.1)) (m.insertAll es).store := by
    rw [hstore]
    exact m.store.written_insertAll es
  refine ⟨?_, fun p => ⟨?_, ?_⟩⟩
  · constructor
    case get?_eq =>
      intro k
      rw [get?, hstore]
      exact m.store.get?_insertAll es k
    case contains_iff => exact hwritten.contains_map_iff
    case joins => exact hwritten.joins hm
    case again => rw [insertAll_eq, hstore, hm.insertAll_again, insertAll_eq]
    case policy_eq => rw [insertAll_eq]
    case insertAll_withPolicy =>
      intro Q q
      rw [insertAll_eq, insertAll_eq]
      rfl
    case run_eq =>
      intros
      rfl
    case run_insert_eq =>
      intros
      exact run_insert m es
  · show _ = ((empty .arrival DropAbsent.mk).insertAll es).store
    rw [insertAll_eq, insertAll_eq]
    rfl
  · rw [insertAll_eq]
    rfl

/-- A new key comes twice, in two spellings. -/
theorem insertAll_replaces_caseless :
    let m : Multimap CaselessText Int64 (Policy Int64) := ⟨⟨.arrival, [(⟨"b"⟩, [1])]⟩, .wipe⟩
    let es : List (Entry CaselessText Int64) := [(⟨"C"⟩, [2]), (⟨"c"⟩, [3, 4])]
    m.store.WellFormed ∧ Replaces m es ∧
      (m.insertAll es).store.entries = [(⟨"b"⟩, [1]), (⟨"C"⟩, [3, 4])] ∧
      (literal es).store.entries = [(⟨"C"⟩, [3, 4])] := by
  intro m es
  have hm : m.store.WellFormed := ⟨List.pairwise_singleton _ _, nofun⟩
  have hreplaces : Replaces m es := (insertAll_replaces hm es).1
  refine ⟨hm, hreplaces, ?_, ?_⟩
  · decide +kernel
  · decide +kernel

end Multimap
