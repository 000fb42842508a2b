import Multimap.Proofs.Additions
import Multimap.Proofs.Comparison
import Multimap.Proofs.Reachability

/-!
# Maps that are taken apart and put together

A map is taken apart into pairs of a key and a value (`flatten`), and pairs are put together to a
map (`ofPairs`). The pairs of a map come in blocks, one for each key, and since no two keys are the
same a block makes up one new sequence. So the map comes back, except for keys without a value, of
which there is no pair. Pairs of any order come back grouped by their keys, and apart from that as
they were.

* `extend_flatMap`, `ofPairs_flatten`: each block is put under its key.
* `filter_regroup`: pairs of one key keep their order when the keys are gone through.
* `Regrouped`, `regrouped_ofPairs`: pairs, and the pairs of the map that they make up.
* **`flatten_ofPairs`**: collecting what a map is taken apart into, and taking apart what is
  collected.
-/

namespace Multimap

variable {K V P Q : Type}

/-! ## Entries that have a value -/

/-- The entries that have a value. -/
def filled (es : List (Entry K V)) : List (Entry K V) := es.filter fun e => !e.2.isEmpty

/-- The store without the keys that have no value. -/
def Store.filled (s : Store K V) : Store K V := { s with entries := Multimap.filled s.entries }

/-- How many values there are under all keys together. -/
def total (m : Multimap K V P) : Nat := (m.store.sequences.map List.length).foldr (· + ·) 0

theorem mem_filled {es : List (Entry K V)} {e : Entry K V} :
    e ∈ filled es ↔ e ∈ es ∧ e.2 ≠ [] := by
  simp [filled]

/-- There is a pair for each value. -/
theorem length_flatten (m : Multimap K V P) : m.flatten.length = m.total := by
  unfold flatten total Store.sequences
  induction m.store.entries with
  | nil => rfl
  | cons e es ih =>
    rw [List.flatMap_cons, List.length_append, ih, List.length_map]
    rfl

/-- Of a key without a value there is no pair. -/
theorem flatMap_filled (es : List (Entry K V)) :
    (filled es).flatMap (fun e => e.2.map (e.1, ·)) = es.flatMap fun e => e.2.map (e.1, ·) := by
  induction es with
  | nil => rfl
  | cons e es ih =>
    obtain ⟨k, vs⟩ := e
    cases vs with
    | nil => exact ih
    | cons v vs => exact congrArg (((v :: vs).map (k, ·)) ++ ·) ih

variable [Ord K]

theorem Store.WellFormed.filled {s : Store K V} (h : s.WellFormed) : s.filled.WellFormed :=
  ⟨h.distinct.filter _, fun ha => (h.ascending ha).filter _⟩

/-! ## Collecting the pairs of a map -/

section

variable [Std.TransOrd K]

/-- **Each block of pairs is put under its key**, which is new. -/
theorem extend_flatMap [AbsencePolicy Q V] {m : Multimap K V Q} {es : List (Entry K V)}
    (h : m.store.NewIn (filled es)) :
    m.extend (es.flatMap fun e => e.2.map (e.1, ·)) = pure (m.insertAll (filled es)) := by
  induction es generalizing m with
  | nil => rfl
  | cons e es ih =>
    obtain ⟨k, vs⟩ := e
    cases vs with
    | nil => exact ih h
    | cons v vs =>
      have hnone : m.store.get? k = none := h.get?_eq_none (k, v :: vs) List.mem_cons_self
      have hblock : m.extend ((v :: vs).map (k, ·)) = pure (m.insert k (v :: vs)) :=
        (extend_map m k (v :: vs)).trans (accumulate_map_some hnone (v :: vs))
      rw [List.flatMap_cons, extend, List.foldlM_append]
      show m.extend ((v :: vs).map (k, ·)) >>= _ = _
      rw [hblock, pure_bind]
      exact ih h.tail

/-- The pairs of a map, collected over any arrangement and under any policy. -/
theorem ofPairs_flatten [AbsencePolicy Q V] {m : Multimap K V P} (hm : m.store.WellFormed)
    (a : Arrangement) (q : Q) :
    ofPairs a q m.flatten = pure ⟨.ofEntries a m.store.filled.entries, q⟩ := by
  have hnew : (empty a q : Multimap K V Q).store.NewIn (filled m.store.entries) :=
    .empty hm.filled.distinct
  refine (extend_flatMap hnew).trans ?_
  rw [insertAll_eq]
  rfl

end

/-! ## Taking apart what is collected -/

/-- The second list holds the pairs of the first, those of one key in the order that they had, under
keys that may be spelled otherwise. -/
def Regrouped (ps qs : List (K × V)) : Prop :=
  ∃ cs, cs.Perm ps ∧ (∀ k, cs.filter (SameKey k ·.1) = ps.filter (SameKey k ·.1)) ∧
    List.Forall₂ (fun c q => SameKey c.1 q.1 ∧ c.2 = q.2) cs qs

section

variable {α β γ : Type}

theorem forall₂_flatMap {S : α → β → Prop} {xs : List γ} {f : γ → List α} {g : γ → List β}
    (h : ∀ x ∈ xs, List.Forall₂ S (f x) (g x)) : List.Forall₂ S (xs.flatMap f) (xs.flatMap g) := by
  induction xs with
  | nil => exact .nil
  | cons x xs ih =>
    obtain ⟨hx, hxs⟩ := List.forall_mem_cons.mp h
    rw [List.flatMap_cons, List.flatMap_cons]
    exact List.rel_append hx (ih hxs)

/-- Only those elements contribute for which there is something. -/
theorem flatMap_ite (p : α → Prop) [DecidablePred p] (xs : List α) (ys : List β) :
    (xs.flatMap fun x => if p x then ys else []) = (xs.filter p).flatMap fun _ => ys := by
  induction xs with
  | nil => rfl
  | cons x xs ih => by_cases h : p x <;> simp [h, ih]

end

section

variable [Std.TransOrd K] {s : Store K V} {ps cs : List (K × V)}

/-- Lists that agree on the pairs of each key hold the same pairs. -/
theorem perm_of_filter (h : ∀ k, cs.filter (SameKey k ·.1) = ps.filter (SameKey k ·.1)) :
    cs.Perm ps := by
  classical
  refine List.perm_iff_count.mpr fun p => ?_
  have hcount (qs : List (K × V)) : (qs.filter (SameKey p.1 ·.1)).count p = qs.count p :=
    List.count_filter (decide_eq_true (SameKey.refl p.1))
  rw [← hcount cs, h, hcount ps]

/-- The pairs of one key are those of another, or none of them is. -/
theorem filter_filter_sameKey (j k : K) :
    (ps.filter (SameKey j ·.1)).filter (SameKey k ·.1) =
      if SameKey k j then ps.filter (SameKey k ·.1) else [] := by
  rw [List.filter_filter]
  split
  · next hk =>
    refine List.filter_congr fun p _ => ?_
    simp [hk.same_left]
  · next hk =>
    refine List.filter_eq_nil_iff.mpr fun p _ hp => hk ?_
    simp only [Bool.and_eq_true, decide_eq_true_eq] at hp
    exact hp.1.trans hp.2.symm

/-- The pairs of each key of the store, one key after the other. -/
def regroup (s : Store K V) (ps : List (K × V)) : List (K × V) :=
  s.entries.flatMap fun e => ps.filter (SameKey e.1 ·.1)

/-- **Pairs of one key keep their order** when the keys are gone through. -/
theorem filter_regroup (hs : s.WellFormed) (hps : ∀ p ∈ ps, s.contains p.1 = true) (k : K) :
    (regroup s ps).filter (SameKey k ·.1) = ps.filter (SameKey k ·.1) := by
  -- Only the entry of `k`, of which there is at most one, contributes pairs of `k`.
  simp only [regroup, List.filter_flatMap, filter_filter_sameKey]
  rw [flatMap_ite]
  cases hc : s.contains k with
  | true =>
    obtain ⟨e, he, hk⟩ := Store.contains_iff.mp hc
    rw [hs.filter_eq_singleton he hk, List.flatMap_singleton]
  | false =>
    have hnone : s.entries.filter (SameKey k ·.1) = [] := by
      refine List.filter_eq_nil_iff.mpr fun e he hk => ?_
      rw [Store.contains_iff.mpr ⟨e, he, of_decide_eq_true hk⟩] at hc
      exact Bool.noConfusion hc
    have hpairs : ps.filter (SameKey k ·.1) = [] := by
      refine List.filter_eq_nil_iff.mpr fun p hp hk => ?_
      rw [Store.contains_eq_isSome, Store.get?_congr (of_decide_eq_true hk),
        ← Store.contains_eq_isSome, hps p hp] at hc
      exact Bool.noConfusion hc
    rw [hnone, hpairs]
    rfl

/-- A store that has the values of each key in the order of the pairs is taken apart into the
pairs. -/
theorem regrouped_flatten (hs : s.WellFormed) (hps : ∀ p ∈ ps, s.contains p.1 = true)
    (hvalues : ∀ e ∈ s.entries, e.2 = (ps.filter (SameKey e.1 ·.1)).map (·.2)) (q : Q) :
    Regrouped ps (flatten ⟨s, q⟩) := by
  refine ⟨regroup s ps, perm_of_filter (filter_regroup hs hps), filter_regroup hs hps,
    forall₂_flatMap fun e he => ?_⟩
  rw [hvalues e he, List.map_map, List.forall₂_map_right_iff]
  refine List.forall₂_same.mpr fun p hp => ⟨?_, rfl⟩
  exact (of_decide_eq_true (List.mem_filter.mp hp).2 : SameKey e.1 p.1).symm

/-- The values of a key, collected from pairs, are those of its pairs in their order. -/
theorem sequence_ofPairs [AbsencePolicy Q V] (a : Arrangement) (q : Q) (k : K) :
    (ofPairs a q ps).value.store.sequence k = (ps.filter (SameKey k ·.1)).map (·.2) := by
  rw [ofPairs, extend_eq_placeAll]
  refine (sequence_placeAll _).trans ?_
  have hfront : valuesAt .front k (ps.map fun e => (⟨.back, e.1, e.2⟩ : Placement K V)) = [] := by
    simp [valuesAt, List.filter_map, Function.comp_def]
  have hback : valuesAt .back k (ps.map fun e => (⟨.back, e.1, e.2⟩ : Placement K V)) =
      (ps.filter (SameKey k ·.1)).map (·.2) := by
    simp [valuesAt, List.filter_map, Function.comp_def]
  rw [hfront, hback]
  rfl

/-- **Pairs that are collected and taken apart again are regrouped**, in whatever order the keys are
gone through if their order has no meaning. -/
theorem regrouped_ofPairs [BEq V] [AbsencePolicy Q V] (a : Arrangement) (q : Q)
    (h : (ofPairs a q ps).value.store.Relaid s) : Regrouped ps (flatten ⟨s, q⟩) := by
  have hwellFormed : (ofPairs a q ps).value.store.WellFormed :=
    (Reachable.ofPairs a q ps).wellFormed
  have halike := (Store.Alike.refl ⟨hwellFormed, rfl⟩).relaid h
  have hs := halike.right.toWellFormed
  have hwritten := written_placeAll (m := (empty a q : Multimap K V Q))
    (ps.map fun e => ⟨.back, e.1, e.2⟩)
  refine regrouped_flatten hs (fun p hp => ?_) (fun e he => ?_) q
  · rw [← halike.contains_eq, ofPairs, extend_eq_placeAll]
    exact (hwritten.contains_map_iff p.1).mpr
      (.inr ⟨_, List.mem_map_of_mem hp, SameKey.refl p.1⟩)
  · have hget : s.get? e.1 = some e.2 :=
      hs.get?_eq_some_iff.mpr ⟨e, he, SameKey.refl e.1, rfl⟩
    rw [← sequence_ofPairs a q, halike.sequence_eq, Store.sequence, hget]
    rfl

end

/-! ## The two together -/

section

variable [BEq V]

/-- What the pairs of a map come to when they are collected. Nothing is logged, under whatever
policy. -/
structure Recollects (m : Multimap K V P) : Prop where
  /-- Over the same arrangement, the map without the keys that have no value: the same entries, in
  the same order if it has a meaning. -/
  same {Q : Type} [AbsencePolicy Q V] (q : Q) :
    ∃ s, ofPairs m.store.arrangement q m.flatten = pure ⟨s, q⟩ ∧ s.WellFormed ∧
      m.store.filled.Relaid s
  /-- Over another arrangement, the same entries in the order of that arrangement. -/
  other {Q : Type} [AbsencePolicy Q V] (a : Arrangement) (q : Q) :
    ∃ s, ofPairs a q m.flatten = pure ⟨s, q⟩ ∧
      Store.Alike m.store.arrangement a m.store.filled s
  /-- The maps over any two arrangements are equal if and only if each value equals itself. -/
  equal_iff {Q R : Type} [AbsencePolicy Q V] [AbsencePolicy R V] (a b : Arrangement) (q : Q)
    (r : R) : (ofPairs a q m.flatten).value.equal (ofPairs b r m.flatten).value = true ↔
      ∀ e ∈ m.store.entries, ∀ v ∈ e.2, (v == v) = true
  length_eq : m.flatten.length = m.total
  /-- No value is lost and none is there twice. -/
  total_eq {Q : Type} [AbsencePolicy Q V] (a : Arrangement) (q : Q) :
    (ofPairs a q m.flatten).value.total = m.flatten.length

/-- **Taking apart and putting together are inverse**: a map that is collected from its pairs is the
map again but for the keys without a value, and the pairs of a map that is collected from pairs are
these pairs again but for the order of those with different keys, and the spelling of the keys. -/
theorem flatten_ofPairs [Std.TransOrd K] {m : Multimap K V P} (hm : Reachable m) :
    Recollects m ∧
      ∀ (Q : Type) [AbsencePolicy Q V] (a : Arrangement) (q : Q) (ps : List (K × V)),
        (ofPairs a q ps).events = [] ∧
          ∀ s, (ofPairs a q ps).value.store.Relaid s → Regrouped ps (flatten ⟨s, q⟩) := by
  have hwellFormed := hm.wellFormed
  have hfilled := hwellFormed.filled
  constructor
  · constructor
    case same =>
      intro Q _ q
      exact ⟨_, ofPairs_flatten hwellFormed _ q, .ofEntries _ _, hfilled.relaid_ofEntries⟩
    case other =>
      intro Q _ a q
      exact ⟨_, ofPairs_flatten hwellFormed a q, hfilled.alike_ofEntries (.refl _) a⟩
    case equal_iff =>
      intro Q R _ _ a b q r
      rw [ofPairs_flatten hwellFormed a q, ofPairs_flatten hwellFormed b r]
      have ha := hfilled.alike_ofEntries (.refl _) a
      have hb := hfilled.alike_ofEntries (.refl _) b
      have hab : Store.Alike a b (.ofEntries a m.store.filled.entries)
          (.ofEntries b m.store.filled.entries) :=
        ⟨ha.right, hb.right, ha.entries.symm.trans hb.entries⟩
      refine (equal_iff_of_alike hab).trans ?_
      constructor
      · intro hall e he v hv
        have hmem : e ∈ m.store.filled.entries := mem_filled.mpr ⟨he, List.ne_nil_of_mem hv⟩
        exact hall e (ha.entries.mem_iff.mp hmem) v hv
      · intro hall e he
        exact hall e (mem_filled.mp (ha.entries.mem_iff.mpr he)).1
    case length_eq => exact length_flatten m
    case total_eq =>
      intro Q _ a q
      rw [← length_flatten, ofPairs_flatten hwellFormed a q]
      have hperm := (hfilled.alike_ofEntries (.refl _) a).entries.symm.flatMap_right
        fun e => e.2.map (e.1, ·)
      exact hperm.length_eq.trans (congrArg List.length (flatMap_filled m.store.entries))
  · intro Q _ a q ps
    refine ⟨?_, fun s hs => regrouped_ofPairs a q hs⟩
    rw [ofPairs, extend_eq_placeAll]
    rfl

/-- A key without a value goes, and pairs of a key that are apart come together. -/
theorem flatten_ofPairs_int64 :
    let m : Multimap Int64 Int64 DropAbsent :=
      (empty .arrival ⟨⟩).insertAll [(3, [1, 2]), (2, []), (1, [3])]
    let ps : List (Int64 × Int64) := [(2, 5), (1, 6), (2, 7)]
    Reachable m ∧ m.flatten = [(3, 1), (3, 2), (1, 3)] ∧
      (ofPairs .arrival (Policy.silent : Policy Int64) m.flatten).value.store.entries =
        [(3, [1, 2]), (1, [3])] ∧
      (ofPairs .sorted DropAbsent.mk m.flatten).value.equal
        (ofPairs .unordered (Policy.silent : Policy Int64) m.flatten).value = true ∧
      Regrouped ps (ofPairs .arrival DropAbsent.mk ps).value.flatten ∧
      (ofPairs .arrival DropAbsent.mk ps).value.flatten = [(2, 5), (2, 7), (1, 6)] := by
  intro m ps
  have hm : Reachable m := .literal _ _
  obtain ⟨hrecollects, hregroups⟩ := flatten_ofPairs hm
  have hvalues : ∀ e ∈ m.store.entries, ∀ v ∈ e.2, (v == v) = true := fun _ _ _ _ => BEq.rfl
  obtain ⟨-, hps⟩ := hregroups DropAbsent .arrival ⟨⟩ ps
  refine ⟨hm, by decide +kernel, by decide +kernel,
    (hrecollects.equal_iff .sorted .unordered _ _).mpr hvalues,
    hps _ ⟨rfl, .refl _, fun _ => rfl⟩, by decide +kernel⟩

/-- A value that does not equal itself, such as the double that is no number, keeps the maps over
two arrangements from being equal. -/
theorem ofPairs_flatten_nan :
    let m : Multimap String Float DropAbsent := (ofPairs .arrival ⟨⟩ [("k", 0 / 0)]).value
    Reachable m ∧
      ¬ (ofPairs .sorted DropAbsent.mk m.flatten).value.equal
        (ofPairs m.store.arrangement DropAbsent.mk m.flatten).value = true := by
  intro m
  exact ⟨.ofPairs _ _ _, by decide +kernel⟩

end

end Multimap
