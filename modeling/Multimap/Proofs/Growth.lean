import Multimap.Proofs.Additions
import Multimap.Proofs.UpToOrder

/-!
# Maps that grow beside each other

Equality up to order looks at the values under a key and not at their order. So it does not notice
in which order values were added, and at which ends: maps that are equal up to order remain so if
the same values are added to both. It does notice values that are added to one of them only, because
it counts them, and keys, because both maps have the same. That holds in both directions, although
equality up to order may hold in only one of them: in either direction the maps have the same keys,
with sequences of the same lengths (`SameShape`).

* `keyByKey_iff_sequence`: a comparison key by key, as one of the sequences of all keys.
* `sequence_placeAll_perm`: the values of a key afterwards, but for their order.
* `KeyByKey.placeAll`: the same values on both sides.
* `not_sameShape_placeAll`, `unequal_of_not_sameShape`: values on one side only.
* **`upToOrder_grows`**: what keeps equality up to order, and what ends it.
-/

namespace Multimap

variable {K V P Q O : Type} [Ord K]

/-! ## Sequences of all keys -/

section

variable {R : List V → List V → Prop} {m : Multimap K V P} {n : Multimap K V Q}

/-- A key that is not registered has the empty sequence, in both maps. -/
theorem keyByKey_iff_sequence (hnil : R [] []) :
    KeyByKey R m n ↔
      (∀ k, m.contains k = n.contains k) ∧ ∀ k, R (m.sequence k) (n.sequence k) := by
  constructor
  · refine fun h => ⟨h.contains_eq, fun k => ?_⟩
    have hcontains : m.store.contains k = n.store.contains k := h.contains_eq k
    cases hm : m.store.contains k with
    | true =>
      exact h.related k _ _ (Store.get?_of_contains hm)
        (Store.get?_of_contains (hcontains.symm.trans hm))
    | false =>
      have hn : n.store.contains k = false := hcontains.symm.trans hm
      rw [sequence, sequence, Store.sequence_of_not_contains hm, Store.sequence_of_not_contains hn]
      exact hnil
  · rintro ⟨hcontains, hrelated⟩
    refine ⟨hcontains, fun k vs ws hvs hws => ?_⟩
    have hboth := hrelated k
    rwa [sequence, sequence, Store.sequence_of_get? hvs, Store.sequence_of_get? hws] at hboth

end

/-! ## The values of a key -/

/-- The key and the value, without the end. -/
def Placement.pair (x : Placement K V) : K × V := (x.key, x.value)

/-- The values of the pairs of `k`. -/
def valuesOf (k : K) (pairs : List (K × V)) : List V :=
  (pairs.filter fun e => SameKey k e.1).map (·.2)

theorem valuesAt_append_perm (k : K) (xs : List (Placement K V)) :
    (valuesAt .front k xs ++ valuesAt .back k xs).Perm (valuesOf k (xs.map Placement.pair)) := by
  induction xs with
  | nil => exact .nil
  | cons x xs ih =>
    obtain ⟨position, j, v⟩ := x
    by_cases h : SameKey k j
    · have hcons : valuesOf k ((⟨position, j, v⟩ :: xs).map Placement.pair) =
          v :: valuesOf k (xs.map Placement.pair) := by simp [valuesOf, Placement.pair, h]
      rw [hcons]
      cases position with
      | front => simpa [valuesAt, h] using ih.cons v
      | back => simpa [valuesAt, h] using List.perm_middle.trans (ih.cons v)
    · simpa [valuesAt, valuesOf, Placement.pair, h] using ih

section

variable [Std.TransOrd K] {m : Multimap K V P} {xs : List (Placement K V)}

theorem contains_placeAll (k : K) :
    (m.placeAll xs).contains k =
      (m.contains k || (xs.map Placement.pair).any fun e => SameKey k e.1) := by
  have hwritten : m.store.Written (xs.map (·.key)) (m.placeAll xs).store := written_placeAll xs
  rw [Bool.eq_iff_iff, contains, hwritten.contains_map_iff]
  simp only [contains, Bool.or_eq_true, List.any_map, List.any_eq_true, Function.comp_def,
    decide_eq_true_eq]
  rfl

/-- **But for their order**, the values of a key are those that were there and those that were
added. -/
theorem sequence_placeAll_perm (k : K) :
    ((m.placeAll xs).sequence k).Perm (m.sequence k ++ valuesOf k (xs.map Placement.pair)) := by
  rw [sequence_placeAll]
  have hfront : ((valuesAt .front k xs).reverse ++ m.sequence k).Perm
      (m.sequence k ++ valuesAt .front k xs) :=
    List.perm_append_comm.trans ((List.reverse_perm _).append_left _)
  refine (hfront.append_right _).trans ?_
  rw [List.append_assoc]
  exact (valuesAt_append_perm k xs).append_left _

end

/-! ## On both sides -/

section

variable [BEq V]

/-- Values may be added to both sequences if they equal themselves. -/
theorem Covered.append [ReflBEq V] {vs ws xs ys : List V} (h : Covered vs ws) (hperm : xs.Perm ys) :
    Covered (vs ++ xs) (ws ++ ys) := by
  constructor
  · simp only [List.length_append, h.length_eq, hperm.length_eq]
  · intro v hv
    rcases List.mem_append.mp hv with hv | hv
    · obtain ⟨w, hw, hvw⟩ := h.exists_beq v hv
      exact ⟨w, List.mem_append_left ys hw, hvw⟩
    · exact ⟨v, List.mem_append_right ws (hperm.mem_iff.mp hv), BEq.rfl⟩

variable [Std.TransOrd K] {m : Multimap K V P} {n : Multimap K V Q} {xs ys : List (Placement K V)}

/-- **The same values on both sides**, in whatever order and at whatever ends. -/
theorem KeyByKey.placeAll [ReflBEq V] (h : KeyByKey Covered m n)
    (hpairs : (xs.map Placement.pair).Perm (ys.map Placement.pair)) :
    KeyByKey Covered (m.placeAll xs) (n.placeAll ys) := by
  have hnil : Covered ([] : List V) [] := ⟨rfl, nofun⟩
  obtain ⟨hcontains, hcovered⟩ := (keyByKey_iff_sequence hnil).mp h
  refine (keyByKey_iff_sequence hnil).mpr ⟨fun k => ?_, fun k => ?_⟩
  · rw [contains_placeAll, contains_placeAll, hcontains, hpairs.any_eq]
  · have hvalues : (valuesOf k (xs.map Placement.pair)).Perm (valuesOf k (ys.map Placement.pair)) :=
      (hpairs.filter _).map _
    exact ((hcovered k).append hvalues).congr (sequence_placeAll_perm k).symm
      (sequence_placeAll_perm k).symm

end

/-! ## On one side -/

/-- The same keys, with sequences of the same lengths. -/
def SameShape (m : Multimap K V P) (n : Multimap K V Q) : Prop :=
  KeyByKey (fun vs ws => vs.length = ws.length) m n

namespace SameShape

variable {m : Multimap K V P} {n : Multimap K V Q} {o : Multimap K V O}

theorem symm (h : SameShape m n) : SameShape n m := KeyByKey.symm h fun _ _ => .symm

theorem trans (hmn : SameShape m n) (hno : SameShape n o) : SameShape m o :=
  KeyByKey.trans hmn hno fun _ _ _ => .trans

theorem of_equalUpToOrder [Std.TransOrd K] [BEq V] (hm : m.store.WellFormed)
    (hn : n.store.WellFormed) (h : m.equalUpToOrder n = true) : SameShape m n :=
  ((equalUpToOrder_iff hm hn).mp h).imp fun _ _ => Covered.length_eq

end SameShape

/-- Neither map is equal up to order to the other. -/
def Unequal [BEq V] (m : Multimap K V P) (n : Multimap K V Q) : Prop :=
  m.equalUpToOrder n = false ∧ n.equalUpToOrder m = false

theorem Unequal.symm [BEq V] {m : Multimap K V P} {n : Multimap K V Q} (h : Unequal m n) :
    Unequal n m := And.symm h

section

variable [Std.TransOrd K] {m m' : Multimap K V P} {n : Multimap K V Q} {xs : List (Placement K V)}

/-- Values that are added change the shape. -/
theorem not_sameShape_placeAll (hxs : xs ≠ []) : ¬ SameShape m (m.placeAll xs) := by
  intro h
  obtain ⟨x, hx⟩ := List.exists_mem_of_ne_nil xs hxs
  have hlength : (m.sequence x.key).length = ((m.placeAll xs).sequence x.key).length :=
    ((keyByKey_iff_sequence (R := fun vs ws => vs.length = ws.length) rfl).mp h).2 x.key
  have hgrown : ((m.placeAll xs).sequence x.key).length =
      (m.sequence x.key ++ valuesOf x.key (xs.map Placement.pair)).length :=
    (sequence_placeAll_perm x.key).length_eq
  have hvalue : x.value ∈ valuesOf x.key (xs.map Placement.pair) := by
    refine List.mem_map.mpr ⟨x.pair, List.mem_filter.mpr ⟨List.mem_map_of_mem hx, ?_⟩, rfl⟩
    exact decide_eq_true (SameKey.refl x.key)
  have hpos := List.length_pos_of_mem hvalue
  rw [List.length_append] at hgrown
  omega

omit [Std.TransOrd K] in
theorem not_sameShape_of_contains {k : K} (hm : m.contains k = false) (hm' : m'.contains k = true) :
    ¬ SameShape m m' := by
  intro h
  have hcontains := h.contains_eq k
  rw [hm, hm'] at hcontains
  cases hcontains

variable [BEq V]

/-- **A map whose shape has changed** is equal up to order to none of those that it was equal to, in
neither direction. -/
theorem unequal_of_not_sameShape (hm' : m'.store.WellFormed)
    (hn : n.store.WellFormed) (h : SameShape m n) (hshape : ¬ SameShape m m') : Unequal m' n := by
  constructor
  · refine Bool.eq_false_iff.mpr fun hm'n => hshape ?_
    exact h.trans (SameShape.of_equalUpToOrder hm' hn hm'n).symm
  · refine Bool.eq_false_iff.mpr fun hnm' => hshape ?_
    exact h.trans (.of_equalUpToOrder hn hm' hnm')

end

/-! ## What keeps equality up to order, and what ends it -/

/-- The values that are added and their keys, in order. -/
def addedPairs (as : List (Addition K V)) : List (K × V) :=
  (as.flatMap Addition.placements).map Placement.pair

variable [AbsencePolicy P V] [AbsencePolicy Q V] [BEq V]

/-- The map after the requests. -/
def after (m : Multimap K V P) (os : List (Operation K V P)) : Multimap K V P := (m.run os).value.2

/-- What additions, and keys that come to be registered, do to maps that are equal up to order. -/
structure GrowsBeside (m : Multimap K V P) (n : Multimap K V Q) : Prop where
  /-- They remain so if the same values are added to both, in whatever order and at whatever
  ends. -/
  both (as bs : List (Addition K V)) : (addedPairs as).Perm (addedPairs bs) →
    (m.after (as.map Addition.operation)).equalUpToOrder (n.after (bs.map Addition.operation)) =
      true
  /-- They do not if values are added to one of them, be its keys registered or not. -/
  left (as : List (Addition K V)) : addedPairs as ≠ [] →
    Unequal (m.after (as.map Addition.operation)) n
  right (as : List (Addition K V)) : addedPairs as ≠ [] →
    Unequal m (n.after (as.map Addition.operation))
  /-- Nor do they if one of them has come to have another key. -/
  key_left (os : List (Operation K V P)) (k : K) : m.contains k = false →
    (m.after os).contains k = true → Unequal (m.after os) n
  key_right (os : List (Operation K V Q)) (k : K) : n.contains k = false →
    (n.after os).contains k = true → Unequal m (n.after os)

variable [Std.TransOrd K]

theorem after_map_operation (m : Multimap K V P) (as : List (Addition K V)) :
    m.after (as.map Addition.operation) = m.placeAll (as.flatMap Addition.placements) := by
  unfold after
  rw [run_operations]
  rfl

/-- **Maps that grow beside each other** remain equal up to order if they grow by the same
values, and do not if only one of them grows: not even in the direction in which they might not
have been. -/
theorem upToOrder_grows [ReflBEq V] {m : Multimap K V P} {n : Multimap K V Q} (hm : Reachable m)
    (hn : Reachable n) (h : m.equalUpToOrder n = true) : GrowsBeside m n := by
  have hcovered : KeyByKey Covered m n := (equalUpToOrder_iff hm.wellFormed hn.wellFormed).mp h
  have hshape : SameShape m n := .of_equalUpToOrder hm.wellFormed hn.wellFormed h
  have hafter_left := wellFormed_run hm.wellFormed
  have hafter_right := wellFormed_run hn.wellFormed
  constructor
  case both =>
    intro as bs hpairs
    refine (equalUpToOrder_iff (hafter_left _) (hafter_right _)).mpr ?_
    show KeyByKey Covered (m.after _) (n.after _)
    rw [after_map_operation, after_map_operation]
    exact hcovered.placeAll hpairs
  case left =>
    intro as has
    refine unequal_of_not_sameShape (hafter_left _) hn.wellFormed hshape ?_
    show ¬ SameShape m (m.after _)
    rw [after_map_operation]
    exact not_sameShape_placeAll (mt (congrArg (List.map Placement.pair)) has)
  case right =>
    intro as has
    refine (unequal_of_not_sameShape (hafter_right _) hm.wellFormed hshape.symm ?_).symm
    show ¬ SameShape n (n.after _)
    rw [after_map_operation]
    exact not_sameShape_placeAll (mt (congrArg (List.map Placement.pair)) has)
  case key_left =>
    intro os k hk hk'
    exact unequal_of_not_sameShape (hafter_left os) hn.wellFormed hshape
      (not_sameShape_of_contains hk hk')
  case key_right =>
    intro os k hk hk'
    exact (unequal_of_not_sameShape (hafter_right os) hm.wellFormed hshape.symm
      (not_sameShape_of_contains hk hk')).symm

/-- Values are added to maps of which the first has a value twice, at different ends and in another
order, and then to one of them, which comes to have another key as well. -/
theorem upToOrder_grows_caseless :
    let m : Multimap CaselessText Int64 (Policy Int64) :=
      (empty .arrival .wipe).insertAll [(⟨"a"⟩, [1, 1])]
    let n : Multimap CaselessText Int64 DropAbsent :=
      (empty .arrival ⟨⟩).insertAll [(⟨"A"⟩, [1, 2])]
    let as : List (Addition CaselessText Int64) := [.prepend ⟨"b"⟩ 4, .append ⟨"a"⟩ 3]
    let bs : List (Addition CaselessText Int64) := [.append ⟨"a"⟩ 3, .append ⟨"b"⟩ 4]
    Reachable m ∧ Reachable n ∧ m.equalUpToOrder n = true ∧ n.equalUpToOrder m = false ∧
      (m.after (as.map Addition.operation)).equalUpToOrder
        (n.after (bs.map Addition.operation)) = true ∧
      Unequal m (n.after (bs.map Addition.operation)) ∧
      Unequal (m.after [.edit ⟨"c"⟩ id]) n := by
  intro m n as bs
  have hm : Reachable m := .literal _ _
  have hn : Reachable n := .literal _ _
  have hmn : m.equalUpToOrder n = true := by decide +kernel
  have hgrows := upToOrder_grows hm hn hmn
  exact ⟨hm, hn, hmn, by decide +kernel, hgrows.both as bs (.swap _ _ _),
    hgrows.right bs (List.cons_ne_nil _ _),
    hgrows.key_left _ ⟨"c"⟩ (by decide +kernel) (by decide +kernel)⟩

end Multimap
