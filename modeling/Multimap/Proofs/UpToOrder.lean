import Mathlib.Tactic.ByContra
import Multimap.Proofs.Comparison
import Multimap.Proofs.Reachability

/-!
# What it means that maps are equal up to order

Equality up to order looks for every value of a map under the same key of the other map, and counts
how many values there are (`Covered`). It does not count how often a value is found. Where no value
of the first map is repeated that makes no difference: distinct values that are all found among
equally many are all that there are, and the sequences are permutations of each other
(`Covered.permuted`).

* `equalUpToOrder_iff`: what equality up to order means, key by key. All the rest follows from it.
* `equalUpToOrder_congr`, `equalUpToOrder_self_iff`: what it does not depend on, and when a map is
  equal to a copy of itself.
* `equalUpToOrder_trans`, `Workspace.equalUpToOrder?_trans`: it is transitive, also if some of the
  maps are one.
* **`upToOrder_permutations`**: permutations are equal up to order, in both directions; without
  repeated values nothing else is; and where only one direction holds some value is repeated.
-/

namespace Multimap

variable {K V P Q O : Type} [Ord K]

/-! ## Equality up to order -/

section

variable [BEq V] {vs ws : List V}

/-- Sequences of the same length, of which the second has an equal for every value of the first. -/
structure Covered (vs ws : List V) : Prop where
  length_eq : vs.length = ws.length
  exists_beq : ∀ v ∈ vs, ∃ w ∈ ws, (v == w) = true

theorem covers_iff : covers vs ws = true ↔ Covered vs ws := by
  unfold covers
  rw [Bool.and_eq_true, beq_iff_eq, List.all_eq_true]
  simp only [List.contains_iff_exists_mem_beq]
  exact ⟨fun ⟨hlength, hbeq⟩ => ⟨hlength, hbeq⟩, fun h => ⟨h.length_eq, h.exists_beq⟩⟩

theorem Covered.congr {vs' ws' : List V} (h : Covered vs ws) (hvs : vs.Perm vs')
    (hws : ws.Perm ws') : Covered vs' ws' := by
  refine ⟨?_, fun v hv => ?_⟩
  · rw [← hvs.length_eq, ← hws.length_eq, h.length_eq]
  · obtain ⟨w, hw, hvw⟩ := h.exists_beq v (hvs.mem_iff.mpr hv)
    exact ⟨w, hws.mem_iff.mp hw, hvw⟩

variable [PartialEquivBEq V]

theorem Covered.trans {us : List V} (huv : Covered us vs) (hvw : Covered vs ws) :
    Covered us ws := by
  refine ⟨huv.length_eq.trans hvw.length_eq, fun u hu => ?_⟩
  obtain ⟨v, hv, huv⟩ := huv.exists_beq u hu
  obtain ⟨w, hw, hvw⟩ := hvw.exists_beq v hv
  exact ⟨w, hw, BEq.trans huv hvw⟩

/-- A value that has an equal is equal to itself. -/
theorem covered_self_iff : Covered vs vs ↔ ∀ v ∈ vs, (v == v) = true := by
  constructor
  · intro h v hv
    obtain ⟨w, -, hvw⟩ := h.exists_beq v hv
    exact BEq.trans hvw (BEq.symm hvw)
  · exact fun h => ⟨rfl, fun v hv => ⟨v, hv, h v hv⟩⟩

end

section

variable [Std.TransOrd K] [BEq V] {m : Multimap K V P} {n : Multimap K V Q}

theorem equalUpToOrder_iff (hm : m.store.WellFormed) (hn : n.store.WellFormed) :
    m.equalUpToOrder n = true ↔ KeyByKey Covered m n := by
  unfold equalUpToOrder
  rw [matchesBy_iff hm hn]
  simp only [covers_iff]

omit [Std.TransOrd K] in
theorem KeyByKey.covered_congr {P' Q' : Type} {m' : Multimap K V P'} {n' : Multimap K V Q'}
    (hm : KeyByKey List.Perm m m') (hn : KeyByKey List.Perm n n') (h : KeyByKey Covered m n) :
    KeyByKey Covered m' n' :=
  hm.replace hn h fun hvs hws hcovered => hcovered.congr hvs hws

/-- Nothing matters but the values under each key, in whatever order. -/
theorem equalUpToOrder_congr {P' Q' : Type} {m' : Multimap K V P'} {n' : Multimap K V Q'}
    (hm : m.store.WellFormed) (hm' : m'.store.WellFormed) (hn : n.store.WellFormed)
    (hn' : n'.store.WellFormed) (hmm' : KeyByKey List.Perm m m') (hnn' : KeyByKey List.Perm n n') :
    m.equalUpToOrder n = m'.equalUpToOrder n' := by
  rw [Bool.eq_iff_iff, equalUpToOrder_iff hm hn, equalUpToOrder_iff hm' hn']
  constructor
  · exact KeyByKey.covered_congr hmm' hnn'
  · exact KeyByKey.covered_congr (hmm'.symm fun _ _ => .symm) (hnn'.symm fun _ _ => .symm)

variable [PartialEquivBEq V]

theorem equalUpToOrder_trans {o : Multimap K V O} (hm : m.store.WellFormed)
    (hn : n.store.WellFormed) (ho : o.store.WellFormed) (hmn : m.equalUpToOrder n = true)
    (hno : n.equalUpToOrder o = true) : m.equalUpToOrder o = true := by
  rw [equalUpToOrder_iff hm hn] at hmn
  rw [equalUpToOrder_iff hn ho] at hno
  rw [equalUpToOrder_iff hm ho]
  exact hmn.trans hno fun _ _ _ => Covered.trans

theorem equalUpToOrder_self_iff (hm : m.store.WellFormed) :
    m.equalUpToOrder m = true ↔ ∀ k vs, m.get? k = some vs → ∀ v ∈ vs, (v == v) = true := by
  rw [equalUpToOrder_iff hm hm]
  constructor
  · exact fun h k vs hvs => covered_self_iff.mp (h.related k vs vs hvs hvs)
  · refine fun h => ⟨fun _ => rfl, fun k vs ws hvs hws => ?_⟩
    cases hvs.symm.trans hws
    exact covered_self_iff.mpr (h k vs hvs)

end

/-! ## One map and two maps -/

namespace Workspace

variable [BEq V] {w : Workspace K V P} {r s t : String} {m n : Multimap K V P}

/-- Two slots hold two maps, which are compared; one slot holds one map, which is not. -/
theorem equalUpToOrder?_eq (hs : w.get? s = some m) (ht : w.get? t = some n) :
    w.equalUpToOrder? s t = some (s = t || m.equalUpToOrder n) := by
  unfold equalUpToOrder?
  rw [hs, ht]
  rfl

theorem exists_of_equalUpToOrder? (h : w.equalUpToOrder? s t = some true) :
    ∃ m n, w.get? s = some m ∧ w.get? t = some n ∧ (s = t ∨ m.equalUpToOrder n = true) := by
  unfold equalUpToOrder? at h
  obtain ⟨m, hm, h⟩ := Option.bind_eq_some_iff.mp h
  obtain ⟨n, hn, h⟩ := Option.bind_eq_some_iff.mp h
  refine ⟨m, n, hm, hn, ?_⟩
  simpa using h

/-- **Transitivity** holds also where a map is compared with itself. Then one of the comparisons is
the one that was asked for. -/
theorem equalUpToOrder?_trans [Std.TransOrd K] [PartialEquivBEq V] (hw : w.Reachable)
    (hrs : w.equalUpToOrder? r s = some true) (hst : w.equalUpToOrder? s t = some true) :
    w.equalUpToOrder? r t = some true := by
  by_cases hr : r = s
  · exact hr ▸ hst
  by_cases ht : s = t
  · exact ht ▸ hrs
  obtain ⟨m, n, hm, hn, hmn⟩ := exists_of_equalUpToOrder? hrs
  obtain ⟨n', o, hn', ho, hno⟩ := exists_of_equalUpToOrder? hst
  cases hn.symm.trans hn'
  have hmo := equalUpToOrder_trans (hw hm).wellFormed (hw hn).wellFormed (hw ho).wellFormed
    (hmn.resolve_left hr) (hno.resolve_left ht)
  rw [equalUpToOrder?_eq hm ho, hmo, Bool.or_true]

end Workspace

/-! ## Permutations -/

section

variable [BEq V] {vs ws : List V}

/-- The second sequence is a permutation of the first, but for equal values. -/
def Permuted (vs ws : List V) : Prop := PermBy (fun v w => (v == w) = true) vs ws

/-- No two of the values are equal. -/
def Unrepeated (vs : List V) : Prop := vs.Pairwise fun v w => (v == w) = false

theorem Permuted.covered (h : Permuted vs ws) : Covered vs ws :=
  ⟨h.length_eq, fun _ hv => h.exists_of_mem hv⟩

variable [PartialEquivBEq V]

theorem Permuted.symm (h : Permuted vs ws) : Permuted ws vs := by
  obtain ⟨us, hus, hperm⟩ := PermBy.flip h
  exact ⟨us, hus.imp fun _ _ => BEq.symm, hperm⟩

/-- Values with no equal among each other are found in as many values only if these are the same. -/
theorem Covered.permuted (h : Covered vs ws) (hvs : Unrepeated vs) : Permuted vs ws := by
  have hdistinct : vs.Pairwise fun v v' => ∀ w, (v == w) = true → ¬ (v' == w) = true := by
    refine hvs.imp fun hne w hvw hv'w => ?_
    rw [BEq.trans hvw (BEq.symm hv'w)] at hne
    cases hne
  exact .of_distinct hdistinct h.exists_beq (Nat.le_of_eq h.length_eq.symm)

end

section

variable [Std.TransOrd K] [BEq V] {m : Multimap K V P} {n : Multimap K V Q}

theorem equalUpToOrder_of_permuted (hm : m.store.WellFormed) (hn : n.store.WellFormed)
    (h : KeyByKey Permuted m n) : m.equalUpToOrder n = true := by
  rw [equalUpToOrder_iff hm hn]
  exact h.imp fun _ _ => Permuted.covered

variable [PartialEquivBEq V]

/-- Without repeated values, maps are equal up to order only if their sequences are permutations. -/
theorem permuted_of_equalUpToOrder (hm : m.store.WellFormed) (hn : n.store.WellFormed)
    (hunrepeated : ∀ k vs, m.get? k = some vs → Unrepeated vs) (h : m.equalUpToOrder n = true) :
    KeyByKey Permuted m n := by
  rw [equalUpToOrder_iff hm hn] at h
  exact ⟨h.contains_eq, fun k vs ws hvs hws =>
    (h.related k vs ws hvs hws).permuted (hunrepeated k vs hvs)⟩

/-- Where equality up to order is not symmetric, a value is repeated in place of another. -/
theorem exists_repeated (hm : m.store.WellFormed) (hn : n.store.WellFormed)
    (hmn : m.equalUpToOrder n = true) (hnm : n.equalUpToOrder m = false) :
    ∃ k vs ws, m.get? k = some vs ∧ n.get? k = some ws ∧ ¬ Unrepeated vs ∧
      ∃ w ∈ ws, ∀ v ∈ vs, (w == v) = false := by
  rw [equalUpToOrder_iff hm hn] at hmn
  rw [← Bool.not_eq_true, equalUpToOrder_iff hn hm] at hnm
  by_contra! hnone
  refine hnm ⟨hmn.flip.contains_eq, fun k ws vs hws hvs => ?_⟩
  have hcovered := hmn.related k vs ws hvs hws
  by_cases hunrepeated : Unrepeated vs
  · exact (hcovered.permuted hunrepeated).symm.covered
  · refine ⟨hcovered.length_eq.symm, fun w hw => ?_⟩
    simpa using hnone k vs ws hvs hws hunrepeated w hw

end

/-- How equality up to order relates to permutations of the sequences. -/
structure PermutationLaws (K V : Type) [Ord K] [BEq V] : Prop where
  of_permuted {P Q : Type} {m : Multimap K V P} {n : Multimap K V Q} :
    Reachable m → Reachable n → KeyByKey Permuted m n →
      m.equalUpToOrder n = true ∧ n.equalUpToOrder m = true
  /-- If no sequence has a repeated value, it is the same, and symmetric. -/
  iff_permuted {P Q : Type} {m : Multimap K V P} {n : Multimap K V Q} :
    Reachable m → Reachable n → (∀ k vs, m.get? k = some vs → Unrepeated vs) →
      (m.equalUpToOrder n = true ↔ KeyByKey Permuted m n) ∧
        (m.equalUpToOrder n = true → n.equalUpToOrder m = true)
  /-- If it is not symmetric, a value is repeated and another one is missing. -/
  exists_repeated {P Q : Type} {m : Multimap K V P} {n : Multimap K V Q} :
    Reachable m → Reachable n → m.equalUpToOrder n = true → n.equalUpToOrder m = false →
      ∃ k vs ws, m.get? k = some vs ∧ n.get? k = some ws ∧ ¬ Unrepeated vs ∧
        ∃ w ∈ ws, ∀ v ∈ vs, (w == v) = false
  /-- That one slot is one map makes no difference. -/
  slots {P : Type} {w : Workspace K V P} {s t : String} {m n : Multimap K V P} :
    w.Reachable → w.get? s = some m → w.get? t = some n →
      w.equalUpToOrder? s t = some (m.equalUpToOrder n)

/-- **Equality up to order and permutations**, for values whose equality is an equivalence. -/
theorem upToOrder_permutations [Std.TransOrd K] [BEq V] [EquivBEq V] : PermutationLaws K V := by
  constructor
  case of_permuted =>
    intro P Q m n hm hn h
    exact ⟨equalUpToOrder_of_permuted hm.wellFormed hn.wellFormed h,
      equalUpToOrder_of_permuted hn.wellFormed hm.wellFormed (h.symm fun _ _ => Permuted.symm)⟩
  case iff_permuted =>
    intro P Q m n hm hn hunrepeated
    have hpermuted := permuted_of_equalUpToOrder hm.wellFormed hn.wellFormed hunrepeated
    refine ⟨⟨hpermuted, equalUpToOrder_of_permuted hm.wellFormed hn.wellFormed⟩, fun h => ?_⟩
    exact equalUpToOrder_of_permuted hn.wellFormed hm.wellFormed
      ((hpermuted h).symm fun _ _ => Permuted.symm)
  case exists_repeated =>
    exact fun hm hn => Multimap.exists_repeated hm.wellFormed hn.wellFormed
  case slots =>
    intro P w s t m n hw hm hn
    rw [Workspace.equalUpToOrder?_eq hm hn]
    by_cases hst : s = t
    · subst hst
      cases hm.symm.trans hn
      have hself := (equalUpToOrder_self_iff (hw hm).wellFormed).mpr fun _ _ _ _ _ => BEq.refl _
      rw [hself, Bool.or_true]
    · simp [hst]

/-- A repeated value passes for another one. -/
theorem upToOrder_permutations_int64 :
    let m : Multimap Int64 Int64 (Policy Int64) :=
      (empty .arrival .drop).insertAll [(7, [1, 1])]
    let n : Multimap Int64 Int64 (Policy Int64) :=
      (empty .arrival .drop).insertAll [(7, [1, 2])]
    Reachable m ∧ Reachable n ∧ m.equalUpToOrder n = true ∧ n.equalUpToOrder m = false ∧
      ∃ k vs ws, m.get? k = some vs ∧ n.get? k = some ws ∧ ¬ Unrepeated vs ∧
        ∃ w ∈ ws, ∀ v ∈ vs, (w == v) = false := by
  intro m n
  have hm : Reachable m := .literal Policy.drop _
  have hn : Reachable n := .literal Policy.drop _
  have hmn : m.equalUpToOrder n = true := by decide +kernel
  have hnm : n.equalUpToOrder m = false := by decide +kernel
  exact ⟨hm, hn, hmn, hnm, upToOrder_permutations.exists_repeated hm hn hmn hnm⟩

end Multimap
