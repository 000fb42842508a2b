import Mathlib
import Multimap.Proofs.UpToOrder

/-!
# The laws of equality up to order, and doubles

The laws ask of the equality of values that it is symmetric and transitive, and not that a value is
equal to itself. Doubles are the case in point: those that are not numbers are equal to nothing.
What is known about the equality of doubles comes with the library as a whole and with no part of
it, which is why all of it is imported here.

* `equalUpToOrder_self_iff_double`: a map of doubles beside a copy of itself.
* **`upToOrder_laws`**: what equality up to order means and does not depend on, when a map is equal
  to a copy of itself, and that it is transitive, also if some of the maps are one.
-/

namespace Multimap

variable {K V P : Type} [Ord K]

/-- Of doubles, those do not equal themselves that are not numbers. -/
theorem equalUpToOrder_self_iff_double [Std.TransOrd K] {m : Multimap K Float P}
    (hm : m.store.WellFormed) :
    m.equalUpToOrder m = true ↔ ∀ k vs, m.get? k = some vs → ∀ x ∈ vs, x.isNaN = false := by
  rw [equalUpToOrder_self_iff hm]
  simp only [Float.beq_self_iff, Float.isNaN_eq_decide_eq_nan, decide_eq_false_iff_not, ne_eq]

/-- What equality up to order means, and its laws. -/
structure UpToOrderLaws (K V : Type) [Ord K] [BEq V] : Prop where
  /-- The keys are the same, and every value has an equal under the same key of the other map. -/
  iff_covered {P Q : Type} {m : Multimap K V P} {n : Multimap K V Q} :
    Reachable m → Reachable n → (m.equalUpToOrder n = true ↔ KeyByKey Covered m n)
  /-- The order of the values does not matter, nor do the arrangement, the order of the keys, their
  spelling and the policy. -/
  congr {P P' Q Q' : Type} {m : Multimap K V P} {m' : Multimap K V P'} {n : Multimap K V Q}
    {n' : Multimap K V Q'} :
    Reachable m → Reachable m' → Reachable n → Reachable n' → KeyByKey List.Perm m m' →
      KeyByKey List.Perm n n' → m.equalUpToOrder n = m'.equalUpToOrder n'
  trans {P Q O : Type} {m : Multimap K V P} {n : Multimap K V Q} {o : Multimap K V O} :
    Reachable m → Reachable n → Reachable o → m.equalUpToOrder n = true →
      n.equalUpToOrder o = true → m.equalUpToOrder o = true
  /-- A map is equal to a copy of itself if all its values are equal to themselves. -/
  self_iff {P : Type} {m : Multimap K V P} :
    Reachable m →
      (m.equalUpToOrder m = true ↔ ∀ k vs, m.get? k = some vs → ∀ v ∈ vs, (v == v) = true)
  /-- Two slots hold two maps. -/
  two_slots {P : Type} {w : Workspace K V P} {s t : String} {m n : Multimap K V P} :
    w.get? s = some m → w.get? t = some n → s ≠ t →
      w.equalUpToOrder? s t = some (m.equalUpToOrder n)
  /-- One slot holds one map, which is equal to itself whatever values it holds. -/
  one_slot {P : Type} {w : Workspace K V P} {s : String} {m : Multimap K V P} :
    w.get? s = some m → w.equalUpToOrder? s s = some true
  /-- It need not be equal to a copy of itself in another slot. -/
  copy_iff {P : Type} {w : Workspace K V P} {s t : String} {m : Multimap K V P} :
    w.Reachable → w.get? s = some m → s ≠ t →
      ((w.put t m).equalUpToOrder? s t = some true ↔
        ∀ k vs, m.get? k = some vs → ∀ v ∈ vs, (v == v) = true)
  /-- Any three slots, all of them different or not. -/
  slots_trans {P : Type} {w : Workspace K V P} {r s t : String} :
    w.Reachable → w.equalUpToOrder? r s = some true → w.equalUpToOrder? s t = some true →
      w.equalUpToOrder? r t = some true

/-- **The laws of equality up to order** for values whose equality is symmetric and transitive. That
of doubles is, but it is not reflexive: a map of doubles is equal to a copy of itself if none of its
values is one that is not a number. -/
theorem upToOrder_laws [Std.TransOrd K] [BEq V] [PartialEquivBEq V] :
    UpToOrderLaws K V ∧
      ∀ {P : Type} {m : Multimap K Float P}, Reachable m →
        (m.equalUpToOrder m = true ↔
          ∀ k vs, m.get? k = some vs → ∀ x ∈ vs, x.isNaN = false) := by
  refine ⟨?_, fun hm => equalUpToOrder_self_iff_double hm.wellFormed⟩
  constructor
  case iff_covered => exact fun hm hn => equalUpToOrder_iff hm.wellFormed hn.wellFormed
  case congr =>
    exact fun hm hm' hn hn' =>
      equalUpToOrder_congr hm.wellFormed hm'.wellFormed hn.wellFormed hn'.wellFormed
  case trans =>
    exact fun hm hn ho => equalUpToOrder_trans hm.wellFormed hn.wellFormed ho.wellFormed
  case self_iff => exact fun hm => equalUpToOrder_self_iff hm.wellFormed
  case two_slots =>
    intro P w s t m n hm hn hst
    simp [Workspace.equalUpToOrder?_eq hm hn, hst]
  case one_slot =>
    intro P w s m hm
    simp [Workspace.equalUpToOrder?_eq hm hm]
  case copy_iff =>
    intro P w s t m hw hm hst
    have hs : (w.put t m).get? s = some m := (Workspace.get?_put_of_ne hst).trans hm
    rw [← equalUpToOrder_self_iff (hw hm).wellFormed]
    simp [Workspace.equalUpToOrder?_eq hs (w.get?_put t m), hst]
  case slots_trans => exact Workspace.equalUpToOrder?_trans

/-- A map with a value that is not a number, against itself and against its copy. -/
theorem upToOrder_laws_double :
    let m : Multimap CaselessText Float (Policy Float) :=
      (empty .arrival .drop).insertAll [(⟨"a"⟩, [1, 0 / 0])]
    let w : Workspace CaselessText Float := (Workspace.empty.put "original" m).put "copy" m
    Reachable m ∧ w.equalUpToOrder? "original" "original" = some true ∧
      w.equalUpToOrder? "original" "copy" = some false := by
  intro m w
  obtain ⟨laws, self_iff_double⟩ := upToOrder_laws (K := CaselessText) (V := Float)
  have hm : Reachable m := .literal Policy.drop _
  have hcopy : w.get? "copy" = some m := Workspace.get?_put _ _ _
  have horiginal : w.get? "original" = some m := by
    rw [Workspace.get?_put_of_ne (by decide), Workspace.get?_put]
  have hvalues : m.get? ⟨"a"⟩ = some [1, 0 / 0] := by
    simp [m, insertAll, insert, get?, Store.get?_insert]
  have hnan : (0 / 0 : Float).isNaN = true := by decide +kernel
  have hself : m.equalUpToOrder m = false := by
    rw [← Bool.not_eq_true, self_iff_double hm]
    intro hnumbers
    have hnumber := hnumbers ⟨"a"⟩ _ hvalues (0 / 0) (by simp)
    rw [hnan] at hnumber
    cases hnumber
  refine ⟨hm, laws.one_slot horiginal, ?_⟩
  rw [laws.two_slots horiginal hcopy (by decide), hself]

end Multimap
