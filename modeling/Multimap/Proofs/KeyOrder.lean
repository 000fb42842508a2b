import Multimap.Proofs.KeyHistory

/-!
# Where the keys stand that are written to

Sequences are written under keys, one after another, and each of them may hang on what is there by
then. Which keys there are afterwards, in which order and spelling, is decided by the keys alone:
those that were there keep their places and spellings, and the new ones follow in the order and the
spelling in which they come first (`newKeys`).

* `Store.Written s js t`: sequences have been written under `js`, and `t` is what `s` has become.
* `foldl_enroll`: enrolling keys one by one puts the new ones at the end.
* `Store.Written.alike`: the same can be written in any arrangement.
* **`Store.Written.joins`**: the keys of the store afterwards, in each arrangement.
-/

namespace Multimap

variable {K V : Type} [Ord K]

/-! ## New keys -/

/-- The keys among `js` that are not the same as one of `ks`, each of them once and as it comes
first. -/
def newKeys (ks js : List K) : List K :=
  (js.filter fun j => ¬ ks.any (SameKey j ·)).eraseDupsBy fun j k => SameKey j k

theorem newKeys_cons_of_any {ks : List K} {j : K} (h : ks.any (SameKey j ·) = true) (js : List K) :
    newKeys ks (j :: js) = newKeys ks js := by
  simp only [newKeys, List.filter_cons, h, not_true_eq_false, decide_false, Bool.false_eq_true,
    if_false]

theorem newKeys_cons_of_not_any {ks : List K} {j : K} (h : ks.any (SameKey j ·) = false)
    (js : List K) : newKeys ks (j :: js) = j :: newKeys (ks ++ [j]) js := by
  simp only [newKeys, List.filter_cons, h, Bool.false_eq_true, not_false_eq_true, decide_true,
    if_true, List.eraseDupsBy_cons, List.filter_filter, List.any_append]
  congr 3
  funext k
  simp [and_comm]

/-- **Keys enrolled one by one**: the new ones are at the end. -/
theorem foldl_enroll (ks js : List K) : js.foldl enroll ks = ks ++ newKeys ks js := by
  induction js generalizing ks with
  | nil => exact (List.append_nil ks).symm
  | cons j js ih =>
    rw [List.foldl_cons, ih, enroll]
    cases h : ks.any (SameKey j ·) with
    | true => rw [if_pos rfl, newKeys_cons_of_any h]
    | false =>
      rw [if_neg Bool.false_ne_true, newKeys_cons_of_not_any h, List.append_assoc]
      rfl

namespace Store

variable {a b : Arrangement} {s t u : Store K V} {js : List K}

/-! ## Sequences written one after another -/

/-- What the first store has become when sequences have been written under the keys. -/
inductive Written : Store K V → List K → Store K V → Prop
  | nil (s : Store K V) : Written s [] s
  | cons {s t : Store K V} {js : List K} (k : K) (vs : List V) (h : Written (s.insert k vs) js t) :
      Written s (k :: js) t

namespace Written

theorem arrangement_eq (h : Written s js t) : t.arrangement = s.arrangement := by
  induction h with
  | nil => rfl
  | cons k vs _ ih => exact ih.trans arrangement_insert

/-- In order of arrival the new keys are at the end. -/
theorem keys_eq (h : Written s js t) (ha : s.arrangement = .arrival) :
    t.keys = s.keys ++ newKeys s.keys js := by
  rw [← foldl_enroll]
  induction h with
  | nil => rfl
  | @cons s t js k vs _ ih =>
    have hlists : Lists s.keys (⟨s, ()⟩ : Multimap K V Unit) := ⟨ha, rfl⟩
    have hinsert : Lists (enroll s.keys k) (⟨s.insert k vs, ()⟩ : Multimap K V Unit) :=
      hlists.insert ()
    rw [ih (arrangement_insert.trans ha), hinsert.keys_eq]
    rfl

variable [Std.TransOrd K]

theorem wellFormed (h : Written s js t) (hs : s.WellFormed) : t.WellFormed := by
  induction h with
  | nil => exact hs
  | cons k vs _ ih => exact ih hs.insert

/-- The same can be written in a store that is alike, and they are alike again. -/
theorem alike (h : Written s js t) (hs : Alike a b s u) : ∃ v, Written u js v ∧ Alike a b t v := by
  induction h generalizing u with
  | nil => exact ⟨u, .nil u, hs⟩
  | cons k vs _ ih =>
    obtain ⟨v, hv, halike⟩ := ih (u := u.insert k vs) hs.insert
    exact ⟨v, .cons k vs hv, halike⟩

/-- The keys are those that were there and those that have been written to. -/
theorem contains_iff (h : Written s js t) (k : K) :
    t.contains k = true ↔ s.contains k = true ∨ ∃ j ∈ js, SameKey k j := by
  induction h with
  | nil => simp
  | @cons s t js j vs _ ih =>
    rw [ih, contains_eq_isSome, get?_insert, contains_eq_isSome]
    by_cases hj : SameKey j k
    · simp [hj, hj.symm]
    · simp [hj, mt SameKey.symm hj]

theorem contains_map_iff {α : Type} {xs : List α} {f : α → K} (h : Written s (xs.map f) t) (k : K) :
    t.contains k = true ↔ s.contains k = true ∨ ∃ x ∈ xs, SameKey k (f x) := by
  rw [h.contains_iff]
  simp only [List.mem_map, exists_exists_and_eq_and]

end Written

/-! ## The order of the keys -/

/-- The keys of the first store and those among `js` that are new make up the keys of the second:
those that were there keep their places and spellings, and the others follow in the order and the
spelling in which they come first. Sorted keys ascend. -/
structure Joins (s : Store K V) (js : List K) (t : Store K V) : Prop where
  arrangement_eq : t.arrangement = s.arrangement
  wellFormed : t.WellFormed
  keys_perm : t.keys.Perm (s.keys ++ newKeys s.keys js)
  keys_arrival : s.arrangement = .arrival → t.keys = s.keys ++ newKeys s.keys js
  keys_sorted : s.arrangement = .sorted → t.keys = ascending (s.keys ++ newKeys s.keys js)

/-- **Where the keys stand** after sequences have been written under some of them. -/
theorem Written.joins [Std.TransOrd K] (h : Written s js t) (hs : s.WellFormed) : Joins s js t := by
  -- The same is written in order of arrival, where it is plain to see what becomes of the keys.
  have hself : Alike s.arrangement .arrival s ⟨.arrival, s.entries⟩ :=
    ⟨⟨hs, rfl⟩, ⟨⟨hs.distinct, nofun⟩, rfl⟩, .refl _⟩
  obtain ⟨u, hu, halike⟩ := h.alike hself
  have hkeys : u.keys = s.keys ++ newKeys s.keys js := hu.keys_eq rfl
  refine ⟨h.arrangement_eq, h.wellFormed hs, hkeys ▸ halike.keys, h.keys_eq, fun hsorted => ?_⟩
  rw [hsorted] at halike
  unfold keys at hkeys ⊢
  rw [halike.left.entries_eq_byKey halike.entries.symm, keys_byKey, hkeys]

end Store

end Multimap
