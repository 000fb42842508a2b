import Mathlib.Data.List.Perm.Basic
import Multimap.Equality
import Multimap.Proofs.Layout

/-!
# What a comparison of maps finds out

A comparison walks over the keys of one map and counts those of the other (`matchesBy`). That is
enough to know that they have the same keys: distinct keys that are all found among equally many are
all that there are (`Store.WellFormed.contains_eq`). The counting itself is about lists of any kind
(`PermBy.of_distinct`) and serves for the values of a sequence as well.

* `PermBy R as bs`: a permutation, but for what `R` does not tell apart.
* `KeyByKey R m n`: the same keys, with sequences that `R` relates.
* **`matchesBy_iff`**: maps match if they do key by key.
* `equal_iff_of_alike`: maps over stores that are alike, of which the values need not equal
  themselves.
-/

namespace Multimap

/-! ## Lists that are matched -/

section

variable {α β : Type} {R : α → β → Prop} {as : List α} {bs : List β}

/-- The second list is a permutation of the first, but for what `R` does not tell apart. -/
def PermBy (R : α → β → Prop) (as : List α) (bs : List β) : Prop :=
  ∃ cs, List.Forall₂ R as cs ∧ cs.Perm bs

/-- Elements with no partner in common have a partner each. -/
theorem exists_forall₂_subperm (hdistinct : as.Pairwise fun a a' => ∀ b, R a b → ¬ R a' b)
    (hfound : ∀ a ∈ as, ∃ b ∈ bs, R a b) : ∃ cs, List.Forall₂ R as cs ∧ cs.Subperm bs := by
  induction as generalizing bs with
  | nil => exact ⟨[], .nil, List.nil_subperm⟩
  | cons a as ih =>
    obtain ⟨hne, hdistinct⟩ := List.pairwise_cons.mp hdistinct
    obtain ⟨⟨b, hb, hab⟩, hfound⟩ := List.forall_mem_cons.mp hfound
    obtain ⟨l, r, rfl⟩ := List.append_of_mem hb
    -- The partner of `a` is taken; those of the others are among what is left.
    have hrest : ∀ a' ∈ as, ∃ b' ∈ l ++ r, R a' b' := by
      intro a' ha'
      obtain ⟨b', hb', hab'⟩ := hfound a' ha'
      have hb'ne : b' ≠ b := by
        rintro rfl
        exact hne a' ha' b' hab hab'
      exact ⟨b', by simpa [hb'ne] using hb', hab'⟩
    obtain ⟨cs, hcs, hsub⟩ := ih hdistinct hrest
    have hmiddle : (b :: cs).Subperm (l ++ b :: r) :=
      ((List.subperm_cons b).mpr hsub).trans List.perm_middle.symm.subperm
    exact ⟨b :: cs, .cons hab hcs, hmiddle⟩

theorem length_le_of_distinct (hdistinct : as.Pairwise fun a a' => ∀ b, R a b → ¬ R a' b)
    (hfound : ∀ a ∈ as, ∃ b ∈ bs, R a b) : as.length ≤ bs.length := by
  obtain ⟨cs, hcs, hsub⟩ := exists_forall₂_subperm hdistinct hfound
  exact hcs.length_eq ▸ hsub.length_le

/-- **Counting**: if there are no more elements than those with a partner each, all have one. -/
theorem PermBy.of_distinct (hdistinct : as.Pairwise fun a a' => ∀ b, R a b → ¬ R a' b)
    (hfound : ∀ a ∈ as, ∃ b ∈ bs, R a b) (hlength : bs.length ≤ as.length) : PermBy R as bs := by
  obtain ⟨cs, hcs, hsub⟩ := exists_forall₂_subperm hdistinct hfound
  exact ⟨cs, hcs, hsub.perm_of_length_le (hcs.length_eq ▸ hlength)⟩

theorem PermBy.flip (h : PermBy R as bs) : PermBy (fun b a => R a b) bs as := by
  obtain ⟨cs, hcs, hperm⟩ := h
  exact List.perm_comp_forall₂ hperm.symm hcs.flip

theorem PermBy.length_eq (h : PermBy R as bs) : as.length = bs.length := by
  obtain ⟨cs, hcs, hperm⟩ := h
  exact hcs.length_eq.trans hperm.length_eq

theorem exists_of_forall₂ (h : List.Forall₂ R as bs) {a : α} (ha : a ∈ as) : ∃ b ∈ bs, R a b := by
  induction h with
  | nil => simp at ha
  | cons hab _ ih =>
    rcases List.mem_cons.mp ha with rfl | ha
    · exact ⟨_, List.mem_cons_self, hab⟩
    · obtain ⟨b, hb, hab⟩ := ih ha
      exact ⟨b, List.mem_cons_of_mem _ hb, hab⟩

theorem PermBy.exists_of_mem (h : PermBy R as bs) {a : α} (ha : a ∈ as) : ∃ b ∈ bs, R a b := by
  obtain ⟨cs, hcs, hperm⟩ := h
  obtain ⟨b, hb, hab⟩ := exists_of_forall₂ hcs ha
  exact ⟨b, hperm.mem_iff.mp hb, hab⟩

end

/-! ## Key by key -/

variable {K V P Q O : Type} [Ord K]

/-- The same keys, in whatever spelling, with sequences that `R` relates. -/
structure KeyByKey (R : List V → List V → Prop) (m : Multimap K V P) (n : Multimap K V Q) :
    Prop where
  contains_eq (k : K) : m.contains k = n.contains k
  related (k : K) (vs ws : List V) : m.get? k = some vs → n.get? k = some ws → R vs ws

namespace KeyByKey

variable {R R' S T : List V → List V → Prop} {m : Multimap K V P} {n : Multimap K V Q}
  {o : Multimap K V O} {k : K} {vs : List V}

theorem exists_of_get? (h : KeyByKey R m n) (hk : m.get? k = some vs) :
    ∃ ws, n.get? k = some ws ∧ R vs ws := by
  have hn : n.contains k = true := by
    rw [← h.contains_eq, contains, Store.contains_eq_isSome]
    exact Option.isSome_of_eq_some hk
  obtain ⟨ws, hws⟩ := Option.isSome_iff_exists.mp hn
  exact ⟨ws, hws, h.related k vs ws hk hws⟩

theorem flip (h : KeyByKey R m n) : KeyByKey (fun ws vs => R vs ws) n m :=
  ⟨fun k => (h.contains_eq k).symm, fun k ws vs hws hvs => h.related k vs ws hvs hws⟩

theorem symm (h : KeyByKey R m n) (hR : ∀ vs ws, R vs ws → R ws vs) : KeyByKey R n m :=
  ⟨h.flip.contains_eq, fun k ws vs hws hvs => hR vs ws (h.related k vs ws hvs hws)⟩

theorem imp (h : KeyByKey R m n) (hRS : ∀ vs ws, R vs ws → S vs ws) : KeyByKey S m n :=
  ⟨h.contains_eq, fun k vs ws hvs hws => hRS vs ws (h.related k vs ws hvs hws)⟩

theorem trans (hmn : KeyByKey R m n) (hno : KeyByKey S n o)
    (hRS : ∀ us vs ws, R us vs → S vs ws → T us ws) : KeyByKey T m o := by
  refine ⟨fun k => (hmn.contains_eq k).trans (hno.contains_eq k), fun k us ws hus hws => ?_⟩
  obtain ⟨vs, hvs, hR⟩ := hmn.exists_of_get? hus
  exact hRS us vs ws hR (hno.related k vs ws hvs hws)

/-- Both maps may be replaced by maps with the same keys. -/
theorem replace {P' Q' : Type} {m' : Multimap K V P'} {n' : Multimap K V Q'} (hm : KeyByKey S m m')
    (hn : KeyByKey T n n') (h : KeyByKey R m n)
    (hR : ∀ {vs vs' ws ws'}, S vs vs' → T ws ws' → R vs ws → R' vs' ws') : KeyByKey R' m' n' := by
  refine ⟨fun k => ?_, fun k vs' ws' hvs' hws' => ?_⟩
  · rw [← hm.contains_eq, h.contains_eq, hn.contains_eq]
  · obtain ⟨vs, hvs, hS⟩ := hm.flip.exists_of_get? hvs'
    obtain ⟨ws, hws, hT⟩ := hn.flip.exists_of_get? hws'
    exact hR hS hT (h.related k vs ws hvs hws)

end KeyByKey

/-! ## What a comparison finds out -/

section

variable [Std.TransOrd K] {m : Multimap K V P} {n : Multimap K V Q}
  {agree : List V → List V → Bool}

theorem Store.WellFormed.distinct_partners {s : Store K V} (hs : s.WellFormed) :
    s.entries.Pairwise fun e e' => ∀ x : Entry K V, SameKey e.1 x.1 → ¬ SameKey e'.1 x.1 :=
  hs.distinct.imp fun hne _ hk hk' => hne (hk.trans hk'.symm)

/-- A map with the same keys has no fewer of them. -/
theorem KeyByKey.size_le {R : List V → List V → Prop} (hm : m.store.WellFormed)
    (h : KeyByKey R m n) : m.size ≤ n.size := by
  refine length_le_of_distinct hm.distinct_partners fun e he => ?_
  have hfound : n.contains e.1 = true := by
    rw [← h.contains_eq]
    exact Store.contains_iff.mpr ⟨e, he, SameKey.refl e.1⟩
  exact Store.contains_iff.mp hfound

/-- Distinct keys that are all found among equally many are all that there are. -/
theorem Store.WellFormed.contains_eq {s t : Store K V} (hs : s.WellFormed)
    (hfound : ∀ e ∈ s.entries, ∃ e' ∈ t.entries, SameKey e.1 e'.1) (hsize : s.size = t.size)
    (k : K) : s.contains k = t.contains k := by
  have hperm := PermBy.of_distinct hs.distinct_partners hfound (Nat.le_of_eq hsize.symm)
  rw [Bool.eq_iff_iff, contains_iff, contains_iff]
  constructor
  · rintro ⟨e, he, hk⟩
    obtain ⟨e', he', hsame⟩ := hfound e he
    exact ⟨e', he', hk.trans hsame⟩
  · rintro ⟨e', he', hk⟩
    obtain ⟨e, he, hsame⟩ := hperm.flip.exists_of_mem he'
    exact ⟨e, he, hk.trans hsame.symm⟩

/-- A comparison goes through the keys of one map and counts those of the other, and thereby
**compares the maps key by key**. -/
theorem matchesBy_iff (hm : m.store.WellFormed) (hn : n.store.WellFormed) :
    m.matchesBy agree n = true ↔ KeyByKey (fun vs ws => agree vs ws = true) m n := by
  unfold matchesBy
  rw [Bool.and_eq_true, beq_iff_eq, List.all_eq_true]
  simp only [Option.any_eq_true]
  constructor
  · rintro ⟨hsize, hall⟩
    have hfound : ∀ e ∈ m.store.entries, ∃ e' ∈ n.store.entries, SameKey e.1 e'.1 := by
      intro e he
      obtain ⟨ws, hws, -⟩ := hall e he
      exact Store.contains_iff.mp (Option.isSome_of_eq_some hws)
    refine ⟨hm.contains_eq hfound hsize, fun k vs ws hvs hws => ?_⟩
    obtain ⟨e, he, hk, rfl⟩ := hm.get?_eq_some_iff.mp hvs
    obtain ⟨ws', hws', hagree⟩ := hall e he
    rw [get?, Store.get?_congr hk] at hws
    cases hws.symm.trans hws'
    exact hagree
  · intro h
    refine ⟨Nat.le_antisymm (h.size_le hm) (h.flip.size_le hn), fun e he => ?_⟩
    exact h.exists_of_get? (hm.get?_eq_some_iff.mpr ⟨e, he, SameKey.refl e.1, rfl⟩)

end

/-! ## Stores that are alike -/

section

variable [BEq V]

theorem beq_self_iff {vs : List V} : (vs == vs) = true ↔ ∀ v ∈ vs, (v == v) = true := by
  induction vs with
  | nil => exact iff_of_true rfl fun _ hv => absurd hv List.not_mem_nil
  | cons v vs ih =>
    show (v == v && vs == vs) = true ↔ _
    rw [Bool.and_eq_true, ih, List.forall_mem_cons]

/-- Maps over stores that are alike are equal if and only if each value equals itself. -/
theorem equal_iff_of_alike [Std.TransOrd K] {a b : Arrangement} {m : Multimap K V P}
    {n : Multimap K V Q} (h : Store.Alike a b m.store n.store) :
    m.equal n = true ↔ ∀ e ∈ m.store.entries, ∀ v ∈ e.2, (v == v) = true := by
  have hget : ∀ e ∈ m.store.entries, n.get? e.1 = some e.2 := by
    intro e he
    unfold get?
    rw [← h.get?_eq]
    exact h.left.get?_eq_some_iff.mpr ⟨e, he, SameKey.refl e.1, rfl⟩
  have hsize : (m.size == n.size) = true := beq_iff_eq.mpr h.size_eq
  unfold equal matchesBy
  rw [Bool.and_eq_true, List.all_eq_true, and_iff_right hsize]
  refine forall₂_congr fun e he => ?_
  rw [hget e he, ← beq_self_iff]
  rfl

end

end Multimap
