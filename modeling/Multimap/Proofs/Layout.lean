import Multimap.Store.Lemmas

/-!
# What a store holds does not hang on how it is laid out

Two stores are **alike** (`Store.Alike a b`) when both are well-formed, the one in the arrangement
`a` and the other in `b`, and they have the same entries in some order. Every operation keeps stores
alike, and alike stores look the same through every view in which the order of the keys does not
show.

* `LaidOut.insert` and so on: an operation keeps the arrangement along with well-formedness.
* `Alike.get?_eq`: alike stores give every key the same sequence.
* `Alike.insert`, `Alike.modify`, `Alike.erase` and so on: one lemma per operation.
* `LaidOut.entries_eq_byKey`: sorted stores have one order only, so sorting the entries of an alike
  store gives theirs.
* `NewIn.insertAll_perm`, `NewIn.insertAll_eq`: a store that is filled with new entries holds them.
* `WellFormed.alike_ofEntries`, `WellFormed.relaid_ofEntries`: one that is filled with the entries
  of another is alike.
-/

namespace Multimap.Store

variable {K V : Type} [Ord K]

/-- The entries in ascending order of their keys. -/
def byKey (es : List (Entry K V)) : List (Entry K V) :=
  es.mergeSort fun e f => (compare e.1 f.1).isLE

/-- A well-formed store in the arrangement `a`. -/
structure LaidOut (a : Arrangement) (s : Store K V) : Prop extends s.WellFormed where
  arrangement_eq : s.arrangement = a

/-- Well-formed stores, the one in the arrangement `a` and the other in `b`, with the same
entries. -/
structure Alike (a b : Arrangement) (s t : Store K V) : Prop where
  left : s.LaidOut a
  right : t.LaidOut b
  entries : s.entries.Perm t.entries

/-- The same store, the entries of which may have moved if they are in an order of no meaning. -/
structure Relaid (s t : Store K V) : Prop where
  arrangement_eq : t.arrangement = s.arrangement
  entries : t.entries.Perm s.entries
  fixed : s.arrangement ≠ .unordered → t.entries = s.entries

variable {a b : Arrangement} {s t u : Store K V} {k : K} {vs : List V} {f : List V → List V}

/-! ## Operations keep the arrangement -/

theorem arrangement_insert : (s.insert k vs).arrangement = s.arrangement := by
  unfold insert
  split <;> rfl

namespace LaidOut

theorem empty (a : Arrangement) : (empty a : Store K V).LaidOut a := ⟨.empty a, rfl⟩

theorem clear (h : s.LaidOut a) : s.clear.LaidOut a := ⟨.clear, h.arrangement_eq⟩

theorem mapSequences (h : s.LaidOut a) : (s.mapSequences f).LaidOut a :=
  ⟨h.toWellFormed.mapSequences, h.arrangement_eq⟩

theorem modify (h : s.LaidOut a) : (s.modify k f).LaidOut a :=
  ⟨h.toWellFormed.modify, h.arrangement_eq⟩

theorem erase (h : s.LaidOut a) : (s.erase k).LaidOut a := ⟨h.toWellFormed.erase, h.arrangement_eq⟩

variable [Std.TransOrd K]

theorem insert (h : s.LaidOut a) : (s.insert k vs).LaidOut a :=
  ⟨h.toWellFormed.insert, arrangement_insert.trans h.arrangement_eq⟩

theorem relaid (h : s.LaidOut a) (hr : Relaid s t) : t.LaidOut a := by
  refine ⟨⟨?_, fun hs => ?_⟩, hr.arrangement_eq.trans h.arrangement_eq⟩
  · exact distinct_of_perm hr.entries h.distinct
  · have hsorted : s.arrangement = .sorted := hr.arrangement_eq.symm.trans hs
    have hfixed := hr.fixed (by rw [hsorted]; exact Arrangement.noConfusion)
    rw [hfixed]
    exact h.ascending hsorted

end LaidOut

/-! ## Orders of the same entries -/

/-- Wherever an arrangement puts a new entry, it is there along with the others. -/
theorem place_perm (a : Arrangement) (e : Entry K V) (es : List (Entry K V)) :
    (a.place e es).Perm (e :: es) := by
  obtain ⟨l, r, rfl, h⟩ := a.place_eq e es
  rw [h]
  exact List.perm_middle

theorem byKey_perm (es : List (Entry K V)) : (byKey es).Perm es := List.mergeSort_perm es _

variable [Std.TransOrd K]

/-- Sorting entries with distinct keys makes the keys ascend. -/
theorem ascending_byKey {es : List (Entry K V)}
    (hd : es.Pairwise fun e e' => ¬ SameKey e.1 e'.1) :
    (byKey es).Pairwise fun e e' => compare e.1 e'.1 = .lt := by
  have hle : (byKey es).Pairwise fun e e' => (compare e.1 e'.1).isLE := by
    refine List.pairwise_mergeSort (fun x y z => ?_) (fun x y => ?_) es
    · exact Std.TransCmp.isLE_trans
    · rw [Std.OrientedOrd.eq_swap (a := y.1), Bool.or_eq_true]
      cases compare x.1 y.1 <;> simp
  have hne : (byKey es).Pairwise fun e e' => ¬ SameKey e.1 e'.1 :=
    distinct_of_perm (byKey_perm es) hd
  refine (hle.and hne).imp fun {e e'} ⟨hle, hne⟩ => ?_
  cases h : compare e.1 e'.1 with
  | lt => rfl
  | eq => exact absurd h hne
  | gt => rw [h] at hle; exact absurd hle (by decide)

/-- Two ascending lists of the same entries are the same list. -/
theorem eq_of_ascending {es fs : List (Entry K V)} (h : es.Perm fs)
    (hes : es.Pairwise fun e e' => compare e.1 e'.1 = .lt)
    (hfs : fs.Pairwise fun e e' => compare e.1 e'.1 = .lt) : es = fs := by
  refine h.eq_of_pairwise (fun e e' _ _ hlt hgt => ?_) hes hfs
  rw [Std.OrientedOrd.eq_swap, hlt] at hgt
  exact absurd hgt (by decide)

/-- **A sorted store shows its entries sorted.** -/
theorem LaidOut.entries_eq_byKey (hs : s.LaidOut .sorted) {es : List (Entry K V)}
    (h : es.Perm s.entries) : s.entries = byKey es := by
  have hd : es.Pairwise fun e e' => ¬ SameKey e.1 e'.1 := distinct_of_perm h hs.distinct
  exact eq_of_ascending (h.symm.trans (byKey_perm es).symm) (hs.ascending hs.arrangement_eq)
    (ascending_byKey hd)

/-! ## Alike stores look the same -/

namespace Alike

omit [Std.TransOrd K] in
theorem refl (h : s.LaidOut a) : Alike a a s s := ⟨h, h, .refl _⟩

omit [Std.TransOrd K] in
theorem symm (h : Alike a b s t) : Alike b a t s := ⟨h.right, h.left, h.entries.symm⟩

omit [Std.TransOrd K] in
theorem keys (h : Alike a b s t) : s.keys.Perm t.keys := h.entries.map _

omit [Std.TransOrd K] in
theorem sequences (h : Alike a b s t) : s.sequences.Perm t.sequences := h.entries.map _

omit [Std.TransOrd K] in
theorem size_eq (h : Alike a b s t) : s.size = t.size := h.entries.length_eq

omit [Std.TransOrd K] in
theorem isEmpty_eq (h : Alike a b s t) : s.isEmpty = t.isEmpty := h.entries.isEmpty_eq

theorem get?_eq (h : Alike a b s t) (k : K) : s.get? k = t.get? k := by
  refine Option.ext fun vs => ?_
  rw [h.left.get?_eq_some_iff, h.right.get?_eq_some_iff]
  exact exists_congr fun e => and_congr_left fun _ => h.entries.mem_iff

theorem contains_eq (h : Alike a b s t) (k : K) : s.contains k = t.contains k := by
  rw [contains_eq_isSome, contains_eq_isSome, h.get?_eq k]

theorem sequence_eq (h : Alike a b s t) (k : K) : s.sequence k = t.sequence k := by
  rw [sequence, sequence, h.get?_eq k]

theorem relaid (h : Alike a b s t) (hr : Relaid t u) : Alike a b s u :=
  ⟨h.left, h.right.relaid hr, h.entries.trans hr.entries.symm⟩

/-! ## Operations keep stores alike -/

omit [Std.TransOrd K] in
theorem empty (a b : Arrangement) : Alike a b (empty a : Store K V) (empty b) :=
  ⟨.empty a, .empty b, .refl _⟩

omit [Std.TransOrd K] in
theorem clear (h : Alike a b s t) : Alike a b s.clear t.clear :=
  ⟨h.left.clear, h.right.clear, .refl _⟩

omit [Std.TransOrd K] in
theorem mapSequences (h : Alike a b s t) : Alike a b (s.mapSequences f) (t.mapSequences f) :=
  ⟨h.left.mapSequences, h.right.mapSequences, h.entries.map _⟩

omit [Std.TransOrd K] in
theorem modify (h : Alike a b s t) : Alike a b (s.modify k f) (t.modify k f) :=
  ⟨h.left.modify, h.right.modify, h.entries.map _⟩

omit [Std.TransOrd K] in
theorem erase (h : Alike a b s t) : Alike a b (s.erase k) (t.erase k) :=
  ⟨h.left.erase, h.right.erase, h.entries.filter _⟩

theorem insert (h : Alike a b s t) : Alike a b (s.insert k vs) (t.insert k vs) := by
  refine ⟨h.left.insert, h.right.insert, ?_⟩
  cases hc : s.contains k with
  | true =>
    have ht : t.contains k = true := by rw [← h.contains_eq, hc]
    rw [insert_of_contains hc, insert_of_contains ht]
    exact h.modify.entries
  | false =>
    have ht : t.contains k = false := by rw [← h.contains_eq, hc]
    rw [entries_insert_of_not_contains hc, entries_insert_of_not_contains ht]
    exact (place_perm _ _ _).trans ((h.entries.cons _).trans (place_perm _ _ _).symm)

theorem register (h : Alike a b s t) : Alike a b (s.register k) (t.register k) := by
  unfold Store.register
  rw [h.contains_eq]
  split
  · exact h
  · exact h.insert

theorem update (h : Alike a b s t) : Alike a b (s.update k f) (t.update k f) := by
  unfold Store.update
  rw [h.sequence_eq]
  exact h.insert

end Alike

/-! ## Filling a store -/

omit [Ord K] [Std.TransOrd K] in
theorem eq_of_entries (ha : s.arrangement = t.arrangement) (he : s.entries = t.entries) :
    s = t := by
  cases s
  cases t
  rw [Store.mk.injEq]
  exact ⟨ha, he⟩

/-- Entries whose keys are not in the store and of which no two are the same. -/
structure NewIn (s : Store K V) (es : List (Entry K V)) : Prop where
  distinct : es.Pairwise fun e e' => ¬ SameKey e.1 e'.1
  get?_eq_none : ∀ e ∈ es, s.get? e.1 = none

omit [Std.TransOrd K] in
theorem NewIn.empty {es : List (Entry K V)}
    (hd : es.Pairwise fun e e' => ¬ SameKey e.1 e'.1) : NewIn (Store.empty a) es :=
  ⟨hd, fun _ _ => rfl⟩

/-- When the first is written, the others are still new. -/
theorem NewIn.tail {e : Entry K V} {es : List (Entry K V)} (h : NewIn s (e :: es)) :
    NewIn (s.insert e.1 e.2) es := by
  obtain ⟨hne, hd⟩ := List.pairwise_cons.mp h.distinct
  refine ⟨hd, fun e' he' => ?_⟩
  rw [get?_insert, if_neg (hne e' he')]
  exact h.get?_eq_none e' (List.mem_cons_of_mem _ he')

omit [Std.TransOrd K] in
theorem NewIn.entries_insert {e : Entry K V} {es : List (Entry K V)} (h : NewIn s (e :: es)) :
    (s.insert e.1 e.2).entries = s.arrangement.place e s.entries := by
  refine entries_insert_of_not_contains ?_
  rw [contains_eq_isSome, h.get?_eq_none e List.mem_cons_self]
  rfl

theorem LaidOut.insertAll (h : s.LaidOut a) (es : List (Entry K V)) :
    (s.insertAll es).LaidOut a := by
  induction es generalizing s with
  | nil => exact h
  | cons e es ih => exact ih h.insert

/-- A store that is filled with new entries holds them along with its own. -/
theorem NewIn.insertAll_perm {es : List (Entry K V)} (h : NewIn s es) :
    (s.insertAll es).entries.Perm (s.entries ++ es) := by
  induction es generalizing s with
  | nil => rw [List.append_nil]; exact .refl _
  | cons e es ih =>
    have hplace : (s.insert e.1 e.2).entries.Perm (e :: s.entries) := by
      rw [h.entries_insert]
      exact place_perm _ _ _
    exact (ih h.tail).trans ((hplace.append_right es).trans List.perm_middle.symm)

/-- In order of arrival they are at the end, in their order. -/
theorem NewIn.insertAll_eq {es : List (Entry K V)} (h : NewIn s es)
    (ha : s.arrangement = .arrival) : (s.insertAll es).entries = s.entries ++ es := by
  induction es generalizing s with
  | nil => exact (List.append_nil _).symm
  | cons e es ih =>
    have hplace : (s.insert e.1 e.2).entries = s.entries ++ [e] := by
      rw [h.entries_insert, ha]
      rfl
    show ((s.insert e.1 e.2).insertAll es).entries = _
    rw [ih h.tail (arrangement_insert.trans ha), hplace, List.append_assoc]
    rfl

/-- Entries of which no two have the same key are those of the store that is filled with them. -/
theorem entries_ofEntries_perm {es : List (Entry K V)}
    (hd : es.Pairwise fun e e' => ¬ SameKey e.1 e'.1) (a : Arrangement) :
    (ofEntries a es).entries.Perm es := (NewIn.empty hd).insertAll_perm

theorem get?_ofEntries {es : List (Entry K V)} (hd : es.Pairwise fun e e' => ¬ SameKey e.1 e'.1)
    (a : Arrangement) {e : Entry K V} (he : e ∈ es) : (ofEntries a es).get? e.1 = some e.2 := by
  have hmem : e ∈ (ofEntries a es).entries := (entries_ofEntries_perm hd a).mem_iff.mpr he
  exact (WellFormed.ofEntries a es).get?_eq_some_iff.mpr ⟨e, hmem, SameKey.refl _, rfl⟩

/-- **A store that is filled with the entries of another**, in whatever order, is alike. -/
theorem WellFormed.alike_ofEntries (hs : s.WellFormed) {es : List (Entry K V)}
    (h : es.Perm s.entries) (a : Arrangement) : Alike s.arrangement a s (Store.ofEntries a es) := by
  have hd : es.Pairwise fun e e' => ¬ SameKey e.1 e'.1 := distinct_of_perm h hs.distinct
  exact ⟨⟨hs, rfl⟩, (LaidOut.empty a).insertAll es, ((entries_ofEntries_perm hd a).trans h).symm⟩

/-- In the same arrangement it has them in the same order, if that has a meaning. -/
theorem WellFormed.relaid_ofEntries (hs : s.WellFormed) :
    s.Relaid (Store.ofEntries s.arrangement s.entries) := by
  have halike := hs.alike_ofEntries (.refl _) s.arrangement
  refine ⟨halike.right.arrangement_eq, halike.entries.symm, fun ha => ?_⟩
  cases h : s.arrangement with
  | arrival => exact NewIn.insertAll_eq (.empty hs.distinct) rfl
  | sorted =>
    rw [h] at halike
    exact eq_of_ascending halike.entries.symm (halike.right.ascending halike.right.arrangement_eq)
      (hs.ascending h)
  | unordered => exact absurd h ha

end Multimap.Store
