import Multimap.Store

/-!
# What stores hold after an operation

One equation per operation through the view `get?`, and the invariant `WellFormed`: no key occurs
twice, and sorted entries ascend. Every store built from `empty` by the operations is well-formed
(`WellFormed.empty`, `WellFormed.insert` and so on).

* `find?_insert`, `find?_modify`, `find?_register`, `find?_erase`, `find?_mapSequences`: what
  becomes of the entry of a key, its spelling included.
* `get?_insert`, `get?_modify`, `get?_register`, `get?_update`, `get?_erase`, `get?_mapSequences`:
  a key sees what is done to the keys that are the same as it and nothing else.
* `WellFormed.get?_eq_some_iff`: in a well-formed store the view of a key is the sequence of its one
  entry.
* `insert_insert`, `insert_register`, `WellFormed.insert_sequence`: of what is written under a key
  only the last counts.
* `erase_insert`: what is written under a key leaves the other entries as they are.
-/

namespace Multimap

variable {K V : Type} [Ord K]

/-- Where an arrangement puts an entry is decided by its key. -/
theorem Arrangement.place_key (a : Arrangement) (k : K) (es : List (Entry K V)) :
    ∃ l r, es = l ++ r ∧ ∀ vs, a.place (k, vs) es = l ++ (k, vs) :: r := by
  cases a with
  | arrival => exact ⟨es, [], by simp, fun _ => rfl⟩
  | sorted =>
    refine ⟨es.takeWhile fun e => compare e.1 k = .lt, es.dropWhile fun e => compare e.1 k = .lt,
      List.takeWhile_append_dropWhile.symm, fun _ => rfl⟩
  | unordered => exact ⟨[], es, rfl, fun _ => rfl⟩

/-- An arrangement puts an entry between two parts of a list. -/
theorem Arrangement.place_eq (a : Arrangement) (e : Entry K V) (es : List (Entry K V)) :
    ∃ l r, es = l ++ r ∧ a.place e es = l ++ e :: r := by
  obtain ⟨l, r, hes, hplace⟩ := a.place_key e.1 es
  exact ⟨l, r, hes, hplace e.2⟩

namespace Store

variable {s : Store K V} {k j : K} {vs : List V} {f : List V → List V}

/-- No key occurs twice, and entries that are to be sorted ascend. -/
structure WellFormed (s : Store K V) : Prop where
  distinct : s.entries.Pairwise fun e e' => ¬ SameKey e.1 e'.1
  ascending : s.arrangement = .sorted → s.entries.Pairwise fun e e' => compare e.1 e'.1 = .lt

/-- Distinct keys are distinct in every order. -/
theorem distinct_of_perm [Std.TransOrd K] {es fs : List (Entry K V)} (h : es.Perm fs)
    (hfs : fs.Pairwise fun e e' => ¬ SameKey e.1 e'.1) :
    es.Pairwise fun e e' => ¬ SameKey e.1 e'.1 :=
  h.symm.pairwise hfs fun hne heq => hne heq.symm

/-- The listing shows the entries. -/
theorem listing_perm (s : Store K V) : s.listing.Perm s.entries := by
  unfold listing
  split
  · exact List.mergeSort_perm _ _
  · exact .refl _

/-- It shows them in their order if the order has a meaning. -/
theorem listing_eq (h : s.arrangement ≠ .unordered) : s.listing = s.entries := by
  unfold listing
  split
  · next hu => exact absurd hu h
  · rfl

/-! ## Through the view -/

theorem get?_eq_none_iff : s.get? k = none ↔ ∀ e ∈ s.entries, ¬ SameKey k e.1 := by
  simp [get?, find?]

@[simp] theorem get?_empty (a : Arrangement) : (empty a : Store K V).get? k = none := rfl

@[simp] theorem get?_clear : s.clear.get? k = none := rfl

theorem contains_eq_false_iff : s.contains k = false ↔ ∀ e ∈ s.entries, ¬ SameKey k e.1 := by
  rw [← Bool.not_eq_true, contains_iff]
  simp only [not_exists, not_and]

/-- Which keys are there is decided by the keys. -/
theorem contains_eq_any (s : Store K V) (k : K) : s.contains k = s.keys.any (SameKey k ·) := by
  rw [Bool.eq_iff_iff, contains_iff, keys, List.any_map, List.any_eq_true]
  simp

theorem contains_eq_isSome : s.contains k = (s.get? k).isSome := rfl

theorem get?_of_contains (h : s.contains k = true) : s.get? k = some (s.sequence k) := by
  obtain ⟨vs, hvs⟩ := Option.isSome_iff_exists.mp h
  rw [sequence, hvs]
  rfl

theorem get?_of_not_contains (h : s.contains k = false) : s.get? k = none :=
  Option.not_isSome_iff_eq_none.mp (Bool.eq_false_iff.mp h)

theorem sequence_of_get? (h : s.get? k = some vs) : s.sequence k = vs := congrArg (·.getD []) h

theorem sequence_of_not_contains (h : s.contains k = false) : s.sequence k = [] :=
  congrArg (·.getD []) (get?_of_not_contains h)

theorem contains_eq_isSome_find? : s.contains k = (s.find? k).isSome := Option.isSome_map

@[simp] theorem find?_clear : s.clear.find? k = none := rfl

theorem find?_mapSequences :
    (s.mapSequences f).find? k = (s.find? k).map fun e => (e.1, f e.2) := by
  simp only [find?, mapSequences, List.find?_map]
  rfl

@[simp] theorem get?_mapSequences : (s.mapSequences f).get? k = (s.get? k).map f := by
  rw [get?, find?_mapSequences, get?, Option.map_map, Option.map_map]
  rfl

variable [Std.TransOrd K]

theorem find?_congr (h : SameKey k j) : s.find? k = s.find? j := by
  simp only [find?, h.same_left]

theorem get?_congr (h : SameKey k j) : s.get? k = s.get? j := by rw [get?, find?_congr h, get?]

/-- Where the key is placed does not matter to a look-up, as long as it is new. -/
theorem find?_place (a : Arrangement) (e : Entry K V) {es : List (Entry K V)}
    (hnew : ∀ e' ∈ es, ¬ SameKey e.1 e'.1) :
    (a.place e es).find? (SameKey k ·.1) =
      if SameKey k e.1 then some e else es.find? (SameKey k ·.1) := by
  obtain ⟨l, r, rfl, h⟩ := a.place_eq e es
  rw [h, List.find?_append, List.find?_append, List.find?_cons]
  by_cases hk : SameKey k e.1
  · have hl : l.find? (SameKey k ·.1) = none := by
      simpa using fun e' v he' => hnew (e', v) (List.mem_append_left r he') ∘ hk.symm.trans
    simp [hk, hl]
  · simp [hk]

theorem find?_modify :
    (s.modify k f).find? j =
      if SameKey k j then (s.find? j).map fun e => (e.1, f e.2) else s.find? j := by
  simp only [find?, modify]
  induction s.entries with
  | nil => simp
  | cons e es ih =>
    have hkey : (if SameKey k e.1 then (e.1, f e.2) else e).1 = e.1 := by split <;> rfl
    rw [List.map_cons, List.find?_cons, List.find?_cons, hkey]
    by_cases h : SameKey j e.1
    · simp only [h, ← h.same_right, decide_true]
      split <;> rfl
    · simpa [h] using ih

theorem get?_modify :
    (s.modify k f).get? j = if SameKey k j then (s.get? j).map f else s.get? j := by
  rw [get?, find?_modify, get?]
  split
  · rw [Option.map_map, Option.map_map]
    rfl
  · rfl

/-- A key that is there keeps its spelling. -/
theorem find?_insert :
    (s.insert k vs).find? j =
      if SameKey k j then some ((s.find? j).elim k (·.1), vs) else s.find? j := by
  by_cases h : s.contains k = true
  · rw [insert_of_contains h, find?_modify]
    split
    · next hkj =>
      rw [contains_eq_isSome_find?, find?_congr hkj] at h
      obtain ⟨e, he⟩ := Option.isSome_iff_exists.mp h
      rw [he]
      rfl
    · rfl
  · have hnew := get?_eq_none_iff.mp (Option.not_isSome_iff_eq_none.mp h)
    rw [find?, entries_insert_of_not_contains (by simpa using h), find?_place _ _ hnew]
    by_cases hkj : SameKey k j
    · have hnone : s.find? j = none := by
        rw [← find?_congr hkj, find?, List.find?_eq_none]
        simpa using fun j' ws he => hnew (j', ws) he
      rw [if_pos hkj.symm, if_pos hkj, hnone]
      rfl
    · rw [if_neg (mt SameKey.symm hkj), if_neg hkj, find?]

theorem get?_insert : (s.insert k vs).get? j = if SameKey k j then some vs else s.get? j := by
  rw [get?, find?_insert]
  split <;> rfl

theorem find?_register :
    (s.register k).find? j =
      if SameKey k j then some ((s.find? j).getD (k, [])) else s.find? j := by
  rw [register]
  split
  · next h =>
    split
    · next hkj =>
      rw [contains_eq_isSome_find?, find?_congr hkj] at h
      obtain ⟨e, he⟩ := Option.isSome_iff_exists.mp h
      rw [he]
      rfl
    · rfl
  · next h =>
    rw [find?_insert]
    split
    · next hkj =>
      rw [contains_eq_isSome_find?, find?_congr hkj, Option.not_isSome_iff_eq_none] at h
      rw [h]
      rfl
    · rfl

theorem get?_register :
    (s.register k).get? j = if SameKey k j then some (s.sequence k) else s.get? j := by
  rw [get?, find?_register]
  split
  · next hkj =>
    rw [sequence, get?, find?_congr hkj]
    cases s.find? j <;> rfl
  · rfl

theorem get?_update :
    (s.update k f).get? j = if SameKey k j then some (f (s.sequence k)) else s.get? j :=
  get?_insert

theorem find?_erase : (s.erase k).find? j = if SameKey k j then none else s.find? j := by
  simp only [find?, erase]
  induction s.entries with
  | nil => simp
  | cons e es ih =>
    rw [List.filter_cons]
    by_cases h : SameKey j e.1
    · by_cases hk : SameKey k e.1
      · simpa [hk, h.same_right.mpr hk] using ih
      · simp [hk, h, mt h.same_right.mp hk]
    · split <;> simpa [h] using ih

theorem get?_erase : (s.erase k).get? j = if SameKey k j then none else s.get? j := by
  rw [get?, find?_erase]
  split <;> rfl

/-! ## The invariant -/

namespace WellFormed

omit [Std.TransOrd K] in
theorem empty (a : Arrangement) : (empty a : Store K V).WellFormed := ⟨.nil, fun _ => .nil⟩

omit [Std.TransOrd K] in
theorem clear : s.clear.WellFormed := ⟨.nil, fun _ => .nil⟩

omit [Std.TransOrd K] in
theorem iff_keys : s.WellFormed ↔ (s.keys.Pairwise fun k k' => ¬ SameKey k k') ∧
    (s.arrangement = .sorted → s.keys.Pairwise fun k k' => compare k k' = .lt) := by
  rw [keys, List.pairwise_map, List.pairwise_map]
  exact ⟨fun h => ⟨h.distinct, h.ascending⟩, fun h => ⟨h.1, h.2⟩⟩

omit [Std.TransOrd K] in
theorem modify (h : s.WellFormed) : (s.modify k f).WellFormed := by
  rw [iff_keys, keys_modify]
  exact iff_keys.mp h

omit [Std.TransOrd K] in
theorem mapSequences (h : s.WellFormed) : (s.mapSequences f).WellFormed := by
  rw [iff_keys, keys_mapSequences]
  exact iff_keys.mp h

omit [Std.TransOrd K] in
theorem erase (h : s.WellFormed) : (s.erase k).WellFormed :=
  ⟨h.distinct.filter _, fun ha => (h.ascending ha).filter _⟩

/-- In an ascending list without `k`, what does not come before `k` comes behind it. -/
theorem lt_of_mem_dropWhile {es : List (Entry K V)}
    (hasc : es.Pairwise fun e e' => compare e.1 e'.1 = .lt) (hnew : ∀ e ∈ es, ¬ SameKey k e.1) :
    ∀ e ∈ es.dropWhile (fun e => compare e.1 k = .lt), compare k e.1 = .lt := by
  induction es with
  | nil => simp
  | cons e es ih =>
    obtain ⟨hlt, hasc⟩ := List.pairwise_cons.mp hasc
    by_cases he : compare e.1 k = .lt
    · have hes : ∀ e' ∈ es, ¬ SameKey k e'.1 := fun e' he' => hnew e' (List.mem_cons_of_mem _ he')
      simpa [List.dropWhile_cons, he] using ih hasc hes
    · have hke : compare k e.1 = .lt := by
        cases h : compare k e.1 with
        | lt => rfl
        | eq => exact absurd h (hnew e List.mem_cons_self)
        | gt => exact absurd (Std.OrientedCmp.lt_of_gt h) he
      simp only [List.dropWhile_cons, he, decide_false, Bool.false_eq_true, if_false]
      intro e' he'
      rcases List.mem_cons.mp he' with rfl | he'
      · exact hke
      · exact Std.TransCmp.lt_trans hke (hlt e' he')

theorem insert (h : s.WellFormed) : (s.insert k vs).WellFormed := by
  by_cases hc : s.contains k = true
  · rw [insert_of_contains hc]
    exact h.modify
  have hnew := get?_eq_none_iff.mp (Option.not_isSome_iff_eq_none.mp hc)
  have hentries : (s.insert k vs).entries = s.arrangement.place (k, vs) s.entries :=
    entries_insert_of_not_contains (by simpa using hc)
  constructor
  · obtain ⟨l, r, hlr, hplace⟩ := s.arrangement.place_eq (k, vs) s.entries
    have hd := h.distinct
    rw [hlr] at hd hnew
    rw [hentries, hplace, List.pairwise_middle fun h h' => h h'.symm, List.pairwise_cons]
    exact ⟨hnew, hd⟩
  · intro ha
    have ha : s.arrangement = .sorted := by simpa [Store.insert, hc] using ha
    have hasc := h.ascending ha
    have hbehind := lt_of_mem_dropWhile hasc hnew
    rw [hentries, ha, Arrangement.place]
    rw [← List.takeWhile_append_dropWhile (p := fun e => compare e.1 k = .lt) (l := s.entries),
      List.pairwise_append] at hasc
    refine List.pairwise_append.mpr ⟨hasc.1, List.pairwise_cons.mpr ⟨hbehind, hasc.2.1⟩, ?_⟩
    intro e he e' he'
    have hek : compare e.1 k = .lt := by
      simpa using List.all_eq_true.mp List.all_takeWhile e he
    rcases List.mem_cons.mp he' with rfl | he'
    · exact hek
    · exact hasc.2.2 e he e' he'

theorem register (h : s.WellFormed) : (s.register k).WellFormed := by
  unfold Store.register
  split
  · exact h
  · exact h.insert

theorem update (h : s.WellFormed) : (s.update k f).WellFormed := h.insert

theorem insertAll (h : s.WellFormed) (es : List (Entry K V)) : (s.insertAll es).WellFormed := by
  induction es generalizing s with
  | nil => exact h
  | cons e es ih => exact ih h.insert

theorem ofEntries (a : Arrangement) (es : List (Entry K V)) : (ofEntries a es).WellFormed :=
  (WellFormed.empty a).insertAll es

end WellFormed

/-- In a well-formed store the view of a key is the sequence of its one entry. -/
theorem WellFormed.get?_eq_some_iff (h : s.WellFormed) :
    s.get? k = some vs ↔ ∃ e ∈ s.entries, SameKey k e.1 ∧ e.2 = vs := by
  have hd := h.distinct
  simp only [get?, find?]
  generalize s.entries = es at hd
  induction es with
  | nil => simp
  | cons e es ih =>
    obtain ⟨hne, hd⟩ := List.pairwise_cons.mp hd
    by_cases hk : SameKey k e.1
    · have hes : ∀ e' ∈ es, ¬ SameKey k e'.1 := fun e' he' => mt hk.symm.trans (hne e' he')
      simp only [List.find?_cons, hk, decide_true, Option.map_some, Option.some.injEq,
        List.mem_cons, exists_eq_or_imp, true_and]
      refine (or_iff_left ?_).symm
      rintro ⟨e', he', hke', -⟩
      exact absurd hke' (hes e' he')
    · simpa [hk] using ih hd

/-- Of the entries of a well-formed store at most one is of a given key. -/
theorem WellFormed.filter_eq_singleton (h : s.WellFormed) {e : Entry K V} (he : e ∈ s.entries)
    (hk : SameKey k e.1) : s.entries.filter (SameKey k ·.1) = [e] := by
  obtain ⟨l, r, hlr⟩ := List.append_of_mem he
  have hd := h.distinct
  rw [hlr, List.pairwise_append, List.pairwise_cons] at hd
  obtain ⟨-, ⟨hr, -⟩, hl⟩ := hd
  have hleft : l.filter (SameKey k ·.1) = [] := by
    rw [List.filter_eq_nil_iff]
    exact fun e' he' hk' => hl e' he' e List.mem_cons_self ((of_decide_eq_true hk').symm.trans hk)
  have hright : r.filter (SameKey k ·.1) = [] := by
    rw [List.filter_eq_nil_iff]
    exact fun e' he' hk' => hr e' he' (hk.symm.trans (of_decide_eq_true hk'))
  rw [hlr, List.filter_append, hleft, List.filter_cons_of_pos (by simpa using hk), hright]
  rfl

/-! ## Writing under a key again -/

omit [Std.TransOrd K] in
theorem modify_id : s.modify k id = s := by
  have hentry : ∀ e ∈ s.entries, (if SameKey k e.1 then (e.1, id e.2) else e) = e := fun e _ =>
    ite_self e
  unfold modify
  rw [List.map_congr_left hentry, List.map_id']

omit [Std.TransOrd K] in
theorem modify_modify {g : List V → List V} : (s.modify k f).modify k g = s.modify k (g ∘ f) := by
  unfold modify
  rw [Store.mk.injEq, List.map_map]
  refine ⟨rfl, List.map_congr_left fun e _ => ?_⟩
  by_cases h : SameKey k e.1 <;> simp [h]

omit [Std.TransOrd K] in
theorem map_eq_of_not_same {es : List (Entry K V)} (h : ∀ e ∈ es, ¬ SameKey k e.1) :
    es.map (fun e => if SameKey k e.1 then (e.1, f e.2) else e) = es := by
  rw [List.map_congr_left fun e he => if_neg (h e he), List.map_id']

omit [Std.TransOrd K] in
/-- A key that is not there is not changed. -/
theorem modify_of_not_contains (h : s.contains k = false) : s.modify k f = s := by
  unfold modify
  rw [map_eq_of_not_same (contains_eq_false_iff.mp h)]

@[simp] theorem contains_insert_self : (s.insert k vs).contains k = true := by
  rw [contains_eq_isSome, get?_insert, if_pos (SameKey.refl k)]
  rfl

@[simp] theorem sequence_insert_self : (s.insert k vs).sequence k = vs := by
  rw [sequence, get?_insert, if_pos (SameKey.refl k)]
  rfl

/-- What is written under a key last counts. -/
theorem insert_insert {ws : List V} : (s.insert k vs).insert k ws = s.insert k ws := by
  rw [insert_of_contains contains_insert_self]
  cases hc : s.contains k with
  | true =>
    rw [insert_of_contains hc, insert_of_contains hc, modify_modify]
    rfl
  | false =>
    have hnew := contains_eq_false_iff.mp hc
    obtain ⟨l, r, hlr, hplace⟩ := s.arrangement.place_key k s.entries
    rw [hlr] at hnew
    have hl := map_eq_of_not_same (f := fun _ => ws) fun e he => hnew e (List.mem_append_left r he)
    have hr := map_eq_of_not_same (f := fun _ => ws) fun e he => hnew e (List.mem_append_right l he)
    unfold insert modify
    simp only [hc, Bool.false_eq_true, if_false, hplace, List.map_append, List.map_cons, hl, hr,
      SameKey.refl, if_true]

omit [Std.TransOrd K] in
theorem erase_modify : (s.modify k f).erase k = s.erase k := by
  unfold erase modify
  rw [Store.mk.injEq, and_iff_right rfl]
  dsimp only
  induction s.entries with
  | nil => rfl
  | cons e es ih =>
    rw [List.map_cons, List.filter_cons, List.filter_cons, ih]
    by_cases h : SameKey k e.1 <;> simp [h]

/-- Whatever is written under a key, the other entries are left as they are. -/
theorem erase_insert : (s.insert k vs).erase k = s.erase k := by
  unfold insert
  split
  · exact erase_modify
  · obtain ⟨l, r, hlr, hplace⟩ := s.arrangement.place_eq (k, vs) s.entries
    unfold erase
    rw [Store.mk.injEq, and_iff_right rfl]
    dsimp only
    rw [hplace, hlr, List.filter_append, List.filter_append, List.filter_cons_of_neg (by simp)]

theorem contains_register_self : (s.register k).contains k = true := by
  unfold register
  split
  · next h => exact h
  · exact contains_insert_self

theorem sequence_register_self : (s.register k).sequence k = s.sequence k := by
  rw [sequence, get?_register, if_pos (SameKey.refl k)]
  rfl

/-- A key that is written to need not have been registered before. -/
theorem insert_register : (s.register k).insert k vs = s.insert k vs := by
  unfold register
  split
  · rfl
  · exact insert_insert

/-- To change the sequence of a key that is there is to write the changed one: no other entry is of
that key. -/
theorem WellFormed.modify_eq_insert (h : s.WellFormed) (hc : s.contains k = true) :
    s.modify k f = s.insert k (f (s.sequence k)) := by
  have hentry : ∀ e ∈ s.entries, (if SameKey k e.1 then (e.1, f e.2) else e) =
      if SameKey k e.1 then (e.1, f (s.sequence k)) else e := by
    intro e he
    split
    · next hk =>
      have hget := h.get?_eq_some_iff.mpr ⟨e, he, hk, rfl⟩
      rw [sequence, hget]
      rfl
    · rfl
  rw [insert_of_contains hc]
  unfold Store.modify
  rw [List.map_congr_left hentry]

/-- Writing the sequence of a key back changes nothing. -/
theorem WellFormed.insert_sequence (h : s.WellFormed) (hc : s.contains k = true) :
    s.insert k (s.sequence k) = s := (h.modify_eq_insert hc).symm.trans modify_id

/-- If the key is not there, an empty sequence is written, which registers the key. -/
theorem WellFormed.insert_sequence_eq_register (h : s.WellFormed) :
    s.insert k (s.sequence k) = s.register k := by
  unfold Store.register
  split
  · next hc => exact h.insert_sequence hc
  · next hc =>
    rw [contains_eq_isSome, Option.not_isSome_iff_eq_none] at hc
    rw [sequence, hc]
    rfl

end Store

end Multimap
