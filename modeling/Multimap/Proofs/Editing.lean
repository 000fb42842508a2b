import Mathlib.Logic.Function.Iterate
import Multimap.Proofs.Bulk
import Multimap.Proofs.Comparison
import Multimap.Proofs.Reachability

/-!
# Sequences that are edited in place

A sequence is edited where it stands. It may be looked up under its key, which is registered if need
be, in the map or in its store; it may be taken out, changed and written back; or it may be gone
through along with all the others. Since no two keys are the same, the key stands in one entry, and
all the ways come to the same: the sequence of that entry is changed, once.

* `Store.WellFormed.modify_register`: a key that is registered to be edited.
* `Store.entries_foldl_modify`: of edits key by key, each sequence takes as many as name its key.
* `Store.WellFormed.foldl_modify`: edits that name each key once, in whatever order and spelling.
* **`edits_agree`**: the ways to edit one sequence, and the ways to edit all of them.
-/

namespace Multimap

variable {K V P : Type} [Ord K]

/-! ## Edits in a store -/

namespace Store

variable {s : Store K V} {k : K} {f : List V → List V}

/-- **Edits key by key**: each sequence takes as many of them as name its key. -/
theorem entries_foldl_modify (s : Store K V) (f : List V → List V) (js : List K) :
    (js.foldl (fun t j => t.modify j f) s).entries =
      s.entries.map fun e => (e.1, f^[js.countP (SameKey · e.1)] e.2) := by
  induction js generalizing s with
  | nil => exact (List.map_id' _).symm
  | cons j js ih =>
    rw [List.foldl_cons, ih, modify, List.map_map]
    refine List.map_congr_left fun e _ => ?_
    by_cases h : SameKey j e.1 <;> simp [h, Function.iterate_succ_apply]

theorem arrangement_foldl_modify (s : Store K V) (f : List V → List V) (js : List K) :
    (js.foldl (fun t j => t.modify j f) s).arrangement = s.arrangement := by
  induction js generalizing s with
  | nil => rfl
  | cons j js ih => exact ih (s.modify j f)

variable [Std.TransOrd K]

/-- A key that is registered to be edited has its sequence edited, or the empty one if it was not
there. -/
theorem WellFormed.modify_register (h : s.WellFormed) :
    (s.register k).modify k f = s.update k f := by
  rw [h.register.modify_eq_insert contains_register_self, sequence_register_self, insert_register]
  rfl

/-- It makes no difference in which spelling keys are named, nor in which order. -/
theorem countP_eq_of_permBy {js ks : List K} (h : PermBy SameKey js ks) (k : K) :
    js.countP (SameKey · k) = ks.countP (SameKey · k) := by
  obtain ⟨ls, hspelled, hperm⟩ := h
  rw [← hperm.countP_eq]
  clear hperm
  induction hspelled with
  | nil => rfl
  | cons hjl _ ih => simp only [List.countP_cons, ih, hjl.same_left]

/-- A store names each of its keys once. -/
theorem WellFormed.countP_keys (h : s.WellFormed) {e : Entry K V} (he : e ∈ s.entries) :
    s.keys.countP (SameKey · e.1) = 1 := by
  have hone := h.filter_eq_singleton he (SameKey.refl e.1)
  simp only [SameKey.comm (a := e.1)] at hone
  rw [keys, List.countP_map, List.countP_eq_length_filter]
  exact congrArg List.length hone

/-- **Each key once**, in whatever order and spelling: every sequence is edited. -/
theorem WellFormed.foldl_modify (h : s.WellFormed) {js : List K} (hjs : PermBy SameKey js s.keys) :
    js.foldl (fun t j => t.modify j f) s = s.mapSequences f := by
  refine eq_of_entries (arrangement_foldl_modify s f js) ?_
  rw [entries_foldl_modify]
  refine List.map_congr_left fun e he => ?_
  rw [countP_eq_of_permBy hjs, h.countP_keys he, Function.iterate_one]

end Store

/-! ## Edits as requests -/

section

variable [AbsencePolicy P V] [BEq V] {m : Multimap K V P}

/-- Keys that are edited one after the other. -/
theorem snd_run_modify (m : Multimap K V P) (f : List V → List V) (js : List K) :
    Prod.snd <$> m.run (js.map (.modify · f)) =
      pure ⟨js.foldl (fun s j => s.modify j f) m.store, m.policy⟩ := by
  induction js generalizing m with
  | nil => rfl
  | cons j js ih =>
    have hone : Prod.snd <$> (Operation.modify j f).run m = pure (m.modify j f) := rfl
    rw [List.map_cons, snd_run_cons, hone, pure_bind, ih]
    rfl

/-- The ways to edit the sequence of `k`, and the map `n` that they leave. None of them logs
anything. -/
structure EditedTo (m : Multimap K V P) (k : K) (f : List V → List V) (n : Multimap K V P) :
    Prop where
  /-- The key is registered and its sequence looked up. -/
  run_edit : m.run [.edit k f] = pure ([.sequence (some (m.sequence k))], n)
  /-- The same in the store. -/
  run_update : m.run [.update k f] = pure ([.sequence (some (f (m.sequence k)))], n)
  /-- A key that is there need not be registered. -/
  run_modify : m.contains k = true →
    m.run [.modify k f] = pure ([.sequence (some (m.sequence k))], n)
  /-- Its sequence may as well be taken, changed and written back. -/
  run_insert (vs : List V) : m.get? k = some vs →
    m.run [.insert k (f vs)] = pure ([.sequence (some vs)], n)
  /-- If a key is not there, and is not registered, nothing is changed. -/
  run_modify_absent : m.contains k = false → m.run [.modify k f] = pure ([.sequence none], m)
  /-- The key has its sequence edited, or the empty one if it was not there. -/
  get?_eq : n.get? k = some (f (m.sequence k))
  /-- If it was there, the keys keep their places and spellings. -/
  keys_eq : m.contains k = true → n.store.keys = m.store.keys
  /-- If not, it comes last in order of arrival. -/
  entries_eq : m.contains k = false → m.store.arrangement = .arrival →
    n.store.entries = m.store.entries ++ [(k, f [])]
  /-- The other entries are what they were, in their order. -/
  erase_eq : n.store.erase k = m.store.erase k
  wellFormed : n.store.WellFormed
  policy_eq : n.policy = m.policy

/-- The ways to edit all sequences, and the map `n` that they leave. None of them logs anything. -/
structure EditedThroughout (m : Multimap K V P) (f : List V → List V) (n : Multimap K V P) :
    Prop where
  /-- All sequences are gone through. -/
  run_modifyAll : m.run [.modifyAll f] = pure ([.count m.size], n)
  /-- Each key is looked up once, in whatever order and spelling. -/
  run_modify (js : List K) : PermBy SameKey js m.store.keys →
    Prod.snd <$> m.run (js.map (.modify · f)) = pure n
  /-- Each sequence is edited, and its key keeps its place and spelling. -/
  entries_eq : n.store.entries = m.store.entries.map fun e => (e.1, f e.2)
  arrangement_eq : n.store.arrangement = m.store.arrangement
  policy_eq : n.policy = m.policy

variable [Std.TransOrd K]

/-- **One key**: the ways to edit its sequence. -/
theorem editedTo_update (hm : m.store.WellFormed) (k : K) (f : List V → List V) :
    EditedTo m k f ⟨m.store.update k f, m.policy⟩ := by
  have hedited : (m.store.update k f).get? k = some (f (m.store.sequence k)) := by
    rw [Store.get?_update, if_pos (SameKey.refl k)]
  have hregistered : (m.store.register k).get? k = some (m.store.sequence k) := by
    rw [Store.get?_register, if_pos (SameKey.refl k)]
  constructor
  case run_edit =>
    simp only [run, Operation.run, register, modify, get?, hregistered, hm.modify_register]
    rfl
  case run_update =>
    simp only [run, Operation.run, get?, hedited]
    rfl
  case run_modify =>
    intro hk
    simp only [run, Operation.run, modify, get?, Store.get?_of_contains hk, hm.modify_eq_insert hk]
    rfl
  case run_insert =>
    intro vs hvs
    simp only [run, Operation.run, hvs, Store.update, Store.sequence_of_get? hvs]
    rfl
  case run_modify_absent =>
    intro hk
    simp only [run, Operation.run, modify, get?, Store.modify_of_not_contains hk,
      Store.get?_of_not_contains hk]
    rfl
  case get?_eq => exact hedited
  case keys_eq => exact Store.keys_insert_of_contains
  case entries_eq =>
    intro hk ha
    show (m.store.insert k (f (m.store.sequence k))).entries = _
    rw [Store.entries_insert_of_not_contains hk, ha, Store.sequence_of_not_contains hk]
    rfl
  case erase_eq => exact Store.erase_insert
  case wellFormed => exact hm.update
  case policy_eq => rfl

/-- **However a sequence is edited, it comes to the same**, under every policy and in every
arrangement. -/
theorem edits_agree (hm : Reachable m) (f : List V → List V) :
    (∀ k, ∃ n, EditedTo m k f n) ∧ ∃ n, EditedThroughout m f n := by
  have hwellFormed := hm.wellFormed
  refine ⟨fun k => ⟨_, editedTo_update hwellFormed k f⟩, m.mapSequences f, ?_⟩
  constructor
  case run_modifyAll => rfl
  case run_modify =>
    intro js hjs
    rw [snd_run_modify, hwellFormed.foldl_modify hjs]
    rfl
  case entries_eq => rfl
  case arrangement_eq => rfl
  case policy_eq => rfl

/-- A key is edited that is there in another spelling, one that is new, and then all of them,
backwards and in other spellings. -/
theorem edits_agree_caseless :
    let m : Multimap CaselessText Int64 (Policy Int64) :=
      (empty .arrival .wipe).insertAll [(⟨"b"⟩, [1, 2]), (⟨"a"⟩, [3])]
    Reachable m ∧
      (∃ n, EditedTo m ⟨"B"⟩ List.reverse n ∧
        n.store.entries = [(⟨"b"⟩, [2, 1]), (⟨"a"⟩, [3])]) ∧
      (∃ n, EditedTo m ⟨"C"⟩ (· ++ [4]) n ∧
        n.store.entries = [(⟨"b"⟩, [1, 2]), (⟨"a"⟩, [3]), (⟨"C"⟩, [4])]) ∧
      ∃ n, EditedThroughout m List.tail n ∧
        Prod.snd <$> m.run [.modify ⟨"A"⟩ List.tail, .modify ⟨"B"⟩ List.tail] = pure n ∧
        n.store.entries = [(⟨"b"⟩, [2]), (⟨"a"⟩, [])] := by
  intro m
  have hm : Reachable m := .literal _ _
  obtain ⟨there, hthere⟩ := (edits_agree hm List.reverse).1 ⟨"B"⟩
  obtain ⟨new, hnew⟩ := (edits_agree hm (· ++ [4])).1 ⟨"C"⟩
  obtain ⟨all, hall⟩ := (edits_agree hm List.tail).2
  have hrespelled : List.Forall₂ SameKey [⟨"A"⟩, ⟨"B"⟩] [(⟨"a"⟩ : CaselessText), ⟨"b"⟩] :=
    .cons (by decide +kernel) (.cons (by decide +kernel) .nil)
  have hkeys : m.store.keys = [⟨"b"⟩, ⟨"a"⟩] := by decide +kernel
  have hbackwards : [⟨"a"⟩, ⟨"b"⟩].Perm m.store.keys := hkeys ▸ .swap _ _ _
  refine ⟨hm, ⟨there, hthere, ?_⟩, ⟨new, hnew, ?_⟩,
    all, hall, hall.run_modify [⟨"A"⟩, ⟨"B"⟩] ⟨_, hrespelled, hbackwards⟩, ?_⟩
  · rw [show there = _ from (congrArg (·.value.2) hthere.run_edit).symm]
    decide +kernel
  · rw [show new = _ from (congrArg (·.value.2) hnew.run_edit).symm]
    decide +kernel
  · rw [hall.entries_eq]
    decide +kernel

end

end Multimap
