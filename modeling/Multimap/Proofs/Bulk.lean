import Multimap.Operation
import Multimap.Store.Lemmas

/-!
# Values in bulk and one by one

A bulk of values is offered to one sequence, for which the key is looked up once, and what comes of
it is written back at the end. To append the values one by one is to look the key up and to write
for each of them. It comes to the same under every policy, because a sequence that is written is the
one that is found next, and only the last one written under a key counts.

* `accumulate_map_some`: values that are there, under a new key, are its sequence.
* `accumulate_cons`: the first value of a bulk may be appended by itself.
* `appendAll_eq_foldlM`: a bulk of values is the values one by one.
* `accumulate_eq_run`: so are values that are accumulated, once their key has been looked up for
  change, which registers it even if there are none.
* **`appendAll_repeats_append`**: a bulk is its values one by one, whatever they are and whatever
  the policy makes of them; one that is missing is refused and leaves the map as it is.
-/

namespace Multimap

variable {K V P : Type} [Ord K] [AbsencePolicy P V]

/-! ## Values that are there -/

/-- Of values that are there the policy is asked nothing. -/
theorem supplyAll_map_some (p : P) (ws vs : List V) :
    supplyAll p ws (vs.map some) = pure (p, ws ++ vs) := by
  induction vs generalizing ws with
  | nil => rw [List.append_nil]; rfl
  | cons v vs ih =>
    rw [List.map_cons, supplyAll_cons, supply_some, pure_bind, ih]
    show pure (p, (ws ++ [v]) ++ vs) = _
    rw [List.append_assoc]
    rfl

/-- Under a new key they are its sequence. -/
theorem accumulate_map_some {m : Multimap K V P} {k : K} (h : m.store.get? k = none)
    (vs : List V) : m.accumulate k (vs.map some) = pure (m.insert k vs) := by
  have hsequence : m.sequence k = [] := by
    unfold sequence Store.sequence
    rw [h]
    rfl
  unfold accumulate
  rw [hsequence, supplyAll_map_some, pure_bind]
  rfl

/-! ## One by one -/

section

variable [Std.TransOrd K]

/-- Of values to be accumulated, the first is appended and the others are accumulated. -/
theorem accumulate_cons (m : Multimap K V P) (k : K) (v : Option V) (offered : List (Option V)) :
    m.accumulate k (v :: offered) = m.append k v >>= fun m => m.accumulate k offered := by
  unfold accumulate append sequence
  rw [supplyAll_cons, bind_assoc, bind_assoc]
  refine bind_congr fun s => ?_
  rw [pure_bind]
  simp only [Store.sequence_insert_self, Store.insert_insert]

/-- **A bulk of values** is the values one by one. -/
theorem appendAll_eq_foldlM (m : Multimap K V P) (k : K) (offered : List (Option V)) :
    m.appendAll k offered = offered.foldlM (fun n v => n.append k v) m := by
  cases offered with
  | nil => rfl
  | cons v offered =>
    show m.accumulate k (v :: offered) = _
    induction offered generalizing m v with
    | nil => simp [accumulate, append]
    | cons w offered ih =>
      rw [accumulate_cons, List.foldlM_cons]
      exact bind_congr fun n => ih n w

/-- Under a key that is registered there is something to write even if there are no values. -/
theorem accumulate_eq_foldlM {m : Multimap K V P} (hm : m.store.WellFormed) {k : K}
    (hk : m.store.contains k = true) (offered : List (Option V)) :
    m.accumulate k offered = offered.foldlM (fun n v => n.append k v) m := by
  cases offered with
  | nil =>
    show (pure ⟨m.store.insert k (m.store.sequence k), m.policy⟩ : Logged (Multimap K V P)) = pure m
    rw [hm.insert_sequence hk]
  | cons v offered => exact appendAll_eq_foldlM m k (v :: offered)

end

/-! ## As requests -/

section

variable [BEq V]

theorem snd_run_cons (m : Multimap K V P) (o : Operation K V P) (os : List (Operation K V P)) :
    Prod.snd <$> m.run (o :: os) = (Prod.snd <$> o.run m) >>= fun m => Prod.snd <$> m.run os := by
  simp only [run, map_eq_pure_bind, bind_assoc, pure_bind]

theorem snd_run_append (m : Multimap K V P) (k : K) (offered : List (Option V)) :
    Prod.snd <$> m.run (offered.map (.append k)) =
      offered.foldlM (fun n v => n.append k v) m := by
  induction offered generalizing m with
  | nil => rfl
  | cons v offered ih =>
    have hone : Prod.snd <$> (Operation.append k v).run m = m.append k v := by
      simp only [Operation.run, map_eq_pure_bind, bind_assoc, pure_bind, bind_pure]
    rw [List.map_cons, snd_run_cons, hone, List.foldlM_cons]
    exact bind_congr fun n => ih n

variable [Std.TransOrd K]

/-- **Values might as well be appended one by one**, once the key has been looked up for change. -/
theorem accumulate_eq_run {m : Multimap K V P} (hm : m.store.WellFormed) {k : K}
    (offered : List (Option V)) :
    Prod.snd <$> m.run (.edit k id :: offered.map (.append k)) = m.accumulate k offered := by
  have hedit : Prod.snd <$> (Operation.edit k id).run m = pure (m.register k) := by
    show (pure ⟨(m.store.register k).modify k id, m.policy⟩ : Logged (Multimap K V P)) = _
    rw [Store.modify_id]
    rfl
  rw [snd_run_cons, hedit, pure_bind, snd_run_append,
    ← accumulate_eq_foldlM hm.register Store.contains_register_self]
  unfold accumulate sequence register
  simp only [Store.sequence_register_self, Store.insert_register]

end

/-! ## In bulk -/

/-- Values in bulk for the key `k` of a map. -/
structure RepeatsAppend (m : Multimap K V P) (k : K) : Prop where
  /-- They leave what they leave one by one: the entries in the same order and spelling, the policy
  and the log. -/
  eq_foldlM (offered : List (Option V)) :
    m.appendAll k offered = offered.foldlM (fun n v => n.append k v) m
  /-- The same as requests. -/
  eq_run [BEq V] (offered : List (Option V)) :
    Prod.snd <$> m.run [.appendAll k offered] = Prod.snd <$> m.run (offered.map (.append k))
  /-- Without values nothing happens. -/
  nil_eq : m.appendAll k [] = pure m
  append_eq (xs ys : List (Option V)) :
    m.appendAll k (xs ++ ys) = m.appendAll k xs >>= fun n => n.appendAll k ys
  /-- Values that might have been missing are taken. -/
  accepted (offered : List (Option V)) :
    m.appendAll? k (some offered) = (fun n => (.ok (), n)) <$> m.appendAll k offered
  /-- If they are missing, that is logged and refused, and the map is left as it is. -/
  refused : m.appendAll? k none = ⟨(.error .valuesMissing, m), [.valuesMissing]⟩

/-- **Values in bulk are values one by one**, under every policy, whatever it makes of a sequence,
and wherever values are absent. -/
theorem appendAll_repeats_append [Std.TransOrd K] (m : Multimap K V P) (k : K) :
    RepeatsAppend m k where
  eq_foldlM := appendAll_eq_foldlM m k
  eq_run offered := by
    rw [snd_run_append, ← appendAll_eq_foldlM]
    simp [run, Operation.run]
  nil_eq := rfl
  append_eq xs ys := by
    rw [appendAll_eq_foldlM, appendAll_eq_foldlM, List.foldlM_append]
    exact bind_congr fun n => (appendAll_eq_foldlM n k ys).symm
  accepted offered := (map_eq_pure_bind _ _).symm
  refused := rfl

/-- The policy empties the sequence between two values of a bulk, and the key keeps its spelling. -/
theorem appendAll_repeats_append_wipe :
    let m : Multimap CaselessText Int64 (Policy Int64) :=
      ⟨⟨.arrival, [(⟨"A"⟩, [9]), (⟨"b"⟩, [1])]⟩, .wipe⟩
    let offered : List (Option Int64) := [some 2, none, some 3, some 4]
    RepeatsAppend m ⟨"B"⟩ ∧
      m.appendAll ⟨"B"⟩ offered = offered.foldlM (fun n v => n.append ⟨"B"⟩ v) m ∧
      (m.appendAll ⟨"B"⟩ offered).value.store.entries = [(⟨"A"⟩, [9]), (⟨"b"⟩, [3, 4])] := by
  intro m offered
  have hrepeats := appendAll_repeats_append m ⟨"B"⟩
  exact ⟨hrepeats, hrepeats.eq_foldlM offered, by decide +kernel⟩

end Multimap
