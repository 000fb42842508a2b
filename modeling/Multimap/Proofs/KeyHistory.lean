import Multimap.Proofs.Independence

/-!
# The keys of a map as a function of its history

Which keys are registered, in what order and in what spelling is decided by the calls alone: no
value, no answer and no policy has a part in it. `Call.enrolled` says what a call does to the list
of keys, and `history` is the list that a run of calls leaves.

* `Lists.step`, `Lists.call`: a map in order of arrival lists the keys that the call leaves.
* **`keys_runCalls`**: after any run of calls from a map without keys, a map in order of arrival
  lists the keys of the history, and a sorted map lists them sorted.
-/

namespace Multimap

variable {K V P : Type} [Ord K]

/-! ## What a call does to the list of keys -/

/-- The keys with `k` at the end, unless a key is the same. -/
def enroll (ks : List K) (k : K) : List K := if ks.any (SameKey k ·) then ks else ks ++ [k]

/-- The keys that are not the same as `k`. -/
def strike (ks : List K) (k : K) : List K := ks.filter fun j => ¬ SameKey k j

/-- The keys after an operation. -/
def Operation.enrolled (ks : List K) : Operation K V P → List K
  | assign k _ | append k _ | prepend k _ | insert k _ | edit k _ | update k _ => enroll ks k
  | appendAll k offered => if offered.isEmpty then ks else enroll ks k
  | appendAll? _ none => ks
  | appendAll? k (some offered) => if offered.isEmpty then ks else enroll ks k
  | extend pairs => (pairs.map (·.1)).foldl enroll ks
  | insertAll entries => (entries.map (·.1)).foldl enroll ks
  | erase k => strike ks k
  | clear => []
  | modify _ _ | modifyAll _ | setPolicy _ | query _ => ks

/-- What is done with a map. -/
inductive Call (K V P : Type)
  | operate (o : Operation K V P)
  /-- The store is taken out of the map, and a map is made of it under the policy. -/
  | rewrap (p : P)

/-- The keys after a call. -/
def Call.enrolled (ks : List K) : Call K V P → List K
  | operate o => o.enrolled ks
  | rewrap _ => ks

/-- The keys after a run of calls on a map without keys. -/
def history (cs : List (Call K V P)) : List K := cs.foldl Call.enrolled []

/-- The keys in ascending order. -/
def ascending (ks : List K) : List K := ks.mergeSort fun j k => (compare j k).isLE

section

variable [AbsencePolicy P V] [BEq V]

/-- The map after a call. -/
def Call.run (m : Multimap K V P) : Call K V P → Logged (Multimap K V P)
  | operate o => return (← o.run m).2
  | rewrap p => return ⟨m.store, p⟩

/-- The map after calls, one after the other. -/
def runCalls (m : Multimap K V P) (cs : List (Call K V P)) : Logged (Multimap K V P) :=
  cs.foldlM Call.run m

end

/-! ## Maps in order of arrival -/

/-- The map is in order of arrival, and these are its keys. -/
structure Lists (ks : List K) (m : Multimap K V P) : Prop where
  arrangement_eq : m.store.arrangement = .arrival
  keys_eq : m.store.keys = ks

namespace Lists

variable {ks : List K} {m : Multimap K V P} {k : K} {vs : List V}

theorem contains_iff_any (h : Lists ks m) (k : K) :
    m.store.contains k = ks.any (SameKey k ·) := by
  rw [Store.contains_eq_any, h.keys_eq]

/-- A sequence is written, under whatever policy then: the key is at the end if it is new. -/
theorem insert (h : Lists ks m) (p : P) : Lists (enroll ks k) ⟨m.store.insert k vs, p⟩ := by
  refine ⟨Store.arrangement_insert.trans h.arrangement_eq, ?_⟩
  unfold enroll
  rw [← h.contains_iff_any]
  cases hc : m.store.contains k with
  | true => rw [if_pos rfl, Store.keys_insert_of_contains hc, h.keys_eq]
  | false =>
    rw [if_neg Bool.false_ne_true, Store.keys, Store.entries_insert_of_not_contains hc,
      h.arrangement_eq, Arrangement.place, List.map_append, ← h.keys_eq]
    rfl

theorem insertAll (h : Lists ks m) (es : List (Entry K V)) :
    Lists ((es.map (·.1)).foldl enroll ks) (m.insertAll es) := by
  induction es generalizing ks m with
  | nil => exact h
  | cons e es ih => exact ih (h.insert m.policy)

theorem register (h : Lists ks m) : Lists (enroll ks k) (m.register k) := by
  unfold Multimap.register Store.register
  split
  · next hc =>
    unfold enroll
    rw [if_pos (by rw [← h.contains_iff_any, hc])]
    exact h
  · exact h.insert m.policy

theorem modify (h : Lists ks m) (f : List V → List V) : Lists ks (m.modify k f) :=
  ⟨h.arrangement_eq, Store.keys_modify.trans h.keys_eq⟩

theorem erase (h : Lists ks m) : Lists (strike ks k) (m.erase k) := by
  refine ⟨h.arrangement_eq, ?_⟩
  rw [← h.keys_eq]
  unfold strike Store.keys
  rw [List.filter_map]
  rfl

variable [AbsencePolicy P V]

theorem appendAll (h : Lists ks m) (offered : List (Option V)) :
    Lists (if offered.isEmpty then ks else enroll ks k) (m.appendAll k offered).value := by
  unfold Multimap.appendAll
  split
  · exact h
  · exact h.insert _

theorem extend (h : Lists ks m) (pairs : List (K × V)) :
    Lists ((pairs.map (·.1)).foldl enroll ks) (m.extend pairs).value := by
  induction pairs generalizing ks m with
  | nil => exact h
  | cons e pairs ih => exact ih (h.insert _)

variable [BEq V]

/-- **One operation** leaves the keys that it is said to leave. -/
theorem step (h : Lists ks m) (o : Operation K V P) :
    Lists (o.enrolled ks) (o.run m).value.2 := by
  cases o with
  | assign k v => exact h.insert _
  | append k v => exact h.insert _
  | prepend k v => exact h.insert _
  | appendAll k offered => exact h.appendAll offered
  | appendAll? k offered =>
    cases offered with
    | none => exact h
    | some offered => exact h.appendAll offered
  | extend pairs => exact h.extend pairs
  | insert k vs => exact h.insert m.policy
  | insertAll es => exact h.insertAll es
  | erase k => exact h.erase
  | clear => exact ⟨h.arrangement_eq, rfl⟩
  | edit k f => exact h.register.modify f
  | update k f => exact h.insert m.policy
  | modify k f => exact h.modify f
  | modifyAll f => exact ⟨h.arrangement_eq, Store.keys_mapSequences.trans h.keys_eq⟩
  | setPolicy p => exact ⟨h.arrangement_eq, h.keys_eq⟩
  | query q => exact h

theorem call (h : Lists ks m) (c : Call K V P) : Lists (c.enrolled ks) (c.run m).value := by
  cases c with
  | operate o => exact h.step o
  | rewrap p => exact ⟨h.arrangement_eq, h.keys_eq⟩

theorem runCalls (h : Lists ks m) (cs : List (Call K V P)) :
    Lists (cs.foldl Call.enrolled ks) (m.runCalls cs).value := by
  induction cs generalizing ks m with
  | nil => exact h
  | cons c cs ih => exact ih (h.call c)

end Lists

/-! ## Sorted maps -/

theorem keys_byKey (es : List (Entry K V)) :
    (Store.byKey es).map (·.1) = ascending (es.map (·.1)) :=
  List.map_mergeSort fun _ _ _ _ => rfl

variable [AbsencePolicy P V] [BEq V] [Std.TransOrd K] {a b : Arrangement} {m n : Multimap K V P}

theorem Alike.runCalls (h : Alike a b m n) (cs : List (Call K V P)) :
    Logged.Agree (Alike a b) (m.runCalls cs) (n.runCalls cs) := by
  refine .foldlM (fun c h' => ?_) cs h
  cases c with
  | operate o => exact (h'.step o).bind fun hr => .pure hr.2
  | rewrap p => exact .pure ⟨h'.store, rfl⟩

/-- No call breaks a store: no key is there twice, and what is sorted stays sorted. -/
theorem wellFormed_runCalls (hm : m.store.WellFormed) (cs : List (Call K V P)) :
    (m.runCalls cs).value.store.WellFormed := by
  have halike : Alike m.store.arrangement m.store.arrangement m m := ⟨.refl ⟨hm, rfl⟩, rfl⟩
  exact (halike.runCalls cs).value.store.left.toWellFormed

/-- **The keys are those of the history.** After any run of calls from a map without keys, under any
policy, a map in order of arrival lists the keys of the history in its order and spelling, and a
sorted map lists them sorted. -/
theorem keys_runCalls (p : P) (cs : List (Call K V P)) :
    ((empty .arrival p).runCalls cs).value.store.keys = history cs ∧
      ((empty .sorted p).runCalls cs).value.store.keys = ascending (history cs) := by
  have harrival : Lists [] (empty .arrival p : Multimap K V P) := ⟨rfl, rfl⟩
  have hkeys := (harrival.runCalls cs).keys_eq
  refine ⟨hkeys, ?_⟩
  have halike : Alike .arrival .sorted (empty .arrival p : Multimap K V P) (empty .sorted p) :=
    ⟨.empty _ _, rfl⟩
  have hend := (halike.runCalls cs).value.store
  unfold Store.keys at hkeys ⊢
  rw [hend.right.entries_eq_byKey hend.entries, keys_byKey, hkeys]
  rfl

/-- A word that is unregistered comes back in another spelling, and keeps that one. -/
theorem keys_runCalls_caseless :
    let cs : List (Call CaselessText Int64 DropAbsent) :=
      [.operate (.append ⟨"a"⟩ none), .operate (.erase ⟨"A"⟩), .rewrap ⟨⟩,
        .operate (.edit ⟨"A"⟩ id), .operate (.assign ⟨"a"⟩ (some 1))]
    ((empty .arrival ⟨⟩).runCalls cs).value.store.keys = [⟨"A"⟩] ∧
      ((empty .sorted ⟨⟩).runCalls cs).value.store.keys = [⟨"A"⟩] := by
  intro cs
  have hhistory : history cs = [⟨"A"⟩] := by decide +kernel
  have hkeys := keys_runCalls ⟨⟩ cs
  rw [hhistory] at hkeys
  exact ⟨hkeys.1, hkeys.2.trans (List.mergeSort_singleton _)⟩

end Multimap
