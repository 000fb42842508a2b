import Mathlib.Data.List.ReduceOption
import Multimap.Proofs.Markers
import Multimap.Proofs.Reachability

/-!
# Absent values erased

Under a policy that leaves sequences as they are (`Spares`) nothing comes of an absent value, except
that its key is registered and that a sequence it is assigned to is emptied. So it need not be
offered: there are requests that do as much and offer only values that are there
(`Operation.withoutAbsences`).

* `Spares.supplyAll`: of the values offered those that are there are appended.
* `SameStore.withoutAbsences`, `SameStore.run_withoutAbsences`: a request, and a run of requests,
  beside those in their place.
* `untraced`: requests without absent values have nothing logged about a value.
* `find?_appends`: the entry of a key after values have been appended one by one.
* **`absences_erased`**: a run under a policy that leaves sequences as they are, and the run with
  the absent values erased; and what is gathered where values are appended and nothing else is done.
-/

namespace Multimap

variable {K V P : Type}

/-! ## Requests without absent values -/

namespace Operation

/-- What takes the place of a request that offers absent values. A key is looked up for change to
register it. -/
def withoutAbsences : Operation K V P → List (Operation K V P)
  | append k none | prepend k none => [.edit k id]
  | assign k none => [.insert k []]
  | appendAll k (v :: offered) | appendAll? k (some (v :: offered)) =>
    [.edit k id, .appendAll k ((v :: offered).filter (·.isSome))]
  | o => [o]

/-- The answer to a request, if those in its place are answered `as`. A request to take values is
answered that they are taken; whatever else is asked for is asked for in its place too. -/
def settled (as : List (Answer V)) : Operation K V P → Answer V
  | assign .. | append .. | prepend .. | appendAll .. => .done
  | appendAll? _ (some _) => .accepted
  | _ => as.headD .done

end Operation

/-- The answers to requests, if those in their places are answered `as`. -/
def settle : List (Operation K V P) → List (Answer V) → List (Answer V)
  | [], _ => []
  | o :: os, as =>
    o.settled (as.take o.withoutAbsences.length) :: settle os (as.drop o.withoutAbsences.length)

theorem settle_append (o : Operation K V P) (os : List (Operation K V P)) {as : List (Answer V)}
    (h : as.length = o.withoutAbsences.length) (bs : List (Answer V)) :
    settle (o :: os) (as ++ bs) = o.settled as :: settle os bs := by
  rw [settle, List.take_left' h, List.drop_left' h]

/-- A request either sets a policy or can be made under every policy. -/
theorem Operation.eq_setPolicy_or_under (o : Operation K V P) :
    (∃ p, o = .setPolicy p) ∨ ∃ r : Request K V, o = r.under P := by
  cases o with
  | assign k v => exact .inr ⟨.assign k v, rfl⟩
  | append k v => exact .inr ⟨.append k v, rfl⟩
  | prepend k v => exact .inr ⟨.prepend k v, rfl⟩
  | appendAll k offered => exact .inr ⟨.appendAll k offered, rfl⟩
  | appendAll? k offered => exact .inr ⟨.appendAll? k offered, rfl⟩
  | extend pairs => exact .inr ⟨.extend pairs, rfl⟩
  | insert k vs => exact .inr ⟨.insert k vs, rfl⟩
  | insertAll entries => exact .inr ⟨.insertAll entries, rfl⟩
  | erase k => exact .inr ⟨.erase k, rfl⟩
  | clear => exact .inr ⟨.clear, rfl⟩
  | edit k f => exact .inr ⟨.edit k f, rfl⟩
  | update k f => exact .inr ⟨.update k f, rfl⟩
  | modify k f => exact .inr ⟨.modify k f, rfl⟩
  | modifyAll f => exact .inr ⟨.modifyAll f, rfl⟩
  | setPolicy p => exact .inl ⟨p, rfl⟩
  | query q => exact .inr ⟨.query q, rfl⟩

namespace Request

theorem withoutAbsences_under (r : Request K V) :
    (r.under P).withoutAbsences = r.withoutAbsences.map (under P) := by
  cases r with
  | assign k v => cases v <;> rfl
  | append k v => cases v <;> rfl
  | prepend k v => cases v <;> rfl
  | appendAll k offered => cases offered <;> rfl
  | appendAll? k offered => rcases offered with _ | _ | _ <;> rfl
  | setPolicy p => exact p.elim
  | _ => rfl

theorem settled_under (r : Request K V) (as : List (Answer V)) :
    (r.under P).settled as = r.settled as := by
  cases r with
  | appendAll? k offered => cases offered <;> rfl
  | setPolicy p => exact p.elim
  | _ => rfl

theorem absentEnds_withoutAbsences (r : Request K V) : absentEnds r.withoutAbsences = [] := by
  have hthere (k : K) (offered : List (Option V)) :
      absentEnds [.edit k id, (.appendAll k (offered.filter (·.isSome)) : Request K V)] = [] := by
    rw [absentEnds_eq_nil_iff, List.forall_mem_cons, List.forall_mem_singleton]
    refine ⟨nofun, fun o ho => ?_⟩
    obtain ⟨v, hv, rfl⟩ := List.mem_map.mp ho
    exact (List.mem_filter.mp hv).2
  cases r with
  | assign k v => cases v <;> rfl
  | append k v => cases v <;> rfl
  | prepend k v => cases v <;> rfl
  | appendAll k offered =>
    cases offered with
    | nil => rfl
    | cons v offered => exact hthere k (v :: offered)
  | appendAll? k offered =>
    rcases offered with _ | _ | ⟨v, offered⟩
    · rfl
    · rfl
    · exact hthere k (v :: offered)
  | extend pairs =>
    refine absentEnds_eq_nil_iff.mpr (List.forall_mem_singleton.mpr fun o ho => ?_)
    obtain ⟨e, -, rfl⟩ := List.mem_map.mp ho
    rfl
  | _ => rfl

end Request

/-! ## One request -/

theorem reduceOption_filter (offered : List (Option V)) :
    (offered.filter (·.isSome)).reduceOption = offered.reduceOption := by
  unfold List.reduceOption
  rw [List.filterMap_filter]
  exact List.filterMap_congr fun v _ => by cases v <;> rfl

section

variable [AbsencePolicy P V] {p : P}

/-- A value is appended if it is there. -/
theorem Spares.supply (h : Spares V p) (vs : List V) (v : Option V) :
    (supply p .back vs v).value.2 = vs ++ v.toList ∧
      Spares V (Multimap.supply p .back vs v).value.1 := by
  cases v with
  | none =>
    rw [Option.toList_none, List.append_nil]
    exact ⟨h (.refl p) .back vs, fun _ hq => h (.ask .back vs hq)⟩
  | some v => exact ⟨rfl, h⟩

/-- Of the values offered those that are there are appended. -/
theorem Spares.supplyAll (h : Spares V p) (vs : List V) (offered : List (Option V)) :
    (supplyAll p vs offered).value.2 = vs ++ offered.reduceOption ∧
      Spares V (Multimap.supplyAll p vs offered).value.1 := by
  induction offered generalizing p vs with
  | nil => exact ⟨(List.append_nil vs).symm, h⟩
  | cons v offered ih =>
    obtain ⟨hvs, hpolicy⟩ := h.supply vs v
    have hcons : (v :: offered).reduceOption = v.toList ++ offered.reduceOption := by
      cases v <;> rfl
    rw [supplyAll_cons, Logged.value_bind, hvs, hcons, ← List.append_assoc]
    exact ih hpolicy _

variable [Ord K] [Std.TransOrd K] {m n : Multimap K V P} {k : K}

/-- Under a key that is registered. -/
theorem Spares.appendAll_register (h : Spares V n.policy) (hn : n.store.WellFormed)
    (offered : List (Option V)) :
    ((n.register k).appendAll k offered).value.store =
        n.store.insert k (n.sequence k ++ offered.reduceOption) ∧
      Spares V ((n.register k).appendAll k offered).value.policy := by
  unfold appendAll
  split
  · next hnone =>
    rw [List.isEmpty_iff.mp hnone, List.reduceOption_nil, List.append_nil]
    exact ⟨hn.insert_sequence_eq_register.symm, h⟩
  · obtain ⟨hvs, hpolicy⟩ := h.supplyAll ((n.register k).sequence k) offered
    refine ⟨?_, hpolicy⟩
    show (n.store.register k).insert k
      (Multimap.supplyAll n.policy ((n.register k).sequence k) offered).value.2 = _
    rw [hvs, Store.insert_register]
    unfold sequence register
    rw [Store.sequence_register_self]

/-- Both policies leave sequences as they are. -/
abbrev BothSpare (V : Type) [AbsencePolicy P V] (p q : P) : Prop := Spares V p ∧ Spares V q

omit [AbsencePolicy P V] [Std.TransOrd K] in
/-- A key that is looked up for change is registered, if then it is not changed. -/
theorem modify_register_id (n : Multimap K V P) (k : K) :
    (n.register k).modify k id = n.register k :=
  congrArg (Multimap.mk · n.policy) Store.modify_id

namespace SameStore

/-- An absent value at an end of a sequence registers the key. -/
theorem offer_absent (hmn : SameStore (BothSpare V) m n) (hn : n.store.WellFormed) (k : K)
    (position : Position) :
    SameStore (BothSpare V) (m.offerTo k fun p vs => supply p position vs (none : Option V)).value
      ((n.register k).modify k id) := by
  obtain ⟨hmpolicy, hnpolicy⟩ := hmn.policy
  refine ⟨?_, fun _ hq => hmpolicy (.ask position _ hq), hnpolicy⟩
  show m.store.insert k (effect m.policy position (m.sequence k)) = _
  rw [hmpolicy (.refl _), modify_register_id, hmn.sequence_eq, hmn.store_eq]
  exact hn.insert_sequence_eq_register

/-- Of values some of which may be absent those that are there are appended, and the key is
registered even if there are none. -/
theorem appendAll_there (hmn : SameStore (BothSpare V) m n) (hn : n.store.WellFormed) (k : K)
    (v : Option V) (offered : List (Option V)) :
    SameStore (BothSpare V) (m.appendAll k (v :: offered)).value
      (((n.register k).modify k id).appendAll k ((v :: offered).filter (·.isSome))).value := by
  obtain ⟨hvs, hmpolicy⟩ := hmn.policy.1.supplyAll (m.sequence k) (v :: offered)
  obtain ⟨hstore, hnpolicy⟩ :=
    hmn.policy.2.appendAll_register (k := k) hn ((v :: offered).filter (·.isSome))
  rw [modify_register_id]
  refine ⟨?_, hmpolicy, hnpolicy⟩
  show m.store.insert k (supplyAll m.policy (m.sequence k) (v :: offered)).value.2 = _
  rw [hvs, hstore, reduceOption_filter, hmn.sequence_eq, hmn.store_eq]

variable [BEq V]

/-- **One request**: those in its place are answered so that its own answer can be told, and they
leave the same. -/
theorem withoutAbsences (hmn : SameStore (BothSpare V) m n) (hn : n.store.WellFormed)
    (r : Request K V) :
    ((r.under P).run m).value.1 =
        r.settled (n.run (r.withoutAbsences.map (Request.under P))).value.1 ∧
      SameStore (BothSpare V) ((r.under P).run m).value.2
        (n.run (r.withoutAbsences.map (Request.under P))).value.2 := by
  -- A request without absent values stands in its own place.
  have hself := Spares.mimics.step hmn r
  rw [r.mapOffers_id] at hself
  cases r with
  | assign k v =>
    cases v with
    | none =>
      obtain ⟨hmpolicy, hnpolicy⟩ := hmn.policy
      refine ⟨rfl, ?_, fun _ hq => hmpolicy (.ask .back [] hq), hnpolicy⟩
      show m.store.insert k (effect m.policy .back []) = n.store.insert k []
      rw [hmpolicy (.refl _), hmn.store_eq]
    | some v => exact hself
  | append k v =>
    cases v with
    | none => exact ⟨rfl, hmn.offer_absent hn k .back⟩
    | some v => exact hself
  | prepend k v =>
    cases v with
    | none => exact ⟨rfl, hmn.offer_absent hn k .front⟩
    | some v => exact hself
  | appendAll k offered =>
    cases offered with
    | nil => exact hself
    | cons v offered => exact ⟨rfl, hmn.appendAll_there hn k v offered⟩
  | appendAll? k offered =>
    rcases offered with _ | _ | ⟨v, offered⟩
    · exact hself
    · exact hself
    · exact ⟨rfl, hmn.appendAll_there hn k v offered⟩
  | _ => exact hself

end SameStore

end

/-! ## Runs -/

section

variable [AbsencePolicy P V] [Ord K] [BEq V]

theorem run_concat (m : Multimap K V P) (os os' : List (Operation K V P)) :
    m.run (os ++ os') =
      m.run os >>= fun x => (fun y => (x.1 ++ y.1, y.2)) <$> x.2.run os' := by
  induction os generalizing m with
  | nil => exact (id_map _).symm
  | cons o os ih => simp [run, ih]

theorem length_answers (m : Multimap K V P) (os : List (Operation K V P)) :
    (m.run os).value.1.length = os.length := by
  induction os generalizing m with
  | nil => rfl
  | cons o os ih => exact congrArg Nat.succ (ih _)

/-- Without absent values no policy is asked, and nothing is logged but requests that are
refused. -/
theorem untraced (m : Multimap K V P) (os : List (Operation K V P)) :
    ∀ e ∈ (m.run (os.flatMap Operation.withoutAbsences)).events, e = .valuesMissing := by
  have hblock (m : Multimap K V P) (o : Operation K V P) :
      ∀ e ∈ (m.run o.withoutAbsences).events, e = .valuesMissing := by
    rcases o.eq_setPolicy_or_under with ⟨p, rfl⟩ | ⟨r, rfl⟩
    · exact nofun
    · rw [r.withoutAbsences_under]
      have hrun := runUnder_of_absentEnds r.absentEnds_withoutAbsences m.store m.policy
      have hevents : (m.run (r.withoutAbsences.map (Request.under P))).events =
          r.withoutAbsences.flatMap Request.refusals :=
        (Logged.events_map _ _).symm.trans (congrArg (·.events) hrun)
      rw [hevents]
      intro e he
      obtain ⟨r', -, he⟩ := List.mem_flatMap.mp he
      unfold Request.refusals at he
      split at he
      · exact List.mem_singleton.mp he
      · cases he
  induction os generalizing m with
  | nil => exact nofun
  | cons o os ih =>
    rw [List.flatMap_cons, run_concat, Logged.events_bind, Logged.events_map]
    intro e he
    rcases List.mem_append.mp he with he | he
    · exact hblock m o e he
    · exact ih _ e he

variable [Std.TransOrd K] {m n : Multimap K V P} {os : List (Operation K V P)}

/-- **A run of requests.** -/
theorem SameStore.run_withoutAbsences (hmn : SameStore (BothSpare V) m n) (hm : m.store.WellFormed)
    (hos : ∀ p, .setPolicy p ∈ os → Spares V p) :
    (m.run os).value.1 = settle os (n.run (os.flatMap Operation.withoutAbsences)).value.1 ∧
      SameStore (BothSpare V) (m.run os).value.2
        (n.run (os.flatMap Operation.withoutAbsences)).value.2 := by
  induction os generalizing m n with
  | nil => exact ⟨rfl, hmn⟩
  | cons o os ih =>
    have hstep : (o.run m).value.1 = o.settled (n.run o.withoutAbsences).value.1 ∧
        SameStore (BothSpare V) (o.run m).value.2 (n.run o.withoutAbsences).value.2 := by
      rcases o.eq_setPolicy_or_under with ⟨p, rfl⟩ | ⟨r, rfl⟩
      · have hp := hos p List.mem_cons_self
        exact ⟨rfl, hmn.store_eq, hp, hp⟩
      · rw [r.withoutAbsences_under, r.settled_under]
        exact hmn.withoutAbsences (hmn.store_eq ▸ hm) r
    obtain ⟨hanswer, hafter⟩ := hstep
    obtain ⟨hanswers, hend⟩ :=
      ih hafter (wellFormed_operate hm o) fun p hp => hos p (List.mem_cons_of_mem o hp)
    rw [List.flatMap_cons, run_concat]
    refine ⟨?_, hend⟩
    show (o.run m).value.1 :: ((o.run m).value.2.run os).value.1 =
      settle (o :: os) ((n.run o.withoutAbsences).value.1 ++ _)
    rw [settle_append o os (length_answers n _), hanswer, hanswers]

end

/-! ## Values appended one by one -/

section

variable [Ord K]

/-- The values that are there among those offered for `k`, in order. -/
def added (k : K) (calls : List (K × Option V)) : List V :=
  calls.filterMap fun c => if SameKey k c.1 then c.2 else none

theorem added_cons_of_same {k : K} {c : K × Option V} (h : SameKey k c.1)
    (calls : List (K × Option V)) : added k (c :: calls) = c.2.toList ++ added k calls := by
  unfold added
  rw [List.filterMap_cons, if_pos h]
  cases c.2 <;> rfl

theorem added_cons_of_not_same {k : K} {c : K × Option V} (h : ¬ SameKey k c.1)
    (calls : List (K × Option V)) : added k (c :: calls) = added k calls := by
  unfold added
  rw [List.filterMap_cons, if_neg h]

variable [AbsencePolicy P V] [BEq V]

/-- Appends the values, one after the other. -/
def appends (m : Multimap K V P) (calls : List (K × Option V)) : Multimap K V P :=
  (m.run (calls.map fun c => .append c.1 c.2)).value.2

variable [Std.TransOrd K]

/-- Under a policy that leaves sequences as they are, a key has the spelling in which it was there
or else in which it was first appended to, and its sequence gets the values that are there. -/
theorem find?_appends {m : Multimap K V P} (h : Spares V m.policy) (calls : List (K × Option V))
    (k : K) :
    (m.appends calls).store.find? k =
      (((m.store.find? k).map (·.1)).or ((calls.find? (SameKey k ·.1)).map (·.1))).map
        (·, m.sequence k ++ added k calls) := by
  induction calls generalizing m with
  | nil =>
    show m.store.find? k = _
    unfold sequence Store.sequence Store.get?
    cases m.store.find? k <;> simp [added]
  | cons c calls ih =>
    obtain ⟨j, v⟩ := c
    obtain ⟨hvs, hpolicy⟩ := h.supply (m.sequence j) v
    have hstep : (m.appends ((j, v) :: calls)).store.find? k = _ :=
      ih (m := ⟨m.store.insert j (Multimap.supply m.policy .back (m.sequence j) v).value.2, _⟩)
        hpolicy
    rw [hstep, hvs]
    show Option.map _ (Option.or (Option.map _ ((m.store.insert j _).find? k)) _) = _
    unfold sequence Store.sequence
    rw [Store.find?_insert, Store.get?_insert, List.find?_cons]
    by_cases hk : SameKey j k
    · rw [added_cons_of_same (c := (j, v)) hk.symm, ← List.append_assoc, Store.get?_congr hk]
      cases m.store.find? k <;> simp [hk, hk.symm]
    · have hkj : ¬ SameKey k j := mt SameKey.symm hk
      rw [added_cons_of_not_same (c := (j, v)) hkj]
      simp [hk, hkj]

/-- What is in a map in which there is nothing but values that were appended to it. -/
structure Gathered (calls : List (K × Option V)) (n : Multimap K V P) : Prop where
  /-- The keys are those of the calls. -/
  contains_iff (k : K) : n.contains k = true ↔ ∃ c ∈ calls, SameKey k c.1
  /-- They are spelled as in the first call for them, with the values that are there. -/
  find?_eq (k : K) :
    n.store.find? k = (calls.find? (SameKey k ·.1)).map fun c => (c.1, added k calls)
  get?_eq {k : K} (h : n.contains k = true) : n.get? k = some (added k calls)
  first?_eq (k : K) : n.first? k = calls.findSome? fun c => if SameKey k c.1 then c.2 else none

theorem gathered_appends (a : Arrangement) {p : P} (h : Spares V p) (calls : List (K × Option V)) :
    Gathered calls ((empty a p : Multimap K V P).appends calls) := by
  have hfind (k : K) : ((empty a p : Multimap K V P).appends calls).store.find? k =
      (calls.find? (SameKey k ·.1)).map fun c => (c.1, added k calls) := by
    rw [find?_appends (m := empty a p) h calls k]
    cases calls.find? (SameKey k ·.1) <;> rfl
  have hget (k : K) : ((empty a p : Multimap K V P).appends calls).get? k =
      (calls.find? (SameKey k ·.1)).map fun _ => added k calls := by
    unfold get? Store.get?
    rw [hfind, Option.map_map]
    rfl
  have hcontains (k : K) : ((empty a p : Multimap K V P).appends calls).contains k =
      (calls.find? (SameKey k ·.1)).isSome :=
    (congrArg Option.isSome (hget k)).trans Option.isSome_map
  constructor
  case contains_iff => intro k; rw [hcontains, List.find?_isSome]; simp only [decide_eq_true_eq]
  case find?_eq => exact hfind
  case get?_eq =>
    intro k h
    rw [hcontains] at h
    obtain ⟨c, hc⟩ := Option.isSome_iff_exists.mp h
    rw [hget, hc, Option.map_some]
  case first?_eq =>
    intro k
    have hhead : (added k calls).head? =
        calls.findSome? fun c => if SameKey k c.1 then c.2 else none := List.head?_filterMap
    rw [first?, hget, ← hhead]
    cases hc : calls.find? (SameKey k ·.1) with
    | some c => rfl
    | none =>
      have hnone : added k calls = [] := by
        refine List.filterMap_eq_nil_iff.mpr fun c hmem => if_neg ?_
        simpa using List.find?_eq_none.mp hc c hmem
      rw [hnone]
      rfl

end

/-! ## Absent values erased -/

section

variable [Ord K] [BEq V] [AbsencePolicy P V]

/-- The run of the requests beside the run with the absent values erased. -/
structure Erased (m : Multimap K V P) (os : List (Operation K V P)) : Prop where
  answers_eq :
    (m.run os).value.1 = settle os (m.run (os.flatMap Operation.withoutAbsences)).value.1
  store_eq :
    (m.run os).value.2.store = (m.run (os.flatMap Operation.withoutAbsences)).value.2.store
  untraced : ∀ e ∈ (m.run (os.flatMap Operation.withoutAbsences)).events, e.level ≠ .trace

/-- **Dropping absent values is erasing them**, except that their keys are registered. Under
policies that leave sequences as they are, as those do that drop, a run of requests is answered the
same and leaves the same entries as the run in which keys are looked up for change and sequences are
written in the place of absent values; and nothing is logged then about a value. A map in which
there is nothing but values that were appended to it has the keys of the calls, each of them with
the values that are there. -/
theorem absences_erased [Std.TransOrd K] {m : Multimap K V P} {os : List (Operation K V P)}
    (hm : m.store.WellFormed) (hp : Spares V m.policy)
    (hos : ∀ p, .setPolicy p ∈ os → Spares V p) :
    Erased m os ∧
      (∀ (a : Arrangement) (calls : List (K × Option V)),
        Gathered calls ((empty a m.policy : Multimap K V P).appends calls)) ∧
      Spares V DropAbsent.mk ∧ Spares V (Policy.drop (V := V)) ∧
      Spares V (Policy.silent (V := V)) := by
  have hself : SameStore (BothSpare V) m m := ⟨rfl, hp, hp⟩
  obtain ⟨hanswers, hend⟩ := hself.run_withoutAbsences hm hos
  have herased : Erased m os :=
    ⟨hanswers, hend.store_eq, fun e he => by rw [untraced m os e he]; exact nofun⟩
  exact ⟨herased, fun a calls => gathered_appends a hp calls, DropAbsent.drops.spares,
    Policy.drops.spares, Policy.spares_silent⟩

/-- A bulk of absent values registers its key, and one without values does not; what is assigned to
is emptied. -/
theorem absences_erased_bulk :
    let m : Multimap Int64 Int64 (Policy Int64) := ⟨⟨.sorted, [(3, [30])]⟩, .silent⟩
    let os : List (Operation Int64 Int64 (Policy Int64)) :=
      [.appendAll 2 [none, none], .appendAll 5 [], .setPolicy .drop, .assign 3 none,
        .appendAll? 1 (some [none, some 10]), .prepend 1 none, .query (.first 1)]
    m.store.WellFormed ∧ Spares Int64 m.policy ∧ (∀ p, .setPolicy p ∈ os → Spares Int64 p) ∧
      os.flatMap Operation.withoutAbsences =
        [.edit 2 id, .appendAll 2 [], .appendAll 5 [], .setPolicy .drop, .insert 3 [], .edit 1 id,
          .appendAll 1 [some 10], .edit 1 id, .query (.first 1)] ∧
      Erased m os ∧ (m.run os).value.2.store.entries = [(1, [10]), (2, []), (3, [])] ∧
      ((empty .sorted m.policy).appends [(1, none), (2, some 20), (1, some 10)]).first? 1 =
        some (10 : Int64) := by
  intro m os
  have hm : m.store.WellFormed := ⟨by decide, by decide⟩
  have hos : ∀ p, .setPolicy p ∈ os → Spares Int64 p := by
    intro p hp
    obtain rfl : p = .drop := by simpa [os] using hp
    exact Policy.drops.spares
  obtain ⟨herased, hgathered, -⟩ := absences_erased hm Policy.spares_silent hos
  exact ⟨hm, Policy.spares_silent, hos, rfl, herased, by decide,
    (hgathered .sorted [(1, none), (2, some 20), (1, some 10)]).first?_eq 1⟩

end

end Multimap
