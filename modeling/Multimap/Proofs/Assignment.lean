import Mathlib.Data.List.Forall2
import Multimap.Equality
import Multimap.Proofs.Bulk
import Multimap.Proofs.Interference

/-!
# Values that are assigned

A value that is assigned to a key takes the place of all the values that are there, and the policy,
if it is asked, finds none of them. So it is the same as to write no values under the key and then
to append the one, and it makes no difference what was there before.

Of two assignments to one key the second counts, under the policy that the first has left. That is
what the second alone leaves, unless both values are absent and the policy remembers that it has
been asked before (`Numbering`).

* `Store.DifferAt.insert_eq`: what is written under a key hides what was there.
* `Store.modify_register_const`: a key is emptied where it stands or by writing the empty sequence.
* `assign_eq_append`, `snd_run_emptied`: the key is emptied, and the value appended.
* `assign_assign`, `store_assign_assign`: of two assignments the second counts.
* `store_assign_none_iff`: two absent values beside one.
* **`assign_forgets`**: what an assignment leaves, and what makes no difference to it.
-/

namespace Multimap

variable {K V P : Type} [Ord K]

/-! ## Stores that differ at one key -/

namespace Store

variable {s t : Store K V} {k : K} {vs : List V}

/-- The same keys in the same places and spellings, with the same sequences except under `k`. -/
structure DifferAt (k : K) (s t : Store K V) : Prop where
  arrangement_eq : s.arrangement = t.arrangement
  entries : List.Forall₂ (fun e e' => e.1 = e'.1 ∧ (¬ SameKey k e.1 → e.2 = e'.2))
    s.entries t.entries

namespace DifferAt

theorem keys_eq (h : DifferAt k s t) : s.keys = t.keys := by
  unfold keys
  rw [← List.forall₂_eq_eq_eq, List.forall₂_map_left_iff, List.forall₂_map_right_iff]
  exact h.entries.imp fun _ _ hee' => hee'.1

theorem modify_eq (h : DifferAt k s t) :
    s.modify k (fun _ => vs) = t.modify k fun _ => vs := by
  unfold modify
  rw [Store.mk.injEq, and_iff_right h.arrangement_eq, ← List.forall₂_eq_eq_eq,
    List.forall₂_map_left_iff, List.forall₂_map_right_iff]
  refine h.entries.imp fun e e' ⟨hkey, hsequence⟩ => ?_
  by_cases hk : SameKey k e.1
  · rw [if_pos hk, if_pos (hkey ▸ hk), hkey]
  · rw [if_neg hk, if_neg (hkey ▸ hk)]
    exact Prod.ext hkey (hsequence hk)

/-- **What is written under a key hides what was there.** -/
theorem insert_eq (h : DifferAt k s t) : s.insert k vs = t.insert k vs := by
  have hcontains : s.contains k = t.contains k := by
    rw [contains_eq_any, h.keys_eq, contains_eq_any]
  have hmodify : s.modify k (fun _ => vs) = t.modify k fun _ => vs := h.modify_eq
  cases hs : s.contains k with
  | true =>
    have ht : t.contains k = true := hcontains.symm.trans hs
    rw [insert_of_contains hs, insert_of_contains ht, hmodify]
  | false =>
    have ht : t.contains k = false := hcontains.symm.trans hs
    rw [modify_of_not_contains hs, modify_of_not_contains ht] at hmodify
    rw [hmodify]

end DifferAt

end Store

/-! ## Emptied and appended to -/

variable [Std.TransOrd K]

/-- A key whose sequence is overwritten need not have been registered before. -/
theorem Store.modify_register_const (s : Store K V) (k : K) (vs : List V) :
    (s.register k).modify k (fun _ => vs) = s.insert k vs := by
  rw [← insert_of_contains contains_register_self, insert_register]

variable [AbsencePolicy P V]

/-- **To assign a value** is to write no values and to append the one. -/
theorem assign_eq_append (m : Multimap K V P) (k : K) (v : Option V) :
    m.assign k v = (m.insert k []).append k v := by
  unfold assign append insert sequence
  simp only [Store.sequence_insert_self, Store.insert_insert]

/-- The same as requests, whichever request has emptied the sequence. -/
theorem snd_run_emptied [BEq V] {m : Multimap K V P} {k : K} {o : Operation K V P}
    (ho : Prod.snd <$> o.run m = pure (m.insert k [])) (v : Option V) :
    Prod.snd <$> m.run [o, .append k v] = m.assign k v := by
  rw [snd_run_cons, ho, pure_bind, assign_eq_append]
  exact (snd_run_append (m.insert k []) k [v]).trans (bind_pure _)

/-- Of two assignments the second counts, under the policy that the first has left. -/
theorem assign_assign (m : Multimap K V P) (k : K) (v w : Option V) :
    (m.assign k v >>= fun n => n.assign k w) =
      m.assign k v >>= fun n => (m.withPolicy n.policy).assign k w := by
  unfold assign withPolicy
  simp only [bind_assoc, pure_bind, Store.insert_insert]

/-- So it writes what that policy makes of the empty sequence. -/
theorem store_assign_assign (m : Multimap K V P) (k : K) (v w : Option V) :
    (m.assign k v >>= fun n => n.assign k w).value.store =
      m.store.insert k (supply (m.assign k v).value.policy .back [] w).value.2 := by
  rw [assign_assign]
  rfl

/-- If the policy has no memory, nothing of the first shows. -/
theorem store_assign_memoryless {m : Multimap K V P} (hm : Memoryless V m.policy) (k : K)
    (v w : Option V) :
    (m.assign k v >>= fun n => n.assign k w).value.store = (m.assign k w).value.store := by
  have halike : ActAlike V (m.assign k v).value.policy m.policy :=
    (ActAlike.refl hm).supply .back [] v
  rw [store_assign_assign, (steady_supply .back w).sequence_eq halike []]
  rfl

/-- **Two absent values** leave what one leaves if the policy makes the same of the empty sequence
when it is asked again, and only then. -/
theorem store_assign_none_iff (m : Multimap K V P) (k : K) :
    (m.assign k none >>= fun n => n.assign k none).value.store = (m.assign k none).value.store ↔
      effect (m.assign k none).value.policy .back ([] : List V) = effect m.policy .back [] := by
  have hone : (m.assign k none).value.store = m.store.insert k (effect m.policy .back []) := rfl
  have htwo : (m.assign k none >>= fun n => n.assign k none).value.store =
      m.store.insert k (effect (m.assign k none).value.policy .back []) :=
    store_assign_assign m k none none
  rw [htwo, hone]
  constructor
  · intro h
    have hget := congrArg (·.get? k) h
    simpa only [Store.get?_insert, if_pos (SameKey.refl k), Option.some.injEq] using hget
  · exact congrArg (m.store.insert k)

/-- What the policy makes of the empty sequence is found under the key. -/
theorem get?_assign (m : Multimap K V P) (k : K) (v : Option V) :
    (m.assign k v).value.get? k = some (supply m.policy .back [] v).value.2 := by
  show (m.store.insert k _).get? k = _
  rw [Store.get?_insert, if_pos (SameKey.refl k)]

/-- What an assignment to `k` leaves, and what makes no difference to it. -/
structure Forgets (m : Multimap K V P) (k : K) : Prop where
  /-- The key might as well have its sequence replaced by the empty one, and the value appended. -/
  run_insert [BEq V] (v : Option V) :
    Prod.snd <$> m.run [.insert k [], .append k v] = m.assign k v
  /-- So it might have its sequence emptied where it stands. -/
  run_edit [BEq V] (v : Option V) :
    Prod.snd <$> m.run [.edit k fun _ => [], .append k v] = m.assign k v
  /-- Maps that differ only in the sequence of `k` become the same. -/
  forgets {n : Multimap K V P} (v : Option V) :
    m.policy = n.policy → Store.DifferAt k m.store n.store → m.assign k v = n.assign k v
  /-- Of a value that is there the policy is asked nothing. -/
  some_eq (v : V) : m.assign k (some v) = pure (m.insert k [v])
  get?_some (v : V) : (m.assign k (some v)).value.get? k = some [v]
  /-- Of one that is absent it is asked on the empty sequence. -/
  none_eq : m.assign k none = do
    let (p, vs) ← AbsencePolicy.absent m.policy .back []
    return (m.withPolicy p).insert k vs
  get?_none : (m.assign k none).value.get? k = some (effect m.policy .back [])
  /-- The key is registered. -/
  contains_eq (v : Option V) : (m.assign k v).value.contains k = true
  /-- If it was there before, the keys keep their places and spellings. -/
  keys_eq (v : Option V) : m.contains k = true → (m.assign k v).value.store.keys = m.store.keys
  /-- The other entries are what they were, in their order. -/
  erase_eq (v : Option V) : (m.assign k v).value.store.erase k = m.store.erase k
  /-- Of two assignments the second counts, under the policy that the first has left. -/
  again (v w : Option V) :
    (m.assign k v >>= fun n => n.assign k w).value.store =
      ((m.withPolicy (m.assign k v).value.policy).assign k w).value.store
  /-- If the first value is there, nothing is left of the first assignment. -/
  again_some (v : V) (w : Option V) :
    (m.assign k (some v) >>= fun n => n.assign k w) = m.assign k w
  /-- If the second value is there, nothing of the first shows in the entries. -/
  again_there (v : Option V) (w : V) :
    (m.assign k v >>= fun n => n.assign k (some w)).value.store =
      (m.assign k (some w)).value.store
  /-- If neither is, it is up to the policy, which is asked twice about the empty sequence. -/
  again_none_iff :
    (m.assign k none >>= fun n => n.assign k none).value.store = (m.assign k none).value.store ↔
      effect (m.assign k none).value.policy .back ([] : List V) = effect m.policy .back []
  /-- If the policy has no memory, nothing of the first shows, be the values there or not. -/
  again_memoryless (v w : Option V) : Memoryless V m.policy →
    (m.assign k v >>= fun n => n.assign k w).value.store = (m.assign k w).value.store

/-- **An assignment forgets the values that were there, and nothing else**, over any arrangement and
under any policy. Under a policy to choose from, of two assignments only the second shows. -/
theorem assign_forgets (m : Multimap K V P) (k : K) :
    Forgets m k ∧ ∀ (n : Multimap K V (Policy V)) (v w : Option V),
      (n.assign k v >>= fun n => n.assign k w).value.store = (n.assign k w).value.store := by
  constructor
  · constructor
    case run_insert => exact fun v => snd_run_emptied rfl v
    case run_edit =>
      intro _ v
      refine snd_run_emptied ?_ v
      rw [insert, ← Store.modify_register_const]
      rfl
    case forgets =>
      intro n v hpolicy hstore
      unfold assign
      simp only [hpolicy, hstore.insert_eq]
    case some_eq => exact fun v => rfl
    case get?_some => exact fun v => get?_assign m k (some v)
    case none_eq => rfl
    case get?_none => exact get?_assign m k none
    case contains_eq => exact fun v => Store.contains_insert_self
    case keys_eq => exact fun v => Store.keys_insert_of_contains
    case erase_eq => exact fun v => Store.erase_insert
    case again => exact fun v w => congrArg (·.value.store) (assign_assign m k v w)
    case again_some => exact fun v w => assign_assign m k (some v) w
    case again_there => exact fun v w => store_assign_assign m k v (some w)
    case again_none_iff => exact store_assign_none_iff m k
    case again_memoryless => exact fun v w hm => store_assign_memoryless hm k v w
  · exact fun n v w => store_assign_memoryless n.policy.memoryless k v w

/-- A key is assigned an absent value, for which the policy has a mark: in one of the maps the key
has other values, in neither of them do they show. A value that is assigned after that hides the
mark. -/
theorem assign_forgets_caseless :
    let m : Multimap CaselessText Int64 (Policy Int64) :=
      ⟨⟨.arrival, [(⟨"a"⟩, [1, 2]), (⟨"b"⟩, [3])]⟩, .marks 7 8⟩
    let n : Multimap CaselessText Int64 (Policy Int64) :=
      ⟨⟨.arrival, [(⟨"a"⟩, [5]), (⟨"b"⟩, [3])]⟩, .marks 7 8⟩
    Forgets m ⟨"A"⟩ ∧ m.assign ⟨"A"⟩ none = n.assign ⟨"A"⟩ none ∧
      (m.assign ⟨"A"⟩ none).value.store.entries = [(⟨"a"⟩, [7]), (⟨"b"⟩, [3])] ∧
      (m.assign ⟨"A"⟩ none >>= fun m => m.assign ⟨"A"⟩ (some 4)).value.store.entries =
        [(⟨"a"⟩, [4]), (⟨"b"⟩, [3])] := by
  intro m n
  obtain ⟨hforgets, hsecond⟩ := assign_forgets m ⟨"A"⟩
  have hdiffer : Store.DifferAt ⟨"A"⟩ m.store n.store :=
    ⟨rfl, .cons ⟨rfl, fun hne => absurd (by decide +kernel) hne⟩ (.cons ⟨rfl, fun _ => rfl⟩ .nil)⟩
  refine ⟨hforgets, hforgets.forgets none rfl hdiffer, by decide +kernel, ?_⟩
  rw [hsecond m none (some 4)]
  decide +kernel

/-! ## A policy with a memory -/

/-- A policy that has numbers stand for absent values, one after the other. -/
structure Numbering where
  next : Int64

instance : AbsencePolicy Numbering Int64 where
  absent p position vs := pure (⟨p.next + 1⟩, position.place p.next vs)

/-- Two absent values are numbered, and the second number is not the one that a single absent value
is given. Nor is the outcome of two assignments equal to that of the second if the value is a double
that is not a number, because such a double is not equal to itself. -/
theorem assign_assign_numbering :
    let m : Multimap Int64 Int64 Numbering := empty .arrival ⟨0⟩
    let n : Multimap String Float DropAbsent := empty .arrival ⟨⟩
    (m.assign 7 none).value.store.entries = [(7, [0])] ∧
      (m.assign 7 none >>= fun m => m.assign 7 none).value.store.entries = [(7, [1])] ∧
      (n.assign "k" (some 1) >>= fun n => n.assign "k" (some (0 / 0))).value.equal
        (n.assign "k" (some (0 / 0))).value = false := by
  refine ⟨?_, ?_, ?_⟩ <;> decide +kernel

end Multimap
