import Mathlib.Data.List.Forall2
import Multimap.Operation
import Multimap.Proofs.Layout

/-!
# Runs do not depend on the store

Two maps under the same policy whose stores are alike answer every request in the same way, log the
same events, ask the policy the same questions and stay alike (`Alike.step`), and so do they over a
whole run (`Alike.run`). Neither the arrangement of the entries nor the place at which a store puts
a new key shows in anything but the order of the keys.

A store in an order of no meaning may take on another order whenever it is touched. `Course` is the
run of a map whose store does so after any request: the plain run is one such course
(`Course.run`), and all of them agree.

* **`run_sameCourse`**: runs of maps with the same entries, over any two arrangements, and whatever
  orders the unordered store takes on, are the same course; entries of a sorted store are those of
  the other one, sorted by key.
-/

namespace Multimap

variable {α β γ δ : Type}

/-! ## Computations that agree -/

/-- Computations whose values are related and which log the same. -/
structure Logged.Agree (R : α → β → Prop) (x : Logged α) (y : Logged β) : Prop where
  value : R x.value y.value
  events : x.events = y.events

namespace Logged.Agree

variable {R : α → β → Prop} {S : γ → δ → Prop}

protected theorem pure {a : α} {b : β} (h : R a b) :
    Agree R (pure a : Logged α) (pure b) := ⟨h, rfl⟩

protected theorem bind {x : Logged α} {y : Logged β} {f : α → Logged γ} {g : β → Logged δ}
    (h : Agree R x y) (hf : ∀ {a b}, R a b → Agree S (f a) (g b)) :
    Agree S (x >>= f) (y >>= g) := by
  obtain ⟨hv, he⟩ := hf h.value
  exact ⟨hv, by rw [events_bind, events_bind, h.events, he]⟩

/-- One computation that two go on from. -/
theorem bind_same {x : Logged α} {f : α → Logged γ} {g : α → Logged δ}
    (hf : ∀ a, Agree S (f a) (g a)) : Agree S (x >>= f) (x >>= g) :=
  ⟨(hf x.value).value, by rw [events_bind, events_bind, (hf x.value).events]⟩

/-- Two loops over items that correspond agree when their steps do. -/
theorem foldlM_forall₂ {ι κ : Type} {T : ι → κ → Prop} {f : α → ι → Logged α}
    {g : β → κ → Logged β} (hf : ∀ {a b i j}, T i j → R a b → Agree R (f a i) (g b j))
    {is : List ι} {js : List κ} (hij : List.Forall₂ T is js) {a : α} {b : β} (h : R a b) :
    Agree R (is.foldlM f a) (js.foldlM g b) := by
  induction hij generalizing a b with
  | nil => exact .pure h
  | cons hij _ ih => exact (hf hij h).bind ih

/-- Two loops over the same items. -/
theorem foldlM {ι : Type} {f : α → ι → Logged α} {g : β → ι → Logged β}
    (hf : ∀ {a b} (i : ι), R a b → Agree R (f a i) (g b i)) (is : List ι) {a : α} {b : β}
    (h : R a b) : Agree R (is.foldlM f a) (is.foldlM g b) :=
  foldlM_forall₂ (T := Eq) (fun hij h => hij ▸ hf _ h) (List.forall₂_refl is) h

end Logged.Agree

/-! ## One request -/

variable {K V P : Type} [Ord K] {a b : Arrangement}

/-- Maps under the same policy over stores that are alike. -/
structure Alike (a b : Arrangement) (m n : Multimap K V P) : Prop where
  store : Store.Alike a b m.store n.store
  policy : m.policy = n.policy

/-- The same answers, from maps that are alike. -/
def SameAnswer {A : Type} (a b : Arrangement) (r s : A × Multimap K V P) : Prop :=
  r.1 = s.1 ∧ Alike a b r.2 s.2

namespace Alike

variable [Std.TransOrd K] {m n : Multimap K V P} {k : K} {vs : List V} {f : List V → List V}

omit [Std.TransOrd K] in
theorem containsSequence_eq [BEq V] (h : Alike a b m n) (vs : List V) :
    m.containsSequence vs = n.containsSequence vs := by
  unfold containsSequence
  rw [Bool.eq_iff_iff, List.any_eq_true, List.any_eq_true]
  exact exists_congr fun ws => and_congr_left fun _ => h.store.sequences.mem_iff

theorem answer_eq [BEq V] (h : Alike a b m n) (q : Query K V) : q.answer m = q.answer n := by
  cases q with
  | sequence k => exact congrArg Answer.sequence (h.store.get?_eq k)
  | first k => exact congrArg (fun vs => Answer.value (vs.bind (·.head?))) (h.store.get?_eq k)
  | contains k => exact congrArg Answer.truth (h.store.contains_eq k)
  | containsSequence vs => exact congrArg Answer.truth (h.containsSequence_eq vs)
  | size => exact congrArg Answer.count h.store.size_eq
  | isEmpty => exact congrArg Answer.truth h.store.isEmpty_eq

theorem insert (h : Alike a b m n) : Alike a b (m.insert k vs) (n.insert k vs) :=
  ⟨h.store.insert, h.policy⟩

theorem insertAll (h : Alike a b m n) (es : List (Entry K V)) :
    Alike a b (m.insertAll es) (n.insertAll es) := by
  induction es generalizing m n with
  | nil => exact h
  | cons e es ih => exact ih h.insert

/-- What is offered to the same sequence under the same policy becomes the same, and alike maps that
write it stay alike. -/
theorem write (h : Alike a b m n) (x : Logged (P × List V)) :
    Logged.Agree (Alike a b) (do let (p, vs) ← x; return ⟨m.store.insert k vs, p⟩)
      (do let (p, vs) ← x; return ⟨n.store.insert k vs, p⟩) :=
  .bind_same fun _ => .pure ⟨h.store.insert, rfl⟩

variable [AbsencePolicy P V]

theorem assign (h : Alike a b m n) (v : Option V) :
    Logged.Agree (Alike a b) (m.assign k v) (n.assign k v) := by
  unfold Multimap.assign
  rw [h.policy]
  exact h.write _

theorem append (h : Alike a b m n) (v : Option V) :
    Logged.Agree (Alike a b) (m.append k v) (n.append k v) := by
  unfold Multimap.append Multimap.sequence
  rw [h.policy, h.store.sequence_eq]
  exact h.write _

theorem prepend (h : Alike a b m n) (v : Option V) :
    Logged.Agree (Alike a b) (m.prepend k v) (n.prepend k v) := by
  unfold Multimap.prepend Multimap.sequence
  rw [h.policy, h.store.sequence_eq]
  exact h.write _

theorem accumulate (h : Alike a b m n) (offered : List (Option V)) :
    Logged.Agree (Alike a b) (m.accumulate k offered) (n.accumulate k offered) := by
  unfold Multimap.accumulate Multimap.sequence
  rw [h.policy, h.store.sequence_eq]
  exact h.write _

theorem appendAll (h : Alike a b m n) (offered : List (Option V)) :
    Logged.Agree (Alike a b) (m.appendAll k offered) (n.appendAll k offered) := by
  unfold Multimap.appendAll
  split
  · exact .pure h
  · exact h.accumulate offered

theorem appendAll? (h : Alike a b m n) (offered : Option (List (Option V))) :
    Logged.Agree (SameAnswer a b) (m.appendAll? k offered) (n.appendAll? k offered) := by
  cases offered with
  | none => exact .bind_same fun _ => .pure ⟨rfl, h⟩
  | some offered => exact (h.appendAll offered).bind fun h' => .pure ⟨rfl, h'⟩

theorem extend (h : Alike a b m n) (pairs : List (K × V)) :
    Logged.Agree (Alike a b) (m.extend pairs) (n.extend pairs) :=
  .foldlM (fun e h' => h'.append (some e.2)) pairs h

variable [BEq V]

/-- **One request.** Alike maps answer it alike and log the same, and are alike afterwards. -/
theorem step (h : Alike a b m n) (o : Operation K V P) :
    Logged.Agree (SameAnswer a b) (o.run m) (o.run n) := by
  cases o with
  | assign k v => exact (h.assign v).bind fun h' => .pure ⟨rfl, h'⟩
  | append k v => exact (h.append v).bind fun h' => .pure ⟨rfl, h'⟩
  | prepend k v => exact (h.prepend v).bind fun h' => .pure ⟨rfl, h'⟩
  | appendAll k offered => exact (h.appendAll offered).bind fun h' => .pure ⟨rfl, h'⟩
  | appendAll? k offered =>
    refine (h.appendAll? offered).bind fun {r s} ⟨hr, h'⟩ => ?_
    obtain ⟨_ | _, m'⟩ := r <;> obtain ⟨_ | _, n'⟩ := s <;> cases hr
    all_goals exact .pure ⟨rfl, h'⟩
  | extend pairs => exact (h.extend pairs).bind fun h' => .pure ⟨rfl, h'⟩
  | insert k vs => exact .pure ⟨congrArg Answer.sequence (h.store.get?_eq k), h.insert⟩
  | insertAll es => exact .pure ⟨rfl, h.insertAll es⟩
  | erase k => exact .pure ⟨congrArg Answer.sequence (h.store.get?_eq k), h.store.erase, h.policy⟩
  | clear => exact .pure ⟨rfl, h.store.clear, h.policy⟩
  | edit k f =>
    exact .pure ⟨congrArg Answer.sequence (h.store.register.get?_eq k), h.store.register.modify,
      h.policy⟩
  | update k f =>
    exact .pure ⟨congrArg Answer.sequence (h.store.update.get?_eq k), h.store.update, h.policy⟩
  | modify k f =>
    exact .pure ⟨congrArg Answer.sequence (h.store.get?_eq k), h.store.modify, h.policy⟩
  | modifyAll f =>
    exact .pure ⟨congrArg Answer.count h.store.size_eq, h.store.mapSequences, h.policy⟩
  | setPolicy p => exact .pure ⟨rfl, h.store, rfl⟩
  | query q => exact .pure ⟨h.answer_eq q, h⟩

/-- **A run of requests.** The same answers and events, and maps that are alike at the end. -/
theorem run (h : Alike a b m n) (os : List (Operation K V P)) :
    Logged.Agree (SameAnswer a b) (m.run os) (n.run os) := by
  induction os generalizing m n with
  | nil => exact .pure ⟨rfl, h⟩
  | cons o os ih =>
    refine (h.step o).bind fun {r s} ⟨hr, h'⟩ => (ih h').bind fun {r' s'} ⟨hr', h''⟩ => ?_
    exact .pure ⟨by rw [hr, hr'], h''⟩

end Alike

/-! ## Stores that change their order -/

variable [AbsencePolicy P V] [BEq V]

/-- A run of a map whose store may take on another order after every request, if its order has no
meaning: the answers and events, and the map at the end. -/
inductive Course : Multimap K V P → List (Operation K V P) →
    Logged (List (Answer V) × Multimap K V P) → Prop
  | nil (m : Multimap K V P) : Course m [] (pure ([], m))
  | cons {m m' : Multimap K V P} {o : Operation K V P} {os : List (Operation K V P)}
      {x : Logged (List (Answer V) × Multimap K V P)}
      (relaid : Store.Relaid (o.run m).value.2.store m'.store)
      (policy : m'.policy = (o.run m).value.2.policy) (rest : Course m' os x) :
      Course m (o :: os) (do
        let (a, _) ← o.run m
        let (as, n) ← x
        return (a :: as, n))

/-- The plain run is a course: the store need not change its order. -/
theorem Course.run (m : Multimap K V P) : ∀ os, Course m os (m.run os)
  | [] => .nil m
  | o :: os => .cons ⟨rfl, .refl _, fun _ => rfl⟩ rfl (Course.run (o.run m).value.2 os)

/-- The same answers, events and policy, and the same entries in some order. -/
structure SameCourse (x y : Logged (List (Answer V) × Multimap K V P)) : Prop where
  answers : x.value.1 = y.value.1
  events : x.events = y.events
  policy : x.value.2.policy = y.value.2.policy
  entries : x.value.2.store.entries.Perm y.value.2.store.entries

variable [Std.TransOrd K] {m n : Multimap K V P}

/-- A run agrees with every course of a map that is alike. -/
theorem Alike.course (h : Alike a b m n) {os : List (Operation K V P)}
    {y : Logged (List (Answer V) × Multimap K V P)} (hy : Course n os y) :
    Logged.Agree (SameAnswer a b) (m.run os) y := by
  induction hy generalizing m with
  | nil n => exact .pure ⟨rfl, h⟩
  | @cons n n' o os x hr hp _ ih =>
    obtain ⟨⟨hanswer, hstep⟩, hevents⟩ := h.step o
    have hrest := ih ⟨hstep.store.relaid hr, hstep.policy.trans hp.symm⟩
    refine ⟨⟨?_, hrest.value.2⟩, ?_⟩
    · show (o.run m).value.1 :: _ = (o.run n).value.1 :: _
      rw [hanswer, hrest.value.1]
    · show (o.run m).events ++ (_ ++ []) = (o.run n).events ++ (_ ++ [])
      rw [hevents, hrest.events]

omit [AbsencePolicy P V] [BEq V] [Std.TransOrd K] in
theorem SameCourse.of_agree {x y : Logged (List (Answer V) × Multimap K V P)}
    (h : Logged.Agree (SameAnswer a b) x y) : SameCourse x y :=
  ⟨h.value.1, h.events, h.value.2.policy, h.value.2.store.entries⟩

/-- **Runs do not depend on the store.** Maps under the same policy with the same entries, whatever
their arrangements, answer a run of requests alike, log the same, and end under the same policy with
the same entries; so they do when the store changes its order on the way. Sorted entries are the
other map's, sorted by key. -/
theorem run_sameCourse (hm : m.store.WellFormed) (hn : n.store.WellFormed)
    (hp : m.policy = n.policy) (he : m.store.entries.Perm n.store.entries)
    (os : List (Operation K V P)) :
    SameCourse (m.run os) (n.run os) ∧
      (∀ y, Course n os y → SameCourse (m.run os) y) ∧
      (n.store.arrangement = .sorted →
        (n.run os).value.2.store.entries = Store.byKey (m.run os).value.2.store.entries) := by
  have h : Alike m.store.arrangement n.store.arrangement m n :=
    ⟨⟨⟨hm, rfl⟩, ⟨hn, rfl⟩, he⟩, hp⟩
  refine ⟨.of_agree (h.run os), fun y hy => .of_agree (h.course hy), fun hs => ?_⟩
  have hend := (h.run os).value.2.store
  rw [hs] at hend
  exact hend.right.entries_eq_byKey hend.entries

/-- Keys in two spellings, one of them unregistered and registered anew, under a policy that
counts. -/
theorem run_sameCourse_caseless :
    let os : List (Operation CaselessText Int64 (Policy Int64)) :=
      [.append ⟨"b"⟩ none, .erase ⟨"A"⟩, .extend [(⟨"c"⟩, 5), (⟨"A"⟩, 7)], .assign ⟨"C"⟩ none]
    let m : Multimap CaselessText Int64 (Policy Int64) :=
      ⟨⟨.arrival, [(⟨"B"⟩, [1]), (⟨"a"⟩, [2])]⟩, .counting []⟩
    let n : Multimap CaselessText Int64 (Policy Int64) :=
      ⟨⟨.sorted, [(⟨"a"⟩, [2]), (⟨"B"⟩, [1])]⟩, .counting []⟩
    m.store.WellFormed ∧ n.store.WellFormed ∧ m.policy = n.policy ∧
      m.store.entries.Perm n.store.entries ∧ SameCourse (m.run os) (n.run os) ∧
      (n.run os).value.2.store.entries = Store.byKey (m.run os).value.2.store.entries ∧
      m.run os = ⟨([.done, .sequence (some [2]), .done, .done],
        ⟨⟨.arrival, [(⟨"B"⟩, [1]), (⟨"c"⟩, []), (⟨"A"⟩, [7])]⟩,
          .counting [(.back, 1), (.back, 0)]⟩), []⟩ ∧
      (n.run os).value.2.store.entries = [(⟨"A"⟩, [7]), (⟨"B"⟩, [1]), (⟨"c"⟩, [])] := by
  intro os m n
  have hm : m.store.WellFormed := ⟨by decide +kernel, by decide +kernel⟩
  have hn : n.store.WellFormed := ⟨by decide +kernel, by decide +kernel⟩
  have he : m.store.entries.Perm n.store.entries := .swap _ _ _
  obtain ⟨hrun, -, hsorted⟩ := run_sameCourse hm hn rfl he os
  have hend : m.run os = ⟨([.done, .sequence (some [2]), .done, .done],
      ⟨⟨.arrival, [(⟨"B"⟩, [1]), (⟨"c"⟩, []), (⟨"A"⟩, [7])]⟩,
        .counting [(.back, 1), (.back, 0)]⟩), []⟩ := by
    simp [m, os, run, Operation.run, assign, append, extend, erase, supply, sequence, get?,
      Store.insert, Store.erase, Store.contains, Store.sequence, Store.get?, Store.find?,
      Store.modify, Position.place, Arrangement.place, AbsencePolicy.absent, Policy.respond,
      Policy.events, Logged.mk_bind, CaselessText.sameKey_iff_letters]
  have hlaid : Store.LaidOut .sorted (⟨.sorted, [(⟨"A"⟩, [7]), (⟨"B"⟩, [1]), (⟨"c"⟩, [])]⟩ :
      Store CaselessText Int64) := ⟨⟨by decide +kernel, by decide +kernel⟩, rfl⟩
  refine ⟨hm, hn, rfl, he, hrun, hsorted rfl, hend, ?_⟩
  rw [hsorted rfl, hend]
  exact (hlaid.entries_eq_byKey (List.perm_append_singleton _ [_, _])).symm

end Multimap
