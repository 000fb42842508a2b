import Multimap.Operation
import Multimap.Store.Lemmas

/-!
# Keys do not interfere

What becomes of a key in a run of requests, and what is answered about it, is decided by the
requests about that key. `restrict k` leaves out of a run every request about another key, and of
bulk requests the part that is; a run and what is left of it come to the same entry of `k` and to
the same answers about `k`.

Only a policy could carry something from one key to another. A policy may count or note what it is
asked, as long as that does not show in the sequences (`Memoryless`); all the policies to choose
from are of this kind (`Policy.memoryless`).

* `AgreeAt k m n`: the maps have the same entry of `k`, and policies that act alike.
* `AgreeAt.same_key`, `AgreeAt.other_key`, `AgreeAt.no_key`: one request, by the key that it is
  about.
* `AgreeAt.run`: a run of requests beside what is left of it.
* **`run_restrict`**: both come to the same entry and to the same answers.
-/

namespace Multimap

variable {K V P : Type}

/-! ## Policies that act alike -/

section

variable [AbsencePolicy P V]

/-- What an absent value at an end makes of a sequence. -/
def effect (p : P) (position : Position) (vs : List V) : List V :=
  (AbsencePolicy.absent p position vs).value.2

/-- The first policy may be the second after it has been asked a number of times. -/
inductive Becomes (V : Type) [AbsencePolicy P V] : P → P → Prop
  | refl (p : P) : Becomes V p p
  | ask {p q : P} (position : Position) (vs : List V)
      (h : Becomes V (AbsencePolicy.absent p position vs).value.1 q) : Becomes V p q

theorem Becomes.trans {p q r : P} (h : Becomes V p q) (h' : Becomes V q r) : Becomes V p r := by
  induction h with
  | refl => exact h'
  | ask position vs _ ih => exact .ask position vs (ih h')

/-- What the policy makes of a sequence depends on the sequence and the end alone, not on what it
has been asked before. -/
def Memoryless (V : Type) [AbsencePolicy P V] (p : P) : Prop :=
  ∀ ⦃q : P⦄, Becomes V p q → ∀ (position : Position) (vs : List V),
    effect q position vs = effect p position vs

/-- Memoryless policies that make the same of every sequence. -/
structure ActAlike (V : Type) [AbsencePolicy P V] (p q : P) : Prop where
  left : Memoryless V p
  right : Memoryless V q
  effect_eq : ∀ (position : Position) (vs : List V), effect p position vs = effect q position vs

namespace ActAlike

variable {p q : P}

theorem refl (h : Memoryless V p) : ActAlike V p p := ⟨h, h, fun _ _ => rfl⟩

theorem symm (h : ActAlike V p q) : ActAlike V q p :=
  ⟨h.right, h.left, fun position vs => (h.effect_eq position vs).symm⟩

/-- One of them may be asked without the other. -/
theorem ask (h : ActAlike V p q) (position : Position) (vs : List V) :
    ActAlike V (AbsencePolicy.absent p position vs).value.1 q := by
  have hasked : ∀ position' (ws : List V),
      effect (AbsencePolicy.absent p position vs).value.1 position' ws = effect p position' ws :=
    h.left (.ask position vs (.refl _))
  refine ⟨fun r hr position' ws => ?_, h.right, fun position' ws => ?_⟩
  · rw [hasked]
    exact h.left (.ask position vs hr) position' ws
  · rw [hasked]
    exact h.effect_eq position' ws

theorem supply (h : ActAlike V p q) (position : Position) (vs : List V) (v : Option V) :
    ActAlike V (supply p position vs v).value.1 q := by
  cases v with
  | none => exact h.ask position vs
  | some v => exact h

end ActAlike

/-- A way to offer something to a sequence in which policies that act alike act alike. -/
structure Steady (offer : P → List V → Logged (P × List V)) : Prop where
  sequence_eq {p q : P} (h : ActAlike V p q) (vs : List V) :
    (offer p vs).value.2 = (offer q vs).value.2
  alike {p q : P} (h : ActAlike V p q) (vs : List V) : ActAlike V (offer p vs).value.1 q

theorem Steady.alike_both {offer : P → List V → Logged (P × List V)} (ho : Steady offer) {p q : P}
    (h : ActAlike V p q) (vs ws : List V) :
    ActAlike V (offer p vs).value.1 (offer q ws).value.1 :=
  (ho.alike (ho.alike h vs).symm ws).symm

theorem steady_supply (position : Position) (v : Option V) :
    Steady fun (p : P) (vs : List V) => supply p position vs v := by
  refine ⟨fun h vs => ?_, fun h vs => h.supply position vs v⟩
  cases v with
  | none => exact h.effect_eq position vs
  | some v => rfl

theorem steady_supplyAll (offered : List (Option V)) :
    Steady fun (p : P) (vs : List V) => supplyAll p vs offered := by
  induction offered with
  | nil => exact ⟨fun _ _ => rfl, fun h _ => h⟩
  | cons v offered ih =>
    have hone := steady_supply (P := P) .back v
    constructor
    · intro p q h vs
      rw [supplyAll_cons, supplyAll_cons, Logged.value_bind, Logged.value_bind,
        hone.sequence_eq h vs]
      exact ih.sequence_eq (hone.alike_both h vs vs) _
    · intro p q h vs
      rw [supplyAll_cons, Logged.value_bind]
      exact ih.alike (hone.alike h vs) _

/-- The same offer, to an empty sequence in the place of the one that is there. -/
theorem Steady.anew {offer : P → List V → Logged (P × List V)} (ho : Steady offer) :
    Steady fun p _ => offer p [] :=
  ⟨fun h _ => ho.sequence_eq h [], fun h _ => ho.alike h []⟩

end

/-- No policy to choose from lets what it has seen show in a sequence. -/
theorem Policy.memoryless (p : Policy V) : Memoryless V p := by
  intro q h
  induction h with
  | refl => exact fun _ _ => rfl
  | @ask p q position vs _ ih =>
    intro position' ws
    rw [ih]
    cases p <;> cases position <;> rfl

/-! ## Requests about a key -/

/-- The key that a request is about, if it is about one. -/
def Operation.key? : Operation K V P → Option K
  | assign k _ | append k _ | prepend k _ | appendAll k _ | appendAll? k _ | insert k _ | erase k
  | edit k _ | update k _ | modify k _ => some k
  | query (.sequence k) | query (.first k) | query (.contains k) => some k
  | extend _ | insertAll _ | clear | modifyAll _ | setPolicy _ | query _ => none

variable [Ord K]

/-- Whether a request is about the key `k`. -/
def Operation.isAbout (k : K) (o : Operation K V P) : Bool := o.key?.any (SameKey k ·)

/-- What is left of a request without the parts of it about keys other than `k`. -/
def Operation.restrict (k : K) : Operation K V P → Option (Operation K V P)
  | extend pairs => some (extend (pairs.filter (SameKey k ·.1)))
  | insertAll entries => some (insertAll (entries.filter (SameKey k ·.1)))
  | o => if o.key?.all (SameKey k ·) then some o else none

/-- What is left of a run of requests without those about keys other than `k`. -/
def restrict (k : K) (os : List (Operation K V P)) : List (Operation K V P) :=
  os.filterMap (Operation.restrict k)

/-- The requests about `k` with their answers. -/
def answersAbout (k : K) (os : List (Operation K V P)) (as : List (Answer V)) :
    List (Operation K V P × Answer V) :=
  (os.zip as).filter (·.1.isAbout k)

/-! ## Maps that agree at a key -/

/-- The same entry of `k`, under policies that act alike. -/
structure AgreeAt [AbsencePolicy P V] (k : K) (m n : Multimap K V P) : Prop where
  find?_eq : m.store.find? k = n.store.find? k
  policy : ActAlike V m.policy n.policy

/-- Offers something to the sequence of `k` and writes what comes of it. -/
def offerTo (m : Multimap K V P) (k : K) (offer : P → List V → Logged (P × List V)) :
    Logged (Multimap K V P) := do
  let (p, vs) ← offer m.policy (m.sequence k)
  return ⟨m.store.insert k vs, p⟩

namespace AgreeAt

variable [Std.TransOrd K] [AbsencePolicy P V] {k j : K} {m n : Multimap K V P} {p q : P}
  {vs : List V} {f : List V → List V} {offer : P → List V → Logged (P × List V)}

omit [Std.TransOrd K] in
theorem of_store {s t : Store K V} (hs : s.find? k = t.find? k) (hp : ActAlike V p q) :
    AgreeAt k ⟨s, p⟩ ⟨t, q⟩ := ⟨hs, hp⟩

theorem get?_eq (h : AgreeAt k m n) (hj : SameKey k j) : m.get? j = n.get? j := by
  unfold get? Store.get?
  rw [← Store.find?_congr hj, h.find?_eq, Store.find?_congr hj]

theorem sequence_eq (h : AgreeAt k m n) (hj : SameKey k j) : m.sequence j = n.sequence j :=
  congrArg (·.getD []) (h.get?_eq hj)

/-! ### At the key itself -/

theorem insert (h : AgreeAt k m n) (hp : ActAlike V p q) :
    AgreeAt k ⟨m.store.insert j vs, p⟩ ⟨n.store.insert j vs, q⟩ :=
  .of_store (by rw [Store.find?_insert, Store.find?_insert, h.find?_eq]) hp

theorem modify (h : AgreeAt k m n) : AgreeAt k (m.modify j f) (n.modify j f) :=
  .of_store (by rw [Store.find?_modify, Store.find?_modify, h.find?_eq]) h.policy

theorem register (h : AgreeAt k m n) : AgreeAt k (m.register j) (n.register j) :=
  .of_store (by rw [Store.find?_register, Store.find?_register, h.find?_eq]) h.policy

theorem erase (h : AgreeAt k m n) : AgreeAt k (m.erase j) (n.erase j) :=
  .of_store (by rw [Store.find?_erase, Store.find?_erase, h.find?_eq]) h.policy

omit [Std.TransOrd K] in
theorem mapSequences (h : AgreeAt k m n) : AgreeAt k (m.mapSequences f) (n.mapSequences f) :=
  .of_store (by rw [Store.find?_mapSequences, Store.find?_mapSequences, h.find?_eq]) h.policy

theorem offerTo (h : AgreeAt k m n) (hj : SameKey k j) (ho : Steady offer) :
    AgreeAt k (m.offerTo j offer).value (n.offerTo j offer).value := by
  show AgreeAt k ⟨m.store.insert j (offer m.policy (m.sequence j)).value.2, _⟩
    ⟨n.store.insert j (offer n.policy (n.sequence j)).value.2, _⟩
  rw [h.sequence_eq hj, ho.sequence_eq h.policy]
  exact h.insert (ho.alike_both h.policy _ _)

theorem appendAll (h : AgreeAt k m n) (hj : SameKey k j) (offered : List (Option V)) :
    AgreeAt k (m.appendAll j offered).value (n.appendAll j offered).value := by
  unfold Multimap.appendAll
  split
  · exact h
  · exact h.offerTo hj (steady_supplyAll offered)

/-! ### At another key, in one of the maps only -/

theorem insert_other (h : AgreeAt k m n) (hj : ¬ SameKey k j) (hp : ActAlike V p n.policy) :
    AgreeAt k ⟨m.store.insert j vs, p⟩ n :=
  .of_store (by rw [Store.find?_insert, if_neg (mt SameKey.symm hj), h.find?_eq]) hp

theorem modify_other (h : AgreeAt k m n) (hj : ¬ SameKey k j) : AgreeAt k (m.modify j f) n :=
  .of_store (by rw [Store.find?_modify, if_neg (mt SameKey.symm hj), h.find?_eq]) h.policy

theorem register_other (h : AgreeAt k m n) (hj : ¬ SameKey k j) : AgreeAt k (m.register j) n :=
  .of_store (by rw [Store.find?_register, if_neg (mt SameKey.symm hj), h.find?_eq]) h.policy

theorem erase_other (h : AgreeAt k m n) (hj : ¬ SameKey k j) : AgreeAt k (m.erase j) n :=
  .of_store (by rw [Store.find?_erase, if_neg (mt SameKey.symm hj), h.find?_eq]) h.policy

theorem offerTo_other (h : AgreeAt k m n) (hj : ¬ SameKey k j) (ho : Steady offer) :
    AgreeAt k (m.offerTo j offer).value n :=
  h.insert_other hj (ho.alike h.policy _)

theorem appendAll_other (h : AgreeAt k m n) (hj : ¬ SameKey k j) (offered : List (Option V)) :
    AgreeAt k (m.appendAll j offered).value n := by
  unfold Multimap.appendAll
  split
  · exact h
  · exact h.offerTo_other hj (steady_supplyAll offered)

/-! ### Bulk requests -/

theorem extend (h : AgreeAt k m n) (pairs : List (K × V)) :
    AgreeAt k (m.extend pairs).value (n.extend (pairs.filter (SameKey k ·.1))).value := by
  induction pairs generalizing m n with
  | nil => exact h
  | cons e pairs ih =>
    by_cases he : SameKey k e.1
    · rw [List.filter_cons_of_pos (by simpa using he)]
      exact ih (h.offerTo he (steady_supply .back (some e.2)))
    · rw [List.filter_cons_of_neg (by simpa using he)]
      exact ih (h.offerTo_other he (steady_supply .back (some e.2)))

theorem insertAll (h : AgreeAt k m n) (es : List (Entry K V)) :
    AgreeAt k (m.insertAll es) (n.insertAll (es.filter (SameKey k ·.1))) := by
  induction es generalizing m n with
  | nil => exact h
  | cons e es ih =>
    by_cases he : SameKey k e.1
    · rw [List.filter_cons_of_pos (by simpa using he)]
      exact ih (h.insert h.policy)
    · rw [List.filter_cons_of_neg (by simpa using he)]
      exact ih (h.insert_other he h.policy)

/-! ### One request -/

variable [BEq V] {o : Operation K V P}

/-- A request about `k` is answered the same. -/
theorem same_key (h : AgreeAt k m n) (ho : o.key? = some j) (hj : SameKey k j) :
    (o.run m).value.1 = (o.run n).value.1 ∧
      AgreeAt k (o.run m).value.2 (o.run n).value.2 := by
  cases o with
  | assign i v => cases ho; exact ⟨rfl, h.offerTo hj (steady_supply .back v).anew⟩
  | append i v => cases ho; exact ⟨rfl, h.offerTo hj (steady_supply .back v)⟩
  | prepend i v => cases ho; exact ⟨rfl, h.offerTo hj (steady_supply .front v)⟩
  | appendAll i offered => cases ho; exact ⟨rfl, h.appendAll hj offered⟩
  | appendAll? i offered =>
    cases ho
    cases offered with
    | none => exact ⟨rfl, h⟩
    | some offered => exact ⟨rfl, h.appendAll hj offered⟩
  | insert i vs =>
    cases ho
    exact ⟨congrArg Answer.sequence (h.get?_eq hj), h.insert h.policy⟩
  | erase i => cases ho; exact ⟨congrArg Answer.sequence (h.get?_eq hj), h.erase⟩
  | edit i f =>
    cases ho
    exact ⟨congrArg Answer.sequence (h.register.get?_eq hj), h.register.modify⟩
  | update i f =>
    cases ho
    have hwrite : AgreeAt k ⟨m.store.update j f, m.policy⟩ ⟨n.store.update j f, n.policy⟩ := by
      unfold Store.update
      rw [show m.store.sequence j = n.store.sequence j from h.sequence_eq hj]
      exact h.insert h.policy
    exact ⟨congrArg Answer.sequence (hwrite.get?_eq hj), hwrite⟩
  | modify i f => cases ho; exact ⟨congrArg Answer.sequence (h.get?_eq hj), h.modify⟩
  | query q =>
    refine ⟨?_, h⟩
    cases q with
    | sequence i => cases ho; exact congrArg Answer.sequence (h.get?_eq hj)
    | first i =>
      cases ho
      exact congrArg (fun vs => Answer.value (vs.bind (·.head?))) (h.get?_eq hj)
    | contains i => cases ho; exact congrArg (fun vs => Answer.truth vs.isSome) (h.get?_eq hj)
    | _ => cases ho
  | _ => cases ho

/-- A request about another key might as well not be made. -/
theorem other_key (h : AgreeAt k m n) (ho : o.key? = some j) (hj : ¬ SameKey k j) :
    AgreeAt k (o.run m).value.2 n := by
  cases o with
  | assign i v => cases ho; exact h.offerTo_other hj (steady_supply .back v).anew
  | append i v => cases ho; exact h.offerTo_other hj (steady_supply .back v)
  | prepend i v => cases ho; exact h.offerTo_other hj (steady_supply .front v)
  | appendAll i offered => cases ho; exact h.appendAll_other hj offered
  | appendAll? i offered =>
    cases ho
    cases offered with
    | none => exact h
    | some offered => exact h.appendAll_other hj offered
  | insert i vs => cases ho; exact h.insert_other hj h.policy
  | erase i => cases ho; exact h.erase_other hj
  | edit i f => cases ho; exact (h.register_other hj).modify_other hj
  | update i f => cases ho; exact h.insert_other hj h.policy
  | modify i f => cases ho; exact h.modify_other hj
  | query q => exact h
  | _ => cases ho

/-- A request about no single key does to `k` what is left of it does. -/
theorem no_key (h : AgreeAt k m n) (ho : o.key? = none)
    (hpolicy : ∀ p, o = .setPolicy p → Memoryless V p) :
    ∃ o', o.restrict k = some o' ∧ o'.key? = none ∧
      AgreeAt k (o.run m).value.2 (o'.run n).value.2 := by
  cases o with
  | extend pairs => exact ⟨_, rfl, rfl, h.extend pairs⟩
  | insertAll es => exact ⟨_, rfl, rfl, h.insertAll es⟩
  | clear => exact ⟨_, rfl, rfl, .of_store rfl h.policy⟩
  | modifyAll f => exact ⟨_, rfl, rfl, h.mapSequences⟩
  | setPolicy p => exact ⟨_, rfl, rfl, .of_store h.find?_eq (.refl (hpolicy p rfl))⟩
  | query q => exact ⟨_, if_pos (by rw [ho]; rfl), ho, h⟩
  | _ => cases ho

end AgreeAt

/-! ## Runs -/

theorem Operation.restrict_eq {o : Operation K V P} {k j : K} (ho : o.key? = some j) :
    o.restrict k = if SameKey k j then some o else none := by
  cases o with
  | extend _ | insertAll _ => cases ho
  | _ => simp only [restrict, ho, Option.all_some, decide_eq_true_eq]

theorem answersAbout_cons_of_pos {k : K} {o : Operation K V P} (ho : o.isAbout k = true)
    (os : List (Operation K V P)) (a : Answer V) (as : List (Answer V)) :
    answersAbout k (o :: os) (a :: as) = (o, a) :: answersAbout k os as :=
  List.filter_cons_of_pos ho

theorem answersAbout_cons_of_neg {k : K} {o : Operation K V P} (ho : o.isAbout k = false)
    (os : List (Operation K V P)) (a : Answer V) (as : List (Answer V)) :
    answersAbout k (o :: os) (a :: as) = answersAbout k os as :=
  List.filter_cons_of_neg (by simpa using ho)

variable [Std.TransOrd K] [AbsencePolicy P V] [BEq V] {k : K} {m n : Multimap K V P}

/-- The same answers about `k`, and the same entry. -/
theorem AgreeAt.run (h : AgreeAt k m n) {os : List (Operation K V P)}
    (hos : ∀ p, .setPolicy p ∈ os → Memoryless V p) :
    answersAbout k os (m.run os).value.1 =
        answersAbout k (restrict k os) (n.run (restrict k os)).value.1 ∧
      AgreeAt k (m.run os).value.2 (n.run (restrict k os)).value.2 := by
  induction os generalizing m n with
  | nil => exact ⟨rfl, h⟩
  | cons o os ih =>
    have hos' : ∀ p, .setPolicy p ∈ os → Memoryless V p :=
      fun p hp => hos p (List.mem_cons_of_mem _ hp)
    unfold restrict
    cases ho : o.key? with
    | none =>
      have hpolicy : ∀ p, o = .setPolicy p → Memoryless V p := by
        rintro p rfl
        exact hos p List.mem_cons_self
      obtain ⟨o', ho', hkey, hstep⟩ := h.no_key ho hpolicy
      obtain ⟨hanswers, hend⟩ := ih hstep hos'
      have hnot : o.isAbout k = false := by rw [Operation.isAbout, ho]; rfl
      have hnot' : o'.isAbout k = false := by rw [Operation.isAbout, hkey]; rfl
      rw [List.filterMap_cons_some ho']
      refine ⟨?_, hend⟩
      exact (answersAbout_cons_of_neg hnot _ _ _).trans
        (hanswers.trans (answersAbout_cons_of_neg hnot' _ _ _).symm)
    | some j =>
      by_cases hj : SameKey k j
      · obtain ⟨hanswer, hstep⟩ := h.same_key ho hj
        obtain ⟨hanswers, hend⟩ := ih hstep hos'
        have habout : o.isAbout k = true := by rw [Operation.isAbout, ho]; exact decide_eq_true hj
        rw [List.filterMap_cons_some ((Operation.restrict_eq ho).trans (if_pos hj))]
        refine ⟨?_, hend⟩
        refine (answersAbout_cons_of_pos habout _ _ _).trans
          (Eq.trans ?_ (answersAbout_cons_of_pos habout _ _ _).symm)
        rw [hanswer, hanswers]
        rfl
      · have hnot : o.isAbout k = false := by
          rw [Operation.isAbout, ho]
          exact decide_eq_false hj
        obtain ⟨hanswers, hend⟩ := ih (h.other_key ho hj) hos'
        rw [List.filterMap_cons_none ((Operation.restrict_eq ho).trans (if_neg hj))]
        exact ⟨(answersAbout_cons_of_neg hnot _ _ _).trans hanswers, hend⟩

/-- **Keys do not interfere.** A run of requests leaves the same entry of `k` (whether there is one,
its spelling and its sequence) as the run without the requests about other keys, and what is asked
about `k` on the way is answered the same, as long as no policy of the run has a memory. -/
theorem run_restrict (k : K) (hm : Memoryless V m.policy) {os : List (Operation K V P)}
    (hos : ∀ p, .setPolicy p ∈ os → Memoryless V p) :
    (m.run os).value.2.store.find? k = (m.run (restrict k os)).value.2.store.find? k ∧
      answersAbout k os (m.run os).value.1 =
        answersAbout k (restrict k os) (m.run (restrict k os)).value.1 := by
  have h : AgreeAt k m m := ⟨rfl, .refl hm⟩
  obtain ⟨hanswers, hend⟩ := h.run hos
  exact ⟨hend.find?_eq, hanswers⟩

/-- What is left of a run at `a`: the counting policy was asked about another key only, and a policy
that turns sequences around at the front takes its place. -/
theorem run_restrict_caseless :
    let os : List (Operation CaselessText Int64 (Policy Int64)) :=
      [.append ⟨"b"⟩ none, .extend [(⟨"c"⟩, 5), (⟨"a"⟩, 7)], .setPolicy .wipe, .erase ⟨"C"⟩,
        .prepend ⟨"a"⟩ none, .query (.first ⟨"A"⟩)]
    let left : List (Operation CaselessText Int64 (Policy Int64)) :=
      [.extend [(⟨"a"⟩, 7)], .setPolicy .wipe, .prepend ⟨"a"⟩ none, .query (.first ⟨"A"⟩)]
    let m : Multimap CaselessText Int64 (Policy Int64) :=
      ⟨⟨.sorted, [(⟨"A"⟩, [2]), (⟨"b"⟩, [1])]⟩, .counting []⟩
    restrict ⟨"a"⟩ os = left ∧
      Memoryless Int64 m.policy ∧ (∀ p, .setPolicy p ∈ os → Memoryless Int64 p) ∧
      (m.run os).value.2.store.find? ⟨"a"⟩ = (m.run left).value.2.store.find? ⟨"a"⟩ ∧
      answersAbout ⟨"a"⟩ os (m.run os).value.1 =
        answersAbout ⟨"a"⟩ left (m.run left).value.1 ∧
      (m.run os).value.2.store.find? ⟨"a"⟩ = some (⟨"A"⟩, [7, 2]) ∧
      (answersAbout ⟨"a"⟩ os (m.run os).value.1).map (·.2) = [.done, .value (some 7)] := by
  intro os left m
  have hleft : restrict ⟨"a"⟩ os = left := by
    simp [os, left, restrict, Operation.restrict, Operation.key?,
      CaselessText.sameKey_iff_letters]
  have hm : Memoryless Int64 m.policy := Policy.memoryless _
  have hos : ∀ p, .setPolicy p ∈ os → Memoryless Int64 p := fun p _ => p.memoryless
  obtain ⟨hentry, hanswers⟩ := run_restrict (m := m) ⟨"a"⟩ hm hos
  rw [hleft] at hentry hanswers
  have hend : (m.run left).value.2.store.find? ⟨"a"⟩ = some (⟨"A"⟩, [7, 2]) ∧
      (answersAbout ⟨"a"⟩ left (m.run left).value.1).map (·.2) = [.done, .value (some 7)] := by
    simp [m, left, run, Operation.run, extend, append, prepend, withPolicy, supply, sequence, get?,
      first?, Query.answer, Store.insert, Store.contains, Store.sequence, Store.get?, Store.find?,
      Store.modify, Position.place, answersAbout, Operation.isAbout, Operation.key?,
      AbsencePolicy.absent, Policy.respond, CaselessText.sameKey_iff_letters]
  refine ⟨hleft, hm, hos, hentry, hanswers, hentry.trans hend.1, ?_⟩
  rw [hanswers, hend.2]

end Multimap
