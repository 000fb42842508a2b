import Multimap.Proofs.Requests

/-!
# What policies are asked in a run

A run of requests asks the policy of the map about the absent values that it is offered, about each
of them once, in their order, for the end and on the sequence that it was meant for, and it asks
nothing else. `Incident` is such a question, or a request that is refused; `incidents` lists those
of a run.

* `run_handle`: the policy is at the end what the incidents have made of it, and what was logged is
  what was logged at the incidents.
* `ends_incidents`: under every policy there is an incident for each absent value.
* `Mimics.incidents_eq`: policies that make the same of every sequence meet the same incidents.
* `Spares.record_incidents`: under a policy that leaves the sequences as they are, the incidents are
  the absent values with the lengths of their sequences (`absences`).
* **`absences_reach_policy`**: what a policy that drops logs is what the policy that counts notes,
  and it is what is absent.
-/

namespace Multimap

variable {K V P Q : Type}

/-! ## Incidents -/

/-- What a run comes upon. -/
inductive Incident (V : Type)
  /-- An absent value for an end of a sequence, about which the policy is asked. -/
  | absent (position : Position) (vs : List V)
  /-- A collection of values that is missing. -/
  | refusal

/-- The end and the length of the sequence, if a policy is asked. -/
def Incident.record? : Incident V → Option (Position × Nat)
  | absent position vs => some (position, vs.length)
  | refusal => none

/-- A value that is offered is an incident if it is absent. -/
def incident (position : Position) (vs : List V) : Option V → List (Incident V)
  | some _ => []
  | none => [.absent position vs]

section

variable [AbsencePolicy P V]

/-- The policy after an incident, and what is logged. -/
def Incident.handle (p : P) : Incident V → Logged P
  | absent position vs => Prod.fst <$> AbsencePolicy.absent p position vs
  | refusal => do
    Logged.log .valuesMissing
    return p

/-- The incidents when values are offered one after the other for the back of a sequence. -/
def incidentsAll (p : P) (vs : List V) : List (Option V) → List (Incident V)
  | [] => []
  | v :: offered =>
    let s := (supply p .back vs v).value
    incident .back vs v ++ incidentsAll s.1 s.2 offered

variable [Ord K]

/-- The incidents of a request to the map. -/
def Request.incidents (m : Multimap K V P) : Request K V → List (Incident V)
  | .assign _ v => incident .back [] v
  | .append k v => incident .back (m.sequence k) v
  | .prepend k v => incident .front (m.sequence k) v
  | .appendAll k offered | .appendAll? k (some offered) =>
    incidentsAll m.policy (m.sequence k) offered
  | .appendAll? _ none => [.refusal]
  | _ => []

variable [BEq V]

/-- The incidents of a run of requests. -/
def incidents (m : Multimap K V P) : List (Request K V) → List (Incident V)
  | [] => []
  | r :: rs => r.incidents m ++ incidents ((r.under P).run m).value.2 rs

/-! ## The policy and the log after a run -/

omit [Ord K] [AbsencePolicy P V] [BEq V] in
/-- How a computation goes on is decided by its value. -/
theorem Logged.bind_eq_of_value {α β γ : Type} {x : Logged α} {f : α → Logged γ} {h : α → β}
    {g : β → Logged γ} (heq : f x.value = g (h x.value)) : x >>= f = (h <$> x) >>= g := by
  refine Logged.ext ?_ ?_
  · rw [value_bind, value_bind, value_map, heq]
  · rw [events_bind, events_bind, events_map, value_map, heq]

omit [Ord K] [BEq V] in
theorem supply_handle (p : P) (position : Position) (vs : List V) (v : Option V) :
    Prod.fst <$> supply p position vs v = (incident position vs v).foldlM Incident.handle p := by
  cases v with
  | none => exact (bind_pure _).symm
  | some v => rfl

omit [Ord K] [BEq V] in
theorem supplyAll_handle (p : P) (vs : List V) (offered : List (Option V)) :
    Prod.fst <$> supplyAll p vs offered = (incidentsAll p vs offered).foldlM Incident.handle p := by
  induction offered generalizing p vs with
  | nil => rfl
  | cons v offered ih =>
    rw [supplyAll_cons, map_bind, incidentsAll, List.foldlM_append, ← supply_handle]
    exact Logged.bind_eq_of_value (ih _ _)

/-- The policy after a computation that answers and leaves a map, and what it logs. -/
def policyOf {A : Type} (x : Logged (A × Multimap K V P)) : Logged P := (·.2.policy) <$> x

omit [AbsencePolicy P V] [BEq V] in
theorem policyOf_offerTo (a : Answer V) (m : Multimap K V P) (k : K)
    (f : P → List V → Logged (P × List V)) :
    policyOf (do return (a, ← m.offerTo k f)) = Prod.fst <$> f m.policy (m.sequence k) :=
  Logged.ext rfl (by simp [policyOf, offerTo])

omit [BEq V] in
theorem policyOf_appendAll (a : Answer V) (m : Multimap K V P) (k : K)
    (offered : List (Option V)) :
    policyOf (do return (a, ← m.appendAll k offered)) =
      (incidentsAll m.policy (m.sequence k) offered).foldlM Incident.handle m.policy := by
  cases offered with
  | nil => rfl
  | cons v offered =>
    exact (policyOf_offerTo a m k fun p vs => supplyAll p vs (v :: offered)).trans
      (supplyAll_handle ..)

omit [AbsencePolicy P V] [BEq V] in
theorem policy_insertAll (m : Multimap K V P) (es : List (Entry K V)) :
    (m.insertAll es).policy = m.policy := by
  induction es generalizing m with
  | nil => rfl
  | cons e es ih => exact ih (m.insert e.1 e.2)

omit [BEq V] in
/-- Of pairs the policy is asked nothing: their values are there. -/
theorem policy_extend (m : Multimap K V P) (pairs : List (K × V)) :
    Multimap.policy <$> m.extend pairs = pure m.policy := by
  induction pairs generalizing m with
  | nil => rfl
  | cons e pairs ih => exact ih ⟨m.store.insert e.1 (m.sequence e.1 ++ [e.2]), m.policy⟩

/-- **One request**: the policy is asked about its incidents, and nothing else is logged. -/
theorem Request.policyOf_run (m : Multimap K V P) (r : Request K V) :
    policyOf ((r.under P).run m) = (r.incidents m).foldlM Incident.handle m.policy := by
  cases r with
  | assign k v =>
    exact (policyOf_offerTo _ _ k fun p _ => supply p .back [] v).trans (supply_handle ..)
  | append k v =>
    exact (policyOf_offerTo _ _ k fun p vs => supply p .back vs v).trans (supply_handle ..)
  | prepend k v =>
    exact (policyOf_offerTo _ _ k fun p vs => supply p .front vs v).trans (supply_handle ..)
  | appendAll k offered => exact policyOf_appendAll _ m k offered
  | appendAll? k offered =>
    cases offered with
    | none => rfl
    | some offered =>
      refine Eq.trans ?_ (policyOf_appendAll .accepted m k offered)
      exact Logged.ext rfl (by simp [policyOf, Operation.run, under, Multimap.appendAll?])
  | extend pairs =>
    refine Eq.trans ?_ (policy_extend m pairs)
    exact Logged.ext rfl (by simp [policyOf, Operation.run, under])
  | insertAll es => exact congrArg pure (policy_insertAll m es)
  | setPolicy p => exact p.elim
  | _ => rfl

/-- **A run of requests**: the policy is asked about the incidents of the run, and nothing else is
logged. -/
theorem run_handle (m : Multimap K V P) (rs : List (Request K V)) :
    policyOf (m.run (rs.map (Request.under P))) =
      (incidents m rs).foldlM Incident.handle m.policy := by
  induction rs generalizing m with
  | nil => rfl
  | cons r rs ih =>
    have hcons : policyOf (m.run ((r :: rs).map (Request.under P))) =
        (r.under P).run m >>= fun x => policyOf (x.2.run (rs.map (Request.under P))) := by
      simp only [policyOf, List.map_cons, run, map_eq_pure_bind, bind_assoc, pure_bind]
    rw [hcons, incidents, List.foldlM_append, ← r.policyOf_run m]
    exact Logged.bind_eq_of_value (ih _)

/-! ## Which incidents there are -/

/-- The ends for which requests offer absent values, in order. -/
def absentEnds (rs : List (Request K V)) : List Position :=
  ((rs.flatMap Request.offers).filter (·.2.isNone)).map (·.1)

omit [AbsencePolicy P V] [Ord K] [BEq V] in
theorem absentEnds_eq_nil_iff {rs : List (Request K V)} :
    absentEnds rs = [] ↔ ∀ r ∈ rs, ∀ o ∈ r.offers, o.2.isSome = true := by
  rw [absentEnds, List.map_eq_nil_iff, List.filter_eq_nil_iff, List.forall_mem_flatMap]
  simp only [Bool.not_eq_true, Option.isNone_eq_false_iff]

/-- What is logged about requests that are refused. -/
def Request.refusals : Request K V → List Event
  | .appendAll? _ none => [.valuesMissing]
  | _ => []

/-- What is logged about an incident, whatever the policy. -/
def Incident.event? : Incident V → Option Event
  | absent _ _ => none
  | refusal => some .valuesMissing

omit [Ord K] [BEq V] in
theorem ends_incidentsAll (p : P) (vs : List V) (offered : List (Option V)) :
    ((incidentsAll p vs offered).filterMap Incident.record?).map (·.1) =
      ((offered.map (Position.back, ·)).filter (·.2.isNone)).map (·.1) := by
  induction offered generalizing p vs with
  | nil => rfl
  | cons v offered ih => cases v <;> simp [incidentsAll, incident, Incident.record?, ih]

omit [Ord K] [BEq V] in
theorem event_incidentsAll (p : P) (vs : List V) (offered : List (Option V)) :
    (incidentsAll p vs offered).filterMap Incident.event? = [] := by
  induction offered generalizing p vs with
  | nil => rfl
  | cons v offered ih =>
    rw [incidentsAll, List.filterMap_append, ih]
    cases v <;> rfl

omit [BEq V] in
theorem Request.ends_incidents (m : Multimap K V P) (r : Request K V) :
    ((r.incidents m).filterMap Incident.record?).map (·.1) =
      (r.offers.filter (·.2.isNone)).map (·.1) := by
  cases r with
  | assign k v => cases v <;> rfl
  | append k v => cases v <;> rfl
  | prepend k v => cases v <;> rfl
  | appendAll k offered => exact ends_incidentsAll ..
  | appendAll? k offered =>
    cases offered with
    | none => rfl
    | some offered => exact ends_incidentsAll ..
  | extend pairs =>
    -- The values of pairs are there.
    have hthere : (offers (.extend pairs : Request K V)).filter (·.2.isNone) = [] := by
      rw [offers, List.filter_map, List.filter_eq_nil_iff.mpr (by simp), List.map_nil]
    exact (congrArg (List.map (·.1)) hthere).symm
  | _ => rfl

omit [BEq V] in
theorem Request.event_incidents (m : Multimap K V P) (r : Request K V) :
    (r.incidents m).filterMap Incident.event? = r.refusals := by
  cases r with
  | assign k v => cases v <;> rfl
  | append k v => cases v <;> rfl
  | prepend k v => cases v <;> rfl
  | appendAll k offered => exact event_incidentsAll ..
  | appendAll? k offered =>
    cases offered with
    | none => rfl
    | some offered => exact event_incidentsAll ..
  | _ => rfl

/-- **Under every policy** there is an incident for each absent value, in order and for its end. -/
theorem ends_incidents (m : Multimap K V P) (rs : List (Request K V)) :
    ((incidents m rs).filterMap Incident.record?).map (·.1) = absentEnds rs := by
  induction rs generalizing m with
  | nil => rfl
  | cons r rs ih =>
    have hrest := ih ((r.under P).run m).value.2
    unfold absentEnds at hrest ⊢
    simp only [incidents, List.filterMap_append, List.map_append, List.flatMap_cons,
      List.filter_append, r.ends_incidents, hrest]

theorem event_incidents (m : Multimap K V P) (rs : List (Request K V)) :
    (incidents m rs).filterMap Incident.event? = rs.flatMap Request.refusals := by
  induction rs generalizing m with
  | nil => rfl
  | cons r rs ih =>
    simp only [incidents, List.filterMap_append, List.flatMap_cons, r.event_incidents, ih]

end

/-! ## Policies that meet the same incidents -/

namespace Mimics

variable [AbsencePolicy P V] [AbsencePolicy Q V] {R : P → Q → Prop}

theorem incidentsAll (h : Mimics (V := V) R fun _ v => v) {p : P} {q : Q} (hpq : R p q)
    (vs : List V) (offered : List (Option V)) :
    incidentsAll p vs offered = incidentsAll q vs offered := by
  induction offered generalizing p q vs with
  | nil => rfl
  | cons v offered ih =>
    obtain ⟨hvs, hpq'⟩ := h.supply .back v hpq vs
    show incident .back vs v ++ _ = incident .back vs v ++ _
    rw [ih hpq', hvs]

variable [Ord K] {m : Multimap K V P} {n : Multimap K V Q}

theorem request_incidents (h : Mimics (V := V) R fun _ v => v) (hmn : SameStore R m n)
    (r : Request K V) : r.incidents m = r.incidents n := by
  have hall (k : K) (offered : List (Option V)) :
      Multimap.incidentsAll m.policy (m.sequence k) offered =
        Multimap.incidentsAll n.policy (n.sequence k) offered := by
    rw [hmn.sequence_eq k]
    exact h.incidentsAll hmn.policy _ offered
  cases r with
  | append k v => exact congrArg (incident .back · v) (hmn.sequence_eq k)
  | prepend k v => exact congrArg (incident .front · v) (hmn.sequence_eq k)
  | appendAll k offered => exact hall k offered
  | appendAll? k offered =>
    cases offered with
    | none => rfl
    | some offered => exact hall k offered
  | _ => rfl

/-- Policies that make the same of every sequence meet the same incidents. -/
theorem incidents_eq [BEq V] (h : Mimics (V := V) R fun _ v => v) (hmn : SameStore R m n)
    (rs : List (Request K V)) : incidents m rs = incidents n rs := by
  induction rs generalizing m n with
  | nil => rfl
  | cons r rs ih =>
    have hstep := (h.step hmn r).2
    rw [r.mapOffers_id] at hstep
    show r.incidents m ++ _ = r.incidents n ++ _
    rw [h.request_incidents hmn r, ih hstep]

end Mimics

/-! ## Policies that drop, that count and that log nothing -/

/-- The policy drops absent values, logs every one of them, and stays what it is. -/
def Drops (V : Type) [AbsencePolicy P V] (p : P) : Prop :=
  ∀ (position : Position) (vs : List V),
    AbsencePolicy.absent p position vs = ⟨(p, vs), [.dropped position vs.length]⟩

/-- The policy logs nothing, whatever it is asked before. -/
def Quiet (V : Type) [AbsencePolicy P V] (p : P) : Prop :=
  ∀ ⦃q : P⦄, Becomes V p q → ∀ (position : Position) (vs : List V),
    (AbsencePolicy.absent q position vs).events = []

theorem DropAbsent.drops : Drops V DropAbsent.mk := fun _ _ => rfl

theorem Policy.drops : Drops V (Policy.drop (V := V)) := fun _ _ => rfl

/-- Of the policies to choose from only the one that drops logs anything. -/
theorem Policy.quiet {p : Policy V} (hp : p ≠ .drop) : Quiet V p := by
  intro q hq
  induction hq with
  | refl p =>
    intro position vs
    cases p with
    | drop => exact absurd rfl hp
    | _ => rfl
  | @ask p q position vs _ ih =>
    refine ih ?_
    cases p <;> cases position <;> first | exact absurd rfl hp | exact nofun

/-- What a policy that drops logs about an incident. -/
def Incident.event : Incident V → Event
  | absent position vs => .dropped position vs.length
  | refusal => .valuesMissing

theorem filter_trace_event (is : List (Incident V)) :
    (is.map Incident.event).filter (·.level = .trace) =
      (is.filterMap Incident.record?).map fun a => .dropped a.1 a.2 := by
  induction is with
  | nil => rfl
  | cons i is ih =>
    cases i with
    | absent position vs => exact congrArg (Event.dropped position vs.length :: ·) ih
    | refusal => exact ih

theorem filter_debug_event (is : List (Incident V)) :
    (is.map Incident.event).filter (·.level = .debug) = is.filterMap Incident.event? := by
  induction is with
  | nil => rfl
  | cons i is ih =>
    cases i with
    | absent position vs => exact ih
    | refusal => exact congrArg (Event.valuesMissing :: ·) ih

section

variable [AbsencePolicy P V] {p : P}

theorem Drops.handle (h : Drops V p) (is : List (Incident V)) :
    is.foldlM Incident.handle p = ⟨p, is.map Incident.event⟩ := by
  induction is with
  | nil => rfl
  | cons i is ih =>
    have hi : i.handle p = ⟨p, [i.event]⟩ := by
      cases i with
      | absent position vs => rw [Incident.handle, h position vs]; rfl
      | refusal => rfl
    rw [List.foldlM_cons, hi, Logged.mk_bind, ih]
    rfl

theorem Quiet.handle (h : Quiet V p) (is : List (Incident V)) :
    (is.foldlM Incident.handle p).events = is.filterMap Incident.event? := by
  induction is generalizing p with
  | nil => rfl
  | cons i is ih =>
    rw [List.foldlM_cons, Logged.events_bind]
    cases i with
    | absent position vs =>
      have hasked : Quiet V (AbsencePolicy.absent p position vs).value.1 :=
        fun _ hq => h (.ask position vs hq)
      have hnothing : (Incident.handle p (.absent position vs)).events = [] :=
        (Logged.events_map ..).trans (h (.refl p) position vs)
      rw [hnothing]
      exact ih hasked
    | refusal => exact congrArg (Event.valuesMissing :: ·) (ih h)

end

theorem counting_handle (seen : List (Position × Nat)) (is : List (Incident V)) :
    is.foldlM Incident.handle (.counting seen : Policy V) =
      ⟨.counting (seen ++ is.filterMap Incident.record?), is.filterMap Incident.event?⟩ := by
  induction is generalizing seen with
  | nil => rw [List.filterMap_nil, List.append_nil]; rfl
  | cons i is ih =>
    have hi : i.handle (.counting seen : Policy V) =
        ⟨.counting (seen ++ i.record?.toList), i.event?.toList⟩ := by
      cases i with
      | absent position vs => rfl
      | refusal =>
        show _ = (⟨.counting (seen ++ []), [.valuesMissing]⟩ : Logged (Policy V))
        rw [List.append_nil]
        rfl
    rw [List.foldlM_cons, hi, Logged.mk_bind, ih, List.append_assoc]
    cases i <;> rfl

/-! ### Sequences left as they are -/

/-- The policy leaves every sequence as it is, whatever it is asked before. -/
def Spares (V : Type) [AbsencePolicy P V] (p : P) : Prop :=
  ∀ ⦃q : P⦄, Becomes V p q → ∀ (position : Position) (vs : List V), effect q position vs = vs

theorem Drops.eq_of_becomes [AbsencePolicy P V] {p q : P} (h : Drops V p) (hq : Becomes V p q) :
    q = p := by
  induction hq with
  | refl => rfl
  | @ask p q position vs _ ih =>
    rw [h position vs] at ih
    exact ih h

theorem Drops.spares [AbsencePolicy P V] {p : P} (h : Drops V p) : Spares V p := by
  intro q hq position vs
  rw [h.eq_of_becomes hq, effect, h position vs]

theorem Policy.spares_counting (seen : List (Position × Nat)) :
    Spares V (.counting seen : Policy V) :=
  fun _ hq position vs => (Policy.counting seen).memoryless hq position vs

theorem Policy.spares_silent : Spares V (Policy.silent (V := V)) := Policy.silent.memoryless

/-- Policies that leave every sequence as it is make the same of it. -/
theorem Spares.mimics [AbsencePolicy P V] [AbsencePolicy Q V] :
    Mimics (V := V) (fun (p : P) (q : Q) => Spares V p ∧ Spares V q) fun _ v => v where
  some_eq _ _ := rfl
  supply := by
    rintro position v p q ⟨hp, hq⟩ vs
    cases v with
    | none =>
      refine ⟨?_, fun _ hr => hp (.ask position vs hr), fun _ hr => hq (.ask position vs hr)⟩
      exact (hp (.refl p) position vs).trans (hq (.refl q) position vs).symm
    | some v => exact ⟨rfl, hp, hq⟩

/-! ## The absent values of a run -/

/-- The absent values among those offered for the back of a sequence of length `n`, each of them
with the length that the sequence has by then, if absent values are dropped. -/
def absencesAmong (n : Nat) : List (Option V) → List (Position × Nat)
  | [] => []
  | none :: offered => (.back, n) :: absencesAmong n offered
  | some _ :: offered => absencesAmong (n + 1) offered

section

variable [Ord K]

/-- The absent values of a request, each of them with its end and the length of its sequence. A
sequence that is assigned to is empty. -/
def Request.absences (s : Store K V) : Request K V → List (Position × Nat)
  | .assign _ none => [(.back, 0)]
  | .append k none => [(.back, (s.sequence k).length)]
  | .prepend k none => [(.front, (s.sequence k).length)]
  | .appendAll k offered | .appendAll? k (some offered) =>
    absencesAmong (s.sequence k).length offered
  | _ => []

/-- The absent values of a run of requests, if they are dropped. -/
def absences [BEq V] (s : Store K V) : List (Request K V) → List (Position × Nat)
  | [] => []
  | r :: rs =>
    r.absences s ++ absences ((r.under DropAbsent).run ⟨s, ⟨⟩⟩).value.2.store rs

omit [Ord K] in
theorem record_incidentsAll (vs : List V) (offered : List (Option V)) :
    (incidentsAll DropAbsent.mk vs offered).filterMap Incident.record? =
      absencesAmong vs.length offered := by
  induction offered generalizing vs with
  | nil => rfl
  | cons v offered ih =>
    cases v with
    | none => exact congrArg ((Position.back, vs.length) :: ·) (ih vs)
    | some v =>
      have hrest := ih (vs ++ [v])
      rw [List.length_append] at hrest
      exact hrest

theorem Request.record_incidents (s : Store K V) (r : Request K V) :
    (r.incidents (⟨s, ⟨⟩⟩ : Multimap K V DropAbsent)).filterMap Incident.record? =
      r.absences s := by
  cases r with
  | assign k v => cases v <;> rfl
  | append k v => cases v <;> rfl
  | prepend k v => cases v <;> rfl
  | appendAll k offered => exact record_incidentsAll ..
  | appendAll? k offered =>
    cases offered with
    | none => rfl
    | some offered => exact record_incidentsAll ..
  | _ => rfl

/-- Under the policy that drops, the incidents are the absent values. -/
theorem record_incidents [BEq V] (s : Store K V) (rs : List (Request K V)) :
    (incidents (⟨s, ⟨⟩⟩ : Multimap K V DropAbsent) rs).filterMap Incident.record? =
      absences s rs := by
  induction rs generalizing s with
  | nil => rfl
  | cons r rs ih =>
    rw [incidents, List.filterMap_append, r.record_incidents]
    exact congrArg _ (ih _)

/-- A policy that leaves every sequence as it is meets the same incidents. -/
theorem Spares.record_incidents [BEq V] [AbsencePolicy P V] {p : P} (h : Spares V p)
    (s : Store K V) (rs : List (Request K V)) :
    (incidents ⟨s, p⟩ rs).filterMap Incident.record? = absences s rs := by
  rw [← Multimap.record_incidents s rs]
  have hsame : SameStore (fun p q => Spares V p ∧ Spares V q) (⟨s, p⟩ : Multimap K V P)
      (⟨s, ⟨⟩⟩ : Multimap K V DropAbsent) := ⟨rfl, h, DropAbsent.drops.spares⟩
  rw [Spares.mimics.incidents_eq hsame rs]

/-! ## What reaches the policy -/

variable [BEq V]

theorem events_runUnder [AbsencePolicy P V] (s : Store K V) (p : P) (rs : List (Request K V)) :
    (s.runUnder p rs).events = ((incidents ⟨s, p⟩ rs).foldlM Incident.handle p).events :=
  (Logged.events_map _ _).symm.trans (congrArg (·.events) (run_handle ⟨s, p⟩ rs))

theorem policy_runUnder [AbsencePolicy P V] (s : Store K V) (p : P) (rs : List (Request K V)) :
    (s.runUnder p rs).value.2.policy =
      ((incidents ⟨s, p⟩ rs).foldlM Incident.handle p).value :=
  congrArg (·.value) (run_handle ⟨s, p⟩ rs)

/-- The run of the requests under a policy that drops beside their run under the one that counts. -/
structure DroppedAndCounted [AbsencePolicy P V] (s : Store K V) (p : P)
    (rs : List (Request K V)) : Prop where
  answers_eq : (s.runUnder p rs).value.1 = (s.runUnder (.counting [] : Policy V) rs).value.1
  store_eq :
    (s.runUnder p rs).value.2.store = (s.runUnder (.counting [] : Policy V) rs).value.2.store
  /-- What is logged at level `trace` are the absent values. -/
  traced : (s.runUnder p rs).events.filter (·.level = .trace) =
    (absences s rs).map fun a => .dropped a.1 a.2
  /-- What is noted are the absent values. -/
  counted : (s.runUnder (.counting [] : Policy V) rs).value.2.policy = .counting (absences s rs)
  /-- They are the values that the requests do not have, each of them once and in order. -/
  ends_eq : (absences s rs).map (·.1) = absentEnds rs
  /-- What is logged at level `debug` are the requests that are refused. -/
  debugged : (s.runUnder p rs).events.filter (·.level = .debug) = rs.flatMap Request.refusals
  /-- Under the policy that counts, nothing else is logged. -/
  refused : (s.runUnder (.counting [] : Policy V) rs).events = rs.flatMap Request.refusals

/-- The run of the requests under any policy. -/
structure AskedOnce [AbsencePolicy P V] (s : Store K V) (p : P) (rs : List (Request K V)) :
    Prop where
  /-- The policy is asked about the incidents, one after the other, and nothing else is logged. -/
  policyOf_eq : policyOf (s.runUnder p rs) = (incidents ⟨s, p⟩ rs).foldlM Incident.handle p
  /-- There is one for each of the values that the requests do not have, in order. -/
  ends_eq : ((incidents ⟨s, p⟩ rs).filterMap Incident.record?).map (·.1) = absentEnds rs
  /-- If the policy logs nothing, all that is logged are the requests that are refused. -/
  refused : Quiet V p → (s.runUnder p rs).events = rs.flatMap Request.refusals

theorem Drops.droppedAndCounted [AbsencePolicy P V] {p : P} (h : Drops V p) (s : Store K V)
    (rs : List (Request K V)) : DroppedAndCounted s p rs := by
  have hspares : Spares V (.counting [] : Policy V) := Policy.spares_counting []
  have hsame : SameStore (fun p q => Spares V p ∧ Spares V q) (⟨s, p⟩ : Multimap K V P)
      (⟨s, .counting []⟩ : Multimap K V (Policy V)) := ⟨rfl, h.spares, hspares⟩
  have hrun := Spares.mimics.run hsame rs
  rw [funext Request.mapOffers_id, List.map_id'] at hrun
  have hrecords := h.spares.record_incidents s rs
  have hevents := event_incidents ⟨s, p⟩ rs
  exact {
    answers_eq := hrun.1
    store_eq := hrun.2.store_eq
    traced := by rw [events_runUnder, h.handle, filter_trace_event, hrecords]
    counted := by
      rw [policy_runUnder, counting_handle, hspares.record_incidents, List.nil_append]
    ends_eq := by rw [← hrecords, ends_incidents]
    debugged := by rw [events_runUnder, h.handle, filter_debug_event, hevents]
    refused := by rw [events_runUnder, counting_handle, event_incidents] }

theorem askedOnce [AbsencePolicy P V] (s : Store K V) (p : P) (rs : List (Request K V)) :
    AskedOnce s p rs where
  policyOf_eq := run_handle ⟨s, p⟩ rs
  ends_eq := ends_incidents ⟨s, p⟩ rs
  refused h := by rw [events_runUnder, h.handle, event_incidents]

/-- **Every absent value reaches the policy once.** What a policy that drops logs is what the policy
that counts notes: the absent values that are offered, in order, each of them with its end and the
length of its sequence at that moment; the two answer the same and leave the same entries. Every
policy is asked about each of the absent values and about nothing else, and of the policies to
choose from none but the one that drops has anything logged about them. -/
theorem absences_reach_policy [AbsencePolicy P V] {p : P} (h : Drops V p) (s : Store K V)
    (rs : List (Request K V)) :
    DroppedAndCounted s p rs ∧
      (∀ (Q : Type) [AbsencePolicy Q V] (q : Q), AskedOnce s q rs) ∧
      ∀ q : Policy V, q ≠ .drop → Quiet V q :=
  ⟨h.droppedAndCounted s rs, fun _ _ q => askedOnce s q rs, fun _ hq => Policy.quiet hq⟩

/-- Five values are absent; the sequence that is assigned to is empty by then. -/
theorem absences_reach_policy_bulk :
    let s : Store Int64 Int64 := ⟨.sorted, [(1, [10])]⟩
    let rs : List (Request Int64 Int64) :=
      [.append 1 none, .appendAll? 2 none, .appendAll 1 [some 11, none, some 12, none],
        .extend [(2, 20)], .prepend 2 none, .assign 1 none, .query (.first 1)]
    absences s rs = [(.back, 1), (.back, 2), (.back, 3), (.front, 1), (.back, 0)] ∧
      rs.flatMap Request.refusals = [.valuesMissing] ∧
      Drops Int64 (.drop : Policy Int64) ∧ DroppedAndCounted s (.drop : Policy Int64) rs ∧
      Quiet Int64 (.wipe : Policy Int64) ∧ AskedOnce s (.wipe : Policy Int64) rs := by
  intro s rs
  obtain ⟨hcounted, hasked, hquiet⟩ := absences_reach_policy Policy.drops s rs
  exact ⟨by decide, by decide, Policy.drops, hcounted, hquiet .wipe nofun, hasked _ Policy.wipe⟩

end

end Multimap
