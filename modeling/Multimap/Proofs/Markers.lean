import Mathlib.Data.List.Basic
import Mathlib.Logic.IsEmpty.Basic
import Multimap.Proofs.Absences

/-!
# Markers

A policy that has a marker stand for every absent value (`Marks`) comes to the same as offering the
marker in the first place: the run of some requests under it and the run of the same requests with
the markers filled in (`Request.fill`), under whatever policy, are answered the same and leave the
same entries. In the second run the policy is never asked.

* `Marks.mimics`: what is made of one value.
* `runUnder_of_absentEnds`: without absent values the policy is not asked.
* `sameOutcome_of_absentEnds`: without absent values all policies come to the same.
* **`marker_runs_filled`**: a run under a policy that marks, and the run with the markers filled in.
-/

namespace Multimap

variable {K V P Q : Type}

/-! ## Requests with the markers filled in -/

/-- One of two, by the end of the sequence. -/
def Position.pick (back front : V) : Position → V
  | .back => back
  | .front => front

/-- The value, or the marker of that end if it is absent. -/
def fill (back front : V) (position : Position) (v : Option V) : Option V :=
  some (v.getD (position.pick back front))

namespace Request

variable {g : Position → Option V → Option V}

/-- The request with `back` offered for each absent value at the back and `front` for each at the
front. -/
def fill (back front : V) : Request K V → Request K V := mapOffers (Multimap.fill back front)

theorem offers_mapOffers (hg : ∀ (position : Position) (v : V), g position (some v) = some v)
    (r : Request K V) : (r.mapOffers g).offers = r.offers.map fun o => (o.1, g o.1 o.2) := by
  cases r with
  | appendAll k offered => simp [mapOffers, offers]
  | appendAll? k offered => cases offered <;> simp [mapOffers, offers]
  | extend pairs => simp [mapOffers, offers, hg]
  | _ => rfl

theorem mapOffers_eq_self {r : Request K V} (h : ∀ o ∈ r.offers, g o.1 o.2 = o.2) :
    r.mapOffers g = r := by
  have hall : ∀ offered : List (Option V),
      (∀ o ∈ offered.map (Position.back, ·), g o.1 o.2 = o.2) → offered.map (g .back) = offered :=
    fun offered ho =>
      (List.map_congr_left fun _ hv => ho _ (List.mem_map_of_mem hv)).trans (List.map_id offered)
  cases r with
  | assign k v => exact congrArg _ (h _ List.mem_cons_self)
  | append k v => exact congrArg _ (h _ List.mem_cons_self)
  | prepend k v => exact congrArg _ (h _ List.mem_cons_self)
  | appendAll k offered => exact congrArg _ (hall offered h)
  | appendAll? k offered =>
    cases offered with
    | none => rfl
    | some offered => exact congrArg (Operation.appendAll? k <| some ·) (hall offered h)
  | _ => rfl

theorem refusals_mapOffers (r : Request K V) : (r.mapOffers g).refusals = r.refusals := by
  cases r with
  | appendAll? k offered => cases offered <;> rfl
  | _ => rfl

end Request

theorem absentEnds_fill (back front : V) (rs : List (Request K V)) :
    absentEnds (rs.map (Request.fill back front)) = [] := by
  rw [absentEnds_eq_nil_iff, List.forall_mem_map]
  intro r _ o ho
  rw [Request.fill, Request.offers_mapOffers fun _ _ => rfl] at ho
  obtain ⟨o, -, rfl⟩ := List.mem_map.mp ho
  rfl

theorem fill_of_absentEnds (back front : V) {rs : List (Request K V)} (h : absentEnds rs = []) :
    rs.map (Request.fill back front) = rs := by
  refine (List.map_congr_left fun r hr => Request.mapOffers_eq_self fun o ho => ?_).trans
    (List.map_id rs)
  have hthere := absentEnds_eq_nil_iff.mp h r hr o ho
  obtain ⟨position, v⟩ := o
  cases v with
  | none => cases hthere
  | some v => rfl

/-! ## Policies that mark -/

/-- Whatever the policy is asked before, `back` stands for an absent value at the back of a sequence
and `front` for one at the front. -/
def Marks [AbsencePolicy P V] (p : P) (back front : V) : Prop :=
  ∀ ⦃q : P⦄, Becomes V p q → ∀ (position : Position) (vs : List V),
    effect q position vs = position.place (position.pick back front) vs

theorem Policy.marks_marks (back front : V) : Marks (.marks back front : Policy V) back front :=
  fun _ hq position vs =>
    ((Policy.marks back front).memoryless hq position vs).trans (by cases position <;> rfl)

theorem Policy.marks_sentinel (v : V) : Marks (.sentinel v : Policy V) v v :=
  fun _ hq position vs =>
    ((Policy.sentinel v).memoryless hq position vs).trans (by cases position <;> rfl)

variable [AbsencePolicy P V] [AbsencePolicy Q V]

/-- Under any policy, the marker makes of a sequence what the policy that marks makes of it. -/
theorem Marks.mimics (back front : V) :
    Mimics (fun (p : P) (_ : Q) => Marks p back front) (fill back front) where
  some_eq _ _ := rfl
  supply := by
    intro position v p q hp vs
    cases v with
    | none => exact ⟨hp (.refl p) position vs, fun _ hr => hp (.ask position vs hr)⟩
    | some v => exact ⟨rfl, hp⟩

/-! ## Runs without absent values -/

omit [AbsencePolicy Q V] in
theorem handle_of_record_eq_nil (p : P) {is : List (Incident V)}
    (h : is.filterMap Incident.record? = []) :
    is.foldlM Incident.handle p = ⟨p, is.filterMap Incident.event?⟩ := by
  induction is with
  | nil => rfl
  | cons i is ih =>
    cases i with
    | absent position vs => cases h
    | refusal =>
      have hi : Incident.refusal.handle (V := V) p = ⟨p, [.valuesMissing]⟩ := rfl
      rw [List.foldlM_cons, hi, Logged.mk_bind, ih h]
      rfl

variable [Ord K] [BEq V] {rs : List (Request K V)}

omit [AbsencePolicy Q V] in
/-- The policy is not asked. -/
theorem runUnder_of_absentEnds (h : absentEnds rs = []) (s : Store K V) (p : P) :
    policyOf (s.runUnder p rs) = ⟨p, rs.flatMap Request.refusals⟩ := by
  have hnone : (incidents ⟨s, p⟩ rs).filterMap Incident.record? = [] :=
    List.map_eq_nil_iff.mp ((ends_incidents ⟨s, p⟩ rs).trans h)
  exact (run_handle ⟨s, p⟩ rs).trans
    ((handle_of_record_eq_nil p hnone).trans (congrArg _ (event_incidents ⟨s, p⟩ rs)))

/-- Two runs, each under its policy, are answered the same and leave the same entries. -/
structure SameOutcome (x : Logged (List (Answer V) × Multimap K V P))
    (y : Logged (List (Answer V) × Multimap K V Q)) : Prop where
  answers_eq : x.value.1 = y.value.1
  store_eq : x.value.2.store = y.value.2.store

theorem Marks.sameOutcome {p : P} {back front : V} (h : Marks p back front) (q : Q)
    (s : Store K V) (rs : List (Request K V)) :
    SameOutcome (s.runUnder p rs) (s.runUnder q (rs.map (Request.fill back front))) := by
  have hsame : SameStore (fun (p : P) (_ : Q) => Marks p back front) (⟨s, p⟩ : Multimap K V P)
      (⟨s, q⟩ : Multimap K V Q) := ⟨rfl, h⟩
  obtain ⟨hanswers, hend⟩ := (Marks.mimics back front).run hsame rs
  exact ⟨hanswers, hend.store_eq⟩

/-- Where there are no values, all sequences are the same, whatever becomes of them. -/
theorem sameOutcome_of_isEmpty [IsEmpty V] (s : Store K V) (p : P) (q : Q)
    (rs : List (Request K V)) : SameOutcome (s.runUnder p rs) (s.runUnder q rs) := by
  have hmimics : Mimics (V := V) (fun (_ : P) (_ : Q) => True) fun _ v => v :=
    ⟨fun _ _ => rfl, fun _ _ _ _ _ _ => ⟨Subsingleton.elim _ _, trivial⟩⟩
  have hsame : SameStore (fun (_ : P) (_ : Q) => True) (⟨s, p⟩ : Multimap K V P)
      (⟨s, q⟩ : Multimap K V Q) := ⟨rfl, trivial⟩
  have hrun := hmimics.run hsame rs
  rw [funext Request.mapOffers_id, List.map_id'] at hrun
  exact ⟨hrun.1, hrun.2.store_eq⟩

/-- Without absent values all policies come to the same. -/
theorem sameOutcome_of_absentEnds (h : absentEnds rs = []) (s : Store K V) (p : P) (q : Q) :
    SameOutcome (s.runUnder p rs) (s.runUnder q rs) := by
  rcases isEmpty_or_nonempty V with hV | ⟨⟨v⟩⟩
  · exact sameOutcome_of_isEmpty s p q rs
  · have hp := (Policy.marks_sentinel v).sameOutcome p s rs
    have hq := (Policy.marks_sentinel v).sameOutcome q s rs
    rw [fill_of_absentEnds v v h] at hp hq
    exact ⟨hp.answers_eq.symm.trans hq.answers_eq, hp.store_eq.symm.trans hq.store_eq⟩

/-! ## Markers instead of absent values -/

/-- The run of the requests under a policy beside the run with the markers filled in under
another. -/
structure RunsFilled (s : Store K V) (p : P) (back front : V) (q : Q) (rs : List (Request K V)) :
    Prop where
  sameOutcome : SameOutcome (s.runUnder p rs) (s.runUnder q (rs.map (Request.fill back front)))
  /-- The policy of the second run is not asked, and nothing is logged about a value. -/
  policyOf_eq :
    policyOf (s.runUnder q (rs.map (Request.fill back front))) = ⟨q, rs.flatMap Request.refusals⟩

theorem Marks.runsFilled {p : P} {back front : V} (h : Marks p back front) (q : Q)
    (s : Store K V) (rs : List (Request K V)) : RunsFilled s p back front q rs where
  sameOutcome := h.sameOutcome q s rs
  policyOf_eq := by
    have hrefusals : (rs.map (Request.fill back front)).flatMap Request.refusals =
        rs.flatMap Request.refusals := by
      rw [List.flatMap_map]
      exact congrArg (rs.flatMap ·) (funext Request.refusals_mapOffers)
    rw [runUnder_of_absentEnds (absentEnds_fill back front rs) s q, hrefusals]

omit [AbsencePolicy P V] [AbsencePolicy Q V] in
/-- **Policies that mark are substitution.** Under a policy that has markers stand for absent
values, requests are answered and leave what they do under any policy with the markers offered in
the first place, and that policy is not asked. Such policies are those that mark both ends and the
sentinels. Requests without absent values are answered the same and leave the same under all
policies. -/
theorem marker_runs_filled (s : Store K V) (rs : List (Request K V)) :
    (∀ (P Q : Type) [AbsencePolicy P V] [AbsencePolicy Q V] (p : P) (back front : V) (q : Q),
      Marks p back front → RunsFilled s p back front q rs) ∧
    (∀ back front : V, Marks (.marks back front : Policy V) back front) ∧
    (∀ v : V, Marks (.sentinel v : Policy V) v v) ∧
    (∀ (P Q : Type) [AbsencePolicy P V] [AbsencePolicy Q V] (p : P) (q : Q),
      absentEnds rs = [] → SameOutcome (s.runUnder p rs) (s.runUnder q rs)) :=
  ⟨fun _ _ _ _ _ _ _ q h => h.runsFilled q s rs, Policy.marks_marks, Policy.marks_sentinel,
    fun _ _ _ _ p q h => sameOutcome_of_absentEnds h s p q⟩

/-- Markers are filled in under the policy that wipes, and it does not wipe; nor does it without
absent values. -/
theorem marker_runs_filled_wipe :
    let s : Store Int64 Int64 := ⟨.sorted, [(1, [10])]⟩
    let rs : List (Request Int64 Int64) :=
      [.append 1 none, .appendAll 1 [some 11, none], .prepend 1 none, .query (.sequence 1)]
    let filled : List (Request Int64 Int64) :=
      [.append 1 (some 7), .appendAll 1 [some 11, some 7], .prepend 1 (some 8),
        .query (.sequence 1)]
    rs.map (Request.fill 7 8) = filled ∧ absentEnds filled = [] ∧
      Marks (.marks 7 8 : Policy Int64) (7 : Int64) 8 ∧
      (s.runUnder (.marks 7 8 : Policy Int64) rs).value.2.store =
        (s.runUnder (.wipe : Policy Int64) filled).value.2.store ∧
      SameOutcome (s.runUnder (.counting [] : Policy Int64) filled)
        (s.runUnder (.wipe : Policy Int64) filled) ∧
      (s.runUnder (.marks 7 8 : Policy Int64) rs).value.1 =
        [.done, .done, .done, .sequence (some [8, 10, 7, 11, 7])] ∧
      (s.runUnder (.wipe : Policy Int64) filled).value.2.store.entries =
        [(1, [8, 10, 7, 11, 7])] ∧
      policyOf (s.runUnder (.counting [] : Policy Int64) filled) = ⟨.counting [], []⟩ := by
  intro s rs filled
  obtain ⟨hfill, hmarks, -, -⟩ := marker_runs_filled s rs
  obtain ⟨-, -, -, hthere⟩ := marker_runs_filled s filled
  have hnone : absentEnds filled = [] := by decide
  have hruns := hfill _ _ _ 7 8 (.wipe : Policy Int64) (hmarks 7 8)
  refine ⟨rfl, hnone, hmarks 7 8, hruns.sameOutcome.store_eq, hthere _ _ _ _ hnone, ?_, ?_, ?_⟩ <;>
    decide

end Multimap
