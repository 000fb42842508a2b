import Multimap.Edit
import Multimap.Proofs.Correspondence
import Multimap.Proofs.Interference

/-!
# Equality is a congruence

Equal maps behave alike. If the same is done to both of them, or the same but for the spelling of
keys and for values that are equal, they are equal again and give equal answers, under policies and
with functions that do not tell equal values apart. So nothing an operation does hangs on the
arrangement of a map, on the order or the spelling of its keys or on the form of its values.

The equality of the values has to be an equivalence, among those that occur (`EquivAmong`). It is
one for maps of such values, so that values may be maps themselves.

* `PartialEquivAmong.compatible`: equality does not tell equal values apart.
* `EquivAmong.indifferent`: no more do policies that treat them alike, those to choose from, edits,
  and the equality of maps.
* **`equality_congruent`**: runs that correspond, on equal maps, stay in step.
-/

namespace Multimap

variable {K V P Q : Type}

/-! ## Values that are equal -/

section

variable [BEq V]

/-- Equality is an equivalence among the values that are `Proper`. -/
structure EquivAmong (Proper : V → Prop) : Prop extends PartialEquivAmong Proper where
  refl {v : V} : Proper v → (v == v) = true

theorem EquivAmong.all [EquivBEq V] : EquivAmong fun _ : V => True :=
  ⟨PartialEquivAmong.all, fun _ => BEq.rfl⟩

/-- Equal values, both of them `Proper`. -/
structure EqualAmong (Proper : V → Prop) (v w : V) : Prop where
  left : Proper v
  right : Proper w
  beq : (v == w) = true

variable {Proper : V → Prop}

theorem PartialEquivAmong.compatible (hV : PartialEquivAmong Proper) :
    Compatible (EqualAmong Proper) := by
  intro v v' w w' hv hw
  have hv' := hV.symm hv.left hv.right hv.beq
  have hw' := hV.symm hw.left hw.right hw.beq
  rw [Bool.eq_iff_iff]
  constructor
  · intro h
    exact hV.trans hv.right hv.left hw.right hv' (hV.trans hv.left hw.left hw.right h hw.beq)
  · intro h
    exact hV.trans hv.left hv.right hw.left hv.beq (hV.trans hv.right hw.right hw.left h hw')

theorem ValueByValue.equalAmong {vs ws : List V} (hvs : ∀ v ∈ vs, Proper v)
    (hws : ∀ w ∈ ws, Proper w) (h : ValueByValue vs ws) :
    List.Forall₂ (EqualAmong Proper) vs ws := by
  induction h with
  | nil => exact .nil
  | cons hvw _ ih =>
    obtain ⟨hv, hvs⟩ := List.forall_mem_cons.mp hvs
    obtain ⟨hw, hws⟩ := List.forall_mem_cons.mp hws
    exact .cons ⟨hv, hw, hvw⟩ (ih hvs hws)

/-- Maps are equal to themselves if their values are. -/
theorem EquivAmong.maps [Ord K] [Std.TransOrd K] (hV : EquivAmong Proper) :
    EquivAmong fun m : Multimap K V P => ReachableWith Proper m where
  toPartialEquivAmong := hV.toPartialEquivAmong.maps
  refl hm := (equal_self_iff hm.wellFormed).mpr fun _ _ hk v hv =>
    hV.refl (hm.proper_of_get? hk v hv)

end

/-! ## Policies that do not tell values apart -/

section

variable {E : V → V → Prop}

/-- Whatever the policy is asked before, sequences that correspond are all the same to it. -/
def TreatsAlike [AbsencePolicy P V] (E : V → V → Prop) (p : P) : Prop :=
  ∀ ⦃q : P⦄, Becomes V p q → ∀ (position : Position) ⦃vs ws : List V⦄, List.Forall₂ E vs ws →
    Logged.Agree (Supplied E Eq) (AbsencePolicy.absent q position vs)
      (AbsencePolicy.absent q position ws)

theorem TreatsAlike.parallel [AbsencePolicy P V] :
    Parallel E fun p q : P => p = q ∧ TreatsAlike E p := by
  rintro p _ ⟨rfl, hp⟩ position vs ws hvs
  obtain ⟨⟨hpolicy, hrest⟩, hevents⟩ := hp (.refl p) position hvs
  exact ⟨⟨⟨hpolicy, fun _ hq => hp (.ask position vs hq)⟩, hrest⟩, hevents⟩

/-- The same policy to choose, with values that correspond and the same notes. -/
inductive Policy.Counterpart (E : V → V → Prop) : Policy V → Policy V → Prop
  | drop : Counterpart E .drop .drop
  | sentinel {v w : V} (h : E v w) : Counterpart E (.sentinel v) (.sentinel w)
  | silent : Counterpart E .silent .silent
  | backOnly {v w : V} (h : E v w) : Counterpart E (.backOnly v) (.backOnly w)
  | counting (seen : List (Position × Nat)) : Counterpart E (.counting seen) (.counting seen)
  | marks {v v' w w' : V} (h : E v w) (h' : E v' w') : Counterpart E (.marks v v') (.marks w w')
  | wipe : Counterpart E .wipe .wipe
  | duplicate : Counterpart E .duplicate .duplicate

theorem Policy.counterpart_self (h : ∀ v, E v v) (p : Policy V) : Counterpart E p p := by
  cases p with
  | drop => exact .drop
  | sentinel v => exact .sentinel (h v)
  | silent => exact .silent
  | backOnly v => exact .backOnly (h v)
  | counting seen => exact .counting seen
  | marks back front => exact .marks (h back) (h front)
  | wipe => exact .wipe
  | duplicate => exact .duplicate

theorem Policy.Counterpart.counting_iff {p q : Policy V} (h : Counterpart E p q)
    (seen : List (Position × Nat)) : p = .counting seen ↔ q = .counting seen := by
  cases h with
  | counting => exact .rfl
  | _ => exact ⟨nofun, nofun⟩

theorem rel_toList {v w : Option V} (h : Option.Rel E v w) : List.Forall₂ E v.toList w.toList := by
  cases h with
  | none => exact .nil
  | some h => exact .cons h .nil

theorem rel_getLast? {vs ws : List V} (h : List.Forall₂ E vs ws) :
    Option.Rel E vs.getLast? ws.getLast? := by
  rw [← List.head?_reverse, ← List.head?_reverse]
  exact rel_head? (List.rel_reverse h)

/-- The policies to choose from do not tell values apart. -/
theorem Policy.parallel (E : V → V → Prop) : Parallel E (Policy.Counterpart E) := by
  intro p q hp position vs ws hvs
  constructor
  case value =>
    show Supplied E (Counterpart E) (p.respond position vs) (q.respond position ws)
    cases hp with
    | drop => exact ⟨.drop, hvs⟩
    | sentinel h => exact ⟨.sentinel h, forall₂_place h hvs position⟩
    | silent => exact ⟨.silent, hvs⟩
    | backOnly h =>
      cases position with
      | back => exact ⟨.backOnly h, forall₂_place h hvs .back⟩
      | front => exact ⟨.backOnly h, hvs⟩
    | counting seen =>
      rw [respond, respond, hvs.length_eq]
      exact ⟨.counting _, hvs⟩
    | marks h h' =>
      cases position with
      | back => exact ⟨.marks h h', forall₂_place h hvs .back⟩
      | front => exact ⟨.marks h h', forall₂_place h' hvs .front⟩
    | wipe =>
      cases position with
      | back => exact ⟨.wipe, .nil⟩
      | front => exact ⟨.wipe, List.rel_reverse hvs⟩
    | duplicate =>
      cases position with
      | back => exact ⟨.duplicate, List.rel_append hvs (rel_toList (rel_getLast? hvs))⟩
      | front => exact ⟨.duplicate, List.rel_append (rel_toList (rel_head? hvs)) hvs⟩
  case events =>
    show p.events position vs = q.events position ws
    cases hp with
    | drop => rw [events, events, hvs.length_eq]
    | _ => rfl

/-! ## Edits that do not tell values apart -/

/-- The same edit, with values that correspond. -/
inductive Edit.Corresponds (E : V → V → Prop) : Edit V → Edit V → Prop
  | push {v w : V} (h : E v w) : Corresponds E (.push v) (.push w)
  | pop : Corresponds E .pop .pop
  | reverse : Corresponds E .reverse .reverse
  | clear : Corresponds E .clear .clear
  | truncate (n : Nat) : Corresponds E (.truncate n) (.truncate n)
  | rotate (n : Nat) : Corresponds E (.rotate n) (.rotate n)

theorem Edit.Corresponds.apply {x y : Edit V} (h : Edit.Corresponds E x y) :
    Respects E (Edit.apply · x) (Edit.apply · y) := by
  intro vs ws hvs
  cases h with
  | push h => exact List.rel_append hvs (.cons h .nil)
  | pop =>
    show List.Forall₂ E vs.dropLast ws.dropLast
    rw [List.dropLast_eq_take, List.dropLast_eq_take, hvs.length_eq]
    exact List.forall₂_take _ hvs
  | reverse => exact List.rel_reverse hvs
  | clear => exact .nil
  | truncate n => exact List.forall₂_take n hvs
  | rotate n =>
    show List.Forall₂ E (vs.rotateLeft n) (ws.rotateLeft n)
    unfold List.rotateLeft
    rw [hvs.length_eq]
    by_cases hlength : ws.length ≤ 1
    · simpa only [hlength, if_true] using hvs
    · simp only [hlength, if_false]
      exact List.rel_append (List.forall₂_drop _ hvs) (List.forall₂_take _ hvs)

end

/-- What does not tell equal values apart: policies that treat them alike, the policies to choose
from, edits, and the equality of maps. -/
structure Indifferent [BEq V] (Proper : V → Prop) : Prop where
  treatsAlike (P : Type) [AbsencePolicy P V] :
    Parallel (EqualAmong Proper) fun p q : P => p = q ∧ TreatsAlike (EqualAmong Proper) p
  counterparts : Parallel (EqualAmong Proper) (Policy.Counterpart (EqualAmong Proper))
  counterpart_self (h : ∀ v, Proper v) (p : Policy V) : p.Counterpart (EqualAmong Proper) p
  /-- The notes of policies that are counterparts are the same. -/
  counting_iff {p q : Policy V} (h : p.Counterpart (EqualAmong Proper) q)
    (seen : List (Position × Nat)) : p = .counting seen ↔ q = .counting seen
  edits {x y : Edit V} (h : x.Corresponds (EqualAmong Proper) y) :
    Respects (EqualAmong Proper) (Edit.apply · x) (Edit.apply · y)
  /-- Maps with such values are such values. -/
  maps (K P : Type) [Ord K] [Std.TransOrd K] :
    EquivAmong fun m : Multimap K V P => ReachableWith Proper m

theorem EquivAmong.indifferent [BEq V] {Proper : V → Prop} (hV : EquivAmong Proper) :
    Indifferent Proper where
  treatsAlike _ _ := TreatsAlike.parallel
  counterparts := Policy.parallel _
  counterpart_self h := Policy.counterpart_self fun v => ⟨h v, h v, hV.refl (h v)⟩
  counting_iff h := h.counting_iff
  edits h := h.apply
  maps _ _ := hV.maps

/-! ## Equality is a congruence -/

section

variable [Ord K] [BEq V] {Proper : V → Prop} {R : P → P → Prop} {m n : Multimap K V P}

/-- Two runs whose answers correspond, that log the same and leave maps that are equal, also in the
eyes of any third map. -/
structure InStep (Proper : V → Prop) (R : P → P → Prop)
    (x y : Logged (List (Answer V) × Multimap K V P)) : Prop where
  answers : List.Forall₂ (Answer.Corresponds (EqualAmong Proper)) x.value.1 y.value.1
  events_eq : x.events = y.events
  policy : R x.value.2.policy y.value.2.policy
  equal : x.value.2.equal y.value.2 = true
  equal_flip : y.value.2.equal x.value.2 = true
  equal_left {O : Type} {c : Multimap K V O} (hc : ReachableWith Proper c) :
    x.value.2.equal c = y.value.2.equal c
  equal_right {O : Type} {c : Multimap K V O} (hc : ReachableWith Proper c) :
    c.equal x.value.2 = c.equal y.value.2
  upToOrder_left {O : Type} {c : Multimap K V O} (hc : ReachableWith Proper c) :
    x.value.2.equalUpToOrder c = y.value.2.equalUpToOrder c
  upToOrder_right {O : Type} {c : Multimap K V O} (hc : ReachableWith Proper c) :
    c.equalUpToOrder x.value.2 = c.equalUpToOrder y.value.2

variable [Std.TransOrd K]

theorem Corresponding.of_equal (hm : ReachableWith Proper m) (hn : ReachableWith Proper n)
    (hp : R m.policy n.policy) (h : m.equal n = true) :
    Corresponding (EqualAmong Proper) R m n := by
  rw [equal_iff hm.wellFormed hn.wellFormed] at h
  refine ⟨hm.wellFormed, hn.wellFormed, ⟨h.contains_eq, fun k vs ws hvs hws => ?_⟩, hp⟩
  exact (h.related k vs ws hvs hws).equalAmong (hm.proper_of_get? hvs) (hn.proper_of_get? hws)

theorem Corresponding.equal (h : Corresponding (EqualAmong Proper) R m n) : m.equal n = true := by
  rw [equal_iff h.left h.right]
  exact h.entries.imp fun _ _ hvs => hvs.imp fun _ _ => EqualAmong.beq

theorem Corresponding.equal_flip (hV : PartialEquivAmong Proper)
    (h : Corresponding (EqualAmong Proper) R m n) : n.equal m = true := by
  rw [equal_iff h.right h.left]
  refine h.entries.flip.imp fun ws vs hvs => List.Forall₂.flip (hvs.imp fun v w hvw => ?_)
  exact hV.symm hvw.left hvw.right hvw.beq

theorem InStep.of_agree (hV : EquivAmong Proper)
    {x y : Logged (List (Answer V) × Multimap K V P)}
    (h : Logged.Agree (fun r s => List.Forall₂ (Answer.Corresponds (EqualAmong Proper)) r.1 s.1 ∧
      Corresponding (EqualAmong Proper) R r.2 s.2) x y) : InStep Proper R x y := by
  obtain ⟨⟨hanswers, hend⟩, hevents⟩ := h
  have hE : Compatible (EqualAmong Proper) := hV.toPartialEquivAmong.compatible
  have hself {O : Type} {c : Multimap K V O} (hc : ReachableWith Proper c) :
      Corresponding (EqualAmong Proper) (fun _ _ => True) c c :=
    .of_equal hc hc trivial (hV.maps.refl hc)
  constructor
  case answers => exact hanswers
  case events_eq => exact hevents
  case policy => exact hend.policy
  case equal => exact hend.equal
  case equal_flip => exact hend.equal_flip hV.toPartialEquivAmong
  case equal_left => exact fun hc => hend.matchesBy_eq (beq_eq_of_forall₂ hE) (hself hc)
  case equal_right => exact fun hc => (hself hc).matchesBy_eq (beq_eq_of_forall₂ hE) hend
  case upToOrder_left => exact fun hc => hend.matchesBy_eq (covers_eq_of_forall₂ hE) (hself hc)
  case upToOrder_right => exact fun hc => (hself hc).matchesBy_eq (covers_eq_of_forall₂ hE) hend

variable [AbsencePolicy P V]

/-- **Equality is a congruence.** Let operations be carried out on equal maps, the same ones on both
but for the spelling of the keys and for values that are equal. At every step the answers so far
correspond, the logs are the same, and the maps are equal and compare in the same way with every
other. The policies and the functions that change sequences may be any that do not tell equal values
apart, as the policies to choose from and the edits do not. -/
theorem equality_congruent (hV : EquivAmong Proper) (hR : Parallel (EqualAmong Proper) R)
    (hm : ReachableWith Proper m) (hn : ReachableWith Proper n) (hp : R m.policy n.policy)
    (h : m.equal n = true) {os os' : List (Operation K V P)}
    (hos : List.Forall₂ (Operation.Corresponds (EqualAmong Proper) R) os os') :
    (∀ i, InStep Proper R (m.run (os.take i)) (n.run (os'.take i))) ∧ Indifferent Proper := by
  have hstart : Corresponding (EqualAmong Proper) R m n := .of_equal hm hn hp h
  have hE : Compatible (EqualAmong Proper) := hV.toPartialEquivAmong.compatible
  have hsteps (i : Nat) : InStep Proper R (m.run (os.take i)) (n.run (os'.take i)) :=
    .of_agree hV (hstart.run hE hR (List.forall₂_take i hos))
  exact ⟨hsteps, hV.indifferent⟩

end

/-- Maps of maps, with their words in different spellings and their values in different forms, under
a policy that has a map stand for an absent one. -/
theorem equality_congruent_caseless :
    let v : Multimap Int64 Int64 DropAbsent := (empty .arrival ⟨⟩).insertAll [(1, []), (2, [5])]
    let w : Multimap Int64 Int64 DropAbsent := (empty .arrival ⟨⟩).insertAll [(2, [5]), (1, [])]
    let Proper : Multimap Int64 Int64 DropAbsent → Prop := ReachableWith fun _ => True
    let Counterparts := Policy.Counterpart (EqualAmong Proper)
    let m := (empty .arrival (Policy.sentinel v)).insertAll [(CaselessText.mk "A", [v, w])]
    let n := (empty .arrival (Policy.sentinel w)).insertAll [(CaselessText.mk "a", [w, w])]
    let os := [.append (CaselessText.mk "b") none, .prepend ⟨"B"⟩ (some w), .erase ⟨"a"⟩,
      .modifyAll List.reverse, .query (.sequence ⟨"b"⟩)]
    let os' := [.append (CaselessText.mk "B") none, .prepend ⟨"b"⟩ (some v), .erase ⟨"A"⟩,
      .modifyAll List.reverse, .query (.sequence ⟨"B"⟩)]
    EquivAmong Proper ∧ Parallel (EqualAmong Proper) Counterparts ∧ ReachableWith Proper m ∧
      ReachableWith Proper n ∧ Counterparts m.policy n.policy ∧ m.equal n = true ∧
      List.Forall₂ (Operation.Corresponds (EqualAmong Proper) Counterparts) os os' ∧
      InStep Proper Counterparts (m.run os) (n.run os') ∧
      m.run os = ⟨([.done, .done, .sequence (some [v, w]), .count 1, .sequence (some [v, w])],
        ⟨⟨.arrival, [(⟨"b"⟩, [v, w])]⟩, .sentinel v⟩), []⟩ ∧
      n.run os' = ⟨([.done, .done, .sequence (some [w, w]), .count 1, .sequence (some [w, v])],
        ⟨⟨.arrival, [(⟨"B"⟩, [w, v])]⟩, .sentinel w⟩), []⟩ := by
  intro v w Proper Counterparts m n os os'
  have hV : EquivAmong Proper := (EquivAmong.all (V := Int64)).maps
  have hR : Parallel (EqualAmong Proper) Counterparts := Policy.parallel _
  have hv : Proper v := ⟨.literal _ _, fun _ _ _ _ => trivial⟩
  have hw : Proper w := ⟨.literal _ _, fun _ _ _ _ => trivial⟩
  have hvw : EqualAmong Proper v w := ⟨hv, hw, by decide +kernel⟩
  have hwv : EqualAmong Proper w v := ⟨hw, hv, by decide +kernel⟩
  have hww : EqualAmong Proper w w := ⟨hw, hw, hV.refl hw⟩
  have hsame (s t : String) (h : s.toList.map Char.toLower = t.toList.map Char.toLower) :
      SameKey (CaselessText.mk s) (CaselessText.mk t) := CaselessText.sameKey_iff_letters.mpr h
  clear_value v w
  have hm : ReachableWith Proper m := by
    refine ⟨.literal _ _, fun e he u hu => ?_⟩
    obtain rfl : e = (⟨"A"⟩, [v, w]) := List.mem_singleton.mp he
    rcases List.mem_pair.mp hu with rfl | rfl
    · exact hv
    · exact hw
  have hn : ReachableWith Proper n := by
    refine ⟨.literal _ _, fun e he u hu => ?_⟩
    obtain rfl : e = (⟨"a"⟩, [w, w]) := List.mem_singleton.mp he
    rcases List.mem_pair.mp hu with rfl | rfl <;> exact hw
  have hstart : Corresponding (EqualAmong Proper) Counterparts m n :=
    Corresponding.insert ⟨.empty _, .empty _, keyByKey_iff.mpr fun _ => .none, .sentinel hvw⟩
      (hsame "A" "a" (by decide)) (.cons hvw (.cons hww .nil)) (.sentinel hvw)
  have hos : List.Forall₂ (Operation.Corresponds (EqualAmong Proper) Counterparts) os os' :=
    .cons (.append (hsame "b" "B" (by decide)) .none) <|
    .cons (.prepend (hsame "B" "b" (by decide)) (.some hwv)) <|
    .cons (.erase (hsame "a" "A" (by decide))) <|
    .cons (.modifyAll fun _ _ h => List.rel_reverse h) <|
    .cons (.query (.sequence (hsame "b" "B" (by decide)))) .nil
  obtain ⟨hsteps, -⟩ := equality_congruent hV hR hm hn (.sentinel hvw) hstart.equal hos
  refine ⟨hV, hR, hm, hn, .sentinel hvw, hstart.equal, hos, hsteps 5, ?_, ?_⟩ <;>
    simp [m, n, os, os', run, Operation.run, append, prepend, erase, mapSequences, insertAll,
      insert, empty, size, supply, sequence, get?, Query.answer, Store.empty, Store.insert,
      Store.erase, Store.mapSequences, Store.size, Store.contains, Store.sequence, Store.get?,
      Store.find?, Store.modify, Position.place, Arrangement.place, AbsencePolicy.absent,
      Policy.respond, Policy.events, CaselessText.sameKey_iff_letters] <;>
    rfl

end Multimap
