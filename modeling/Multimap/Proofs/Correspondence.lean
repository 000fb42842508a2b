import Multimap.Proofs.Equality

/-!
# Runs that correspond

Two runs of operations go the same way, though their keys be spelled differently and their values be
different, if there is a relation between the values of the one and those of the other that nothing
in the runs tells apart: equality does not (`Compatible`), the policies do not (`Parallel`) and the
functions that change sequences do not (`Respects`). Where the keys of a map are, and how they are
spelled, is of no account either.

* `Corresponding E R m n`: the same keys, with values that `E` relates place by place, under
  policies that `R` relates.
* `Corresponding.changed`: a change at one key in both maps.
* `Corresponding.step`, `Corresponding.run`: operations that correspond, one and many, have answers
  that correspond, log the same and leave maps that correspond.
* `Corresponding.matchesBy_eq`: comparisons with maps that correspond come out the same.
-/

namespace Multimap

variable {K V P Q : Type}

/-! ## Optional values that correspond -/

section

variable {α β γ δ : Type} {S : α → β → Prop} {T : γ → δ → Prop} {x : Option α} {y : Option β}

theorem rel_isSome (h : Option.Rel S x y) : x.isSome = y.isSome := by cases h <;> rfl

theorem rel_getD (h : Option.Rel S x y) {a : α} {b : β} (hab : S a b) :
    S (x.getD a) (y.getD b) := by
  cases h with
  | none => exact hab
  | some h => exact h

theorem rel_bind (h : Option.Rel S x y) {f : α → Option γ} {g : β → Option δ}
    (hfg : ∀ {a b}, S a b → Option.Rel T (f a) (g b)) : Option.Rel T (x.bind f) (y.bind g) := by
  cases h with
  | none => exact .none
  | some h => exact hfg h

theorem rel_map (h : Option.Rel S x y) {f : α → γ} {g : β → δ}
    (hfg : ∀ {a b}, S a b → T (f a) (g b)) : Option.Rel T (x.map f) (y.map g) := by
  cases h with
  | none => exact .none
  | some h => exact .some (hfg h)

theorem rel_head? {as : List α} {bs : List β} (h : List.Forall₂ S as bs) :
    Option.Rel S as.head? bs.head? := by
  cases h with
  | nil => exact .none
  | cons h _ => exact .some h

end

/-! ## What does not tell values apart -/

/-- Equality does not tell the values from those that they are related to. -/
def Compatible [BEq V] (E : V → V → Prop) : Prop :=
  ∀ ⦃v v' w w' : V⦄, E v v' → E w w' → (v == w) = (v' == w')

/-- The functions make of sequences that correspond sequences that do. -/
def Respects (E : V → V → Prop) (f g : List V → List V) : Prop :=
  ∀ ⦃vs ws : List V⦄, List.Forall₂ E vs ws → List.Forall₂ E (f vs) (g ws)

/-- Policies that are related, and sequences that correspond. -/
def Supplied (E : V → V → Prop) (R : P → Q → Prop) (x : P × List V) (y : Q × List V) : Prop :=
  R x.1 y.1 ∧ List.Forall₂ E x.2 y.2

/-- Related policies log the same about sequences that correspond, make of them sequences that do,
and stay related. -/
def Parallel [AbsencePolicy P V] [AbsencePolicy Q V] (E : V → V → Prop) (R : P → Q → Prop) : Prop :=
  ∀ ⦃p : P⦄ ⦃q : Q⦄, R p q → ∀ (position : Position) ⦃vs ws : List V⦄, List.Forall₂ E vs ws →
    Logged.Agree (Supplied E R) (AbsencePolicy.absent p position vs)
      (AbsencePolicy.absent q position ws)

section

variable {E : V → V → Prop} {R : P → Q → Prop} {p : P} {q : Q} {vs ws : List V}

theorem forall₂_place {v w : V} (hv : E v w) (hvs : List.Forall₂ E vs ws) (position : Position) :
    List.Forall₂ E (position.place v vs) (position.place w ws) := by
  cases position with
  | back => exact List.rel_append hvs (.cons hv .nil)
  | front => exact .cons hv hvs

variable [AbsencePolicy P V] [AbsencePolicy Q V]

theorem Parallel.supply (hR : Parallel E R) (hp : R p q) (position : Position)
    (hvs : List.Forall₂ E vs ws) {v w : Option V} (hv : Option.Rel E v w) :
    Logged.Agree (Supplied E R) (supply p position vs v) (supply q position ws w) := by
  cases hv with
  | none => exact hR hp position hvs
  | some hv => exact .pure ⟨hp, forall₂_place hv hvs position⟩

theorem Parallel.supplyAll (hR : Parallel E R) (hp : R p q) (hvs : List.Forall₂ E vs ws)
    {offered offered' : List (Option V)} (h : List.Forall₂ (Option.Rel E) offered offered') :
    Logged.Agree (Supplied E R) (supplyAll p vs offered) (supplyAll q ws offered') :=
  Logged.Agree.foldlM_forall₂ (R := Supplied E R) (T := Option.Rel E)
    (fun hv hs => hR.supply hs.1 .back hs.2 hv) h (And.intro hp hvs)

end

/-! ## Operations and answers that correspond -/

section

variable [Ord K]

/-- Keys that are the same, with what is related under them. -/
def Paired {α β : Type} (S : α → β → Prop) (e : K × α) (f : K × β) : Prop :=
  SameKey e.1 f.1 ∧ S e.2 f.2

variable (E : V → V → Prop) (R : P → Q → Prop)

/-- A look-up with keys that are the same and values that correspond. -/
inductive Query.Corresponds : Query K V → Query K V → Prop
  | sequence {j k : K} (hk : SameKey j k) : Corresponds (.sequence j) (.sequence k)
  | first {j k : K} (hk : SameKey j k) : Corresponds (.first j) (.first k)
  | contains {j k : K} (hk : SameKey j k) : Corresponds (.contains j) (.contains k)
  | containsSequence {vs ws : List V} (hvs : List.Forall₂ E vs ws) :
    Corresponds (.containsSequence vs) (.containsSequence ws)
  | size : Corresponds .size .size
  | isEmpty : Corresponds .isEmpty .isEmpty

/-- The same operation, with keys that are the same, values that correspond, functions that do not
tell them apart, and policies that are related. -/
inductive Operation.Corresponds : Operation K V P → Operation K V Q → Prop
  | assign {j k : K} {v w : Option V} (hk : SameKey j k) (hv : Option.Rel E v w) :
    Corresponds (.assign j v) (.assign k w)
  | append {j k : K} {v w : Option V} (hk : SameKey j k) (hv : Option.Rel E v w) :
    Corresponds (.append j v) (.append k w)
  | prepend {j k : K} {v w : Option V} (hk : SameKey j k) (hv : Option.Rel E v w) :
    Corresponds (.prepend j v) (.prepend k w)
  | appendAll {j k : K} {vs ws : List (Option V)} (hk : SameKey j k)
    (hvs : List.Forall₂ (Option.Rel E) vs ws) : Corresponds (.appendAll j vs) (.appendAll k ws)
  | appendAll? {j k : K} {vs ws : Option (List (Option V))} (hk : SameKey j k)
    (hvs : Option.Rel (List.Forall₂ (Option.Rel E)) vs ws) :
    Corresponds (.appendAll? j vs) (.appendAll? k ws)
  | extend {pairs pairs' : List (K × V)} (h : List.Forall₂ (Paired E) pairs pairs') :
    Corresponds (.extend pairs) (.extend pairs')
  | insert {j k : K} {vs ws : List V} (hk : SameKey j k) (hvs : List.Forall₂ E vs ws) :
    Corresponds (.insert j vs) (.insert k ws)
  | insertAll {es fs : List (Entry K V)} (h : List.Forall₂ (Paired (List.Forall₂ E)) es fs) :
    Corresponds (.insertAll es) (.insertAll fs)
  | erase {j k : K} (hk : SameKey j k) : Corresponds (.erase j) (.erase k)
  | clear : Corresponds .clear .clear
  | edit {j k : K} {f g : List V → List V} (hk : SameKey j k) (hf : Respects E f g) :
    Corresponds (.edit j f) (.edit k g)
  | update {j k : K} {f g : List V → List V} (hk : SameKey j k) (hf : Respects E f g) :
    Corresponds (.update j f) (.update k g)
  | modify {j k : K} {f g : List V → List V} (hk : SameKey j k) (hf : Respects E f g) :
    Corresponds (.modify j f) (.modify k g)
  | modifyAll {f g : List V → List V} (hf : Respects E f g) :
    Corresponds (.modifyAll f) (.modifyAll g)
  | setPolicy {p : P} {q : Q} (hp : R p q) : Corresponds (.setPolicy p) (.setPolicy q)
  | query {q q' : Query K V} (hq : q.Corresponds E q') : Corresponds (.query q) (.query q')

end

/-- The same answer, with values that correspond place by place. -/
inductive Answer.Corresponds (E : V → V → Prop) : Answer V → Answer V → Prop
  | done : Corresponds E .done .done
  | accepted : Corresponds E .accepted .accepted
  | refused (e : ArgumentError) : Corresponds E (.refused e) (.refused e)
  | sequence {vs ws : Option (List V)} (h : Option.Rel (List.Forall₂ E) vs ws) :
    Corresponds E (.sequence vs) (.sequence ws)
  | value {v w : Option V} (h : Option.Rel E v w) : Corresponds E (.value v) (.value w)
  | truth {b c : Bool} (h : b = c) : Corresponds E (.truth b) (.truth c)
  | count {a b : Nat} (h : a = b) : Corresponds E (.count a) (.count b)

/-! ## Maps that correspond -/

variable [Ord K]

/-- The same keys, with values that correspond place by place, under policies that are related. -/
structure Corresponding (E : V → V → Prop) (R : P → Q → Prop) (m : Multimap K V P)
    (n : Multimap K V Q) : Prop where
  left : m.store.WellFormed
  right : n.store.WellFormed
  entries : KeyByKey (List.Forall₂ E) m n
  policy : R m.policy n.policy

/-- Two maps compare key by key if their look-ups do. -/
theorem keyByKey_iff {S : List V → List V → Prop} {m : Multimap K V P} {n : Multimap K V Q} :
    KeyByKey S m n ↔ ∀ k, Option.Rel S (m.get? k) (n.get? k) := by
  have hcontains : (∀ k, m.contains k = n.contains k) ↔
      ∀ k, (m.get? k).isSome = (n.get? k).isSome := Iff.rfl
  constructor
  · intro h k
    have hk := hcontains.mp h.contains_eq k
    cases hm : m.get? k with
    | none =>
      cases hn : n.get? k with
      | none => exact .none
      | some ws => rw [hm, hn] at hk; cases hk
    | some vs =>
      cases hn : n.get? k with
      | none => rw [hm, hn] at hk; cases hk
      | some ws => exact .some (h.related k vs ws hm hn)
  · intro h
    refine ⟨hcontains.mpr fun k => rel_isSome (h k), fun k vs ws hvs hws => ?_⟩
    have hk := h k
    rw [hvs, hws] at hk
    exact Option.rel_some_some.mp hk

namespace Corresponding

variable [Std.TransOrd K] {E : V → V → Prop} {R : P → Q → Prop} {m : Multimap K V P}
  {n : Multimap K V Q} {p : P} {q : Q} {j k : K} {vs ws : List V} {f g : List V → List V}

/-! ### What is looked up -/

theorem get? (h : Corresponding E R m n) (hk : SameKey j k) :
    Option.Rel (List.Forall₂ E) (m.get? j) (n.get? k) := by
  have hj : m.get? j = m.get? k := Store.get?_congr hk
  rw [hj]
  exact keyByKey_iff.mp h.entries k

theorem sequence (h : Corresponding E R m n) (hk : SameKey j k) :
    List.Forall₂ E (m.sequence j) (n.sequence k) := rel_getD (h.get? hk) .nil

theorem first? (h : Corresponding E R m n) (hk : SameKey j k) :
    Option.Rel E (m.first? j) (n.first? k) := rel_bind (h.get? hk) rel_head?

theorem contains_eq (h : Corresponding E R m n) (hk : SameKey j k) :
    m.contains j = n.contains k := rel_isSome (h.get? hk)

theorem size_eq (h : Corresponding E R m n) : m.size = n.size :=
  Nat.le_antisymm (h.entries.size_le h.left) (h.entries.flip.size_le h.right)

theorem isEmpty_eq (h : Corresponding E R m n) : m.isEmpty = n.isEmpty := by
  have hsize : m.store.entries.length = n.store.entries.length := h.size_eq
  show m.store.entries.isEmpty = n.store.entries.isEmpty
  rw [Bool.eq_iff_iff, List.isEmpty_iff_length_eq_zero, List.isEmpty_iff_length_eq_zero, hsize]

/-! ### What is changed -/

/-- A change at one key in both maps. -/
theorem changed (h : Corresponding E R m n) (hk : SameKey j k) {s t : Store K V}
    (hs : s.WellFormed) (ht : t.WellFormed) {x y : K → Option (List V)}
    (hx : ∀ i, s.get? i = if SameKey j i then x i else m.store.get? i)
    (hy : ∀ i, t.get? i = if SameKey k i then y i else n.store.get? i)
    (hxy : ∀ i, Option.Rel (List.Forall₂ E) (x i) (y i)) (hp : R p q) :
    Corresponding E R ⟨s, p⟩ ⟨t, q⟩ := by
  refine ⟨hs, ht, keyByKey_iff.mpr fun i => ?_, hp⟩
  show Option.Rel _ (s.get? i) (t.get? i)
  rw [hx, hy]
  by_cases hi : SameKey j i
  · rw [if_pos hi, if_pos (hk.same_left.mp hi)]
    exact hxy i
  · rw [if_neg hi, if_neg (mt hk.same_left.mpr hi)]
    exact keyByKey_iff.mp h.entries i

theorem insert (h : Corresponding E R m n) (hk : SameKey j k) (hvs : List.Forall₂ E vs ws)
    (hp : R p q) : Corresponding E R ⟨m.store.insert j vs, p⟩ ⟨n.store.insert k ws, q⟩ :=
  h.changed hk h.left.insert h.right.insert (fun _ => Store.get?_insert)
    (fun _ => Store.get?_insert) (fun _ => .some hvs) hp

theorem register (h : Corresponding E R m n) (hk : SameKey j k) :
    Corresponding E R (m.register j) (n.register k) :=
  h.changed hk h.left.register h.right.register (fun _ => Store.get?_register)
    (fun _ => Store.get?_register) (fun _ => .some (h.sequence hk)) h.policy

theorem modify (h : Corresponding E R m n) (hk : SameKey j k) (hf : Respects E f g) :
    Corresponding E R (m.modify j f) (n.modify k g) :=
  h.changed hk h.left.modify h.right.modify (fun _ => Store.get?_modify)
    (fun _ => Store.get?_modify) (fun i => rel_map (h.get? (SameKey.refl i)) fun hvs => hf hvs)
    h.policy

theorem erase (h : Corresponding E R m n) (hk : SameKey j k) :
    Corresponding E R (m.erase j) (n.erase k) :=
  h.changed hk h.left.erase h.right.erase (fun _ => Store.get?_erase) (fun _ => Store.get?_erase)
    (fun _ => .none) h.policy

theorem mapSequences (h : Corresponding E R m n) (hf : Respects E f g) :
    Corresponding E R (m.mapSequences f) (n.mapSequences g) := by
  refine ⟨h.left.mapSequences, h.right.mapSequences, keyByKey_iff.mpr fun i => ?_, h.policy⟩
  show Option.Rel _ ((m.store.mapSequences f).get? i) ((n.store.mapSequences g).get? i)
  rw [Store.get?_mapSequences, Store.get?_mapSequences]
  exact rel_map (h.get? (SameKey.refl i)) fun hvs => hf hvs

omit [Std.TransOrd K] in
theorem clear (hp : R p q) : Corresponding E R ⟨m.store.clear, p⟩ ⟨n.store.clear, q⟩ :=
  ⟨.clear, .clear, keyByKey_iff.mpr fun _ => .none, hp⟩

theorem insertAll (h : Corresponding E R m n) {es fs : List (Entry K V)}
    (hes : List.Forall₂ (Paired (List.Forall₂ E)) es fs) :
    Corresponding E R (m.insertAll es) (n.insertAll fs) := by
  induction hes generalizing m n with
  | nil => exact h
  | cons he _ ih => exact ih (h.insert he.1 he.2 h.policy)

/-! ### What is offered -/

/-- What comes of an offer is written. -/
theorem write (h : Corresponding E R m n) (hk : SameKey j k) {x : Logged (P × List V)}
    {y : Logged (Q × List V)} (hxy : Logged.Agree (Supplied E R) x y) :
    Logged.Agree (Corresponding E R) (do let (p, vs) ← x; return ⟨m.store.insert j vs, p⟩)
      (do let (q, ws) ← y; return ⟨n.store.insert k ws, q⟩) :=
  hxy.bind fun ⟨hp, hvs⟩ => .pure (h.insert hk hvs hp)

variable [AbsencePolicy P V] [AbsencePolicy Q V] {v w : Option V}
  {offered offered' : List (Option V)}

theorem assign (hR : Parallel E R) (h : Corresponding E R m n) (hk : SameKey j k)
    (hv : Option.Rel E v w) : Logged.Agree (Corresponding E R) (m.assign j v) (n.assign k w) :=
  h.write hk (hR.supply h.policy .back .nil hv)

theorem append (hR : Parallel E R) (h : Corresponding E R m n) (hk : SameKey j k)
    (hv : Option.Rel E v w) : Logged.Agree (Corresponding E R) (m.append j v) (n.append k w) :=
  h.write hk (hR.supply h.policy .back (h.sequence hk) hv)

theorem prepend (hR : Parallel E R) (h : Corresponding E R m n) (hk : SameKey j k)
    (hv : Option.Rel E v w) : Logged.Agree (Corresponding E R) (m.prepend j v) (n.prepend k w) :=
  h.write hk (hR.supply h.policy .front (h.sequence hk) hv)

theorem appendAll (hR : Parallel E R) (h : Corresponding E R m n) (hk : SameKey j k)
    (hvs : List.Forall₂ (Option.Rel E) offered offered') :
    Logged.Agree (Corresponding E R) (m.appendAll j offered) (n.appendAll k offered') := by
  have hall := h.write hk (hR.supplyAll h.policy (h.sequence hk) hvs)
  cases hvs with
  | nil => exact .pure h
  | cons _ _ => exact hall

theorem extend (hR : Parallel E R) (h : Corresponding E R m n) {pairs pairs' : List (K × V)}
    (hpairs : List.Forall₂ (Paired E) pairs pairs') :
    Logged.Agree (Corresponding E R) (m.extend pairs) (n.extend pairs') :=
  Logged.Agree.foldlM_forall₂ (T := Paired E) (fun he h' => h'.append hR he.1 (.some he.2)) hpairs h

end Corresponding

/-! ## One operation -/

/-- Answers that correspond, from maps that do. -/
def Answered (E : V → V → Prop) (R : P → Q → Prop) (r : Answer V × Multimap K V P)
    (s : Answer V × Multimap K V Q) : Prop := r.1.Corresponds E s.1 ∧ Corresponding E R r.2 s.2

section

variable [BEq V] {E : V → V → Prop} {vs vs' ws ws' : List V}

theorem beq_eq_of_forall₂ (hE : Compatible E) (hvs : List.Forall₂ E vs vs')
    (hws : List.Forall₂ E ws ws') : (vs == ws) = (vs' == ws') := by
  induction hvs generalizing ws ws' with
  | nil => cases hws <;> rfl
  | cons hv _ ih =>
    cases hws with
    | nil => rfl
    | cons hw hws => rw [List.cons_beq_cons, List.cons_beq_cons, hE hv hw, ih hws]

theorem contains_eq_of_forall₂ (hE : Compatible E) {v v' : V} (hv : E v v')
    (hws : List.Forall₂ E ws ws') : ws.contains v = ws'.contains v' := by
  induction hws with
  | nil => rfl
  | cons hw _ ih => rw [List.contains_cons, List.contains_cons, hE hv hw, ih]

theorem covers_eq_of_forall₂ (hE : Compatible E) (hvs : List.Forall₂ E vs vs')
    (hws : List.Forall₂ E ws ws') : covers vs ws = covers vs' ws' := by
  have hall : vs.all ws.contains = vs'.all ws'.contains := by
    induction hvs with
    | nil => rfl
    | cons hv _ ih => rw [List.all_cons, List.all_cons, contains_eq_of_forall₂ hE hv hws, ih]
  unfold covers
  rw [hvs.length_eq, hws.length_eq, hall]

end

namespace Corresponding

variable [Std.TransOrd K] [BEq V] {E : V → V → Prop} {R : P → Q → Prop} {m : Multimap K V P}
  {n : Multimap K V Q}

theorem containsSequence_eq (hE : Compatible E) (h : Corresponding E R m n) {ws ws' : List V}
    (hws : List.Forall₂ E ws ws') : m.containsSequence ws = n.containsSequence ws' := by
  rw [Bool.eq_iff_iff, (Coherent.of_wellFormed h.left).containsSequence_iff,
    (Coherent.of_wellFormed h.right).containsSequence_iff]
  simp only [← beq_iff_forall₂]
  constructor
  · rintro ⟨k, vs, hvs, heq⟩
    obtain ⟨vs', hvs', hrel⟩ := h.entries.exists_of_get? hvs
    exact ⟨k, vs', hvs', (beq_eq_of_forall₂ hE hrel hws).symm.trans heq⟩
  · rintro ⟨k, vs', hvs', heq⟩
    obtain ⟨vs, hvs, hrel⟩ := h.entries.flip.exists_of_get? hvs'
    exact ⟨k, vs, hvs, (beq_eq_of_forall₂ hE hrel hws).trans heq⟩

theorem answer (hE : Compatible E) (h : Corresponding E R m n) {q q' : Query K V}
    (hq : q.Corresponds E q') : (q.answer m).Corresponds E (q'.answer n) := by
  cases hq with
  | sequence hk => exact .sequence (h.get? hk)
  | first hk => exact .value (h.first? hk)
  | contains hk => exact .truth (h.contains_eq hk)
  | containsSequence hvs => exact .truth (h.containsSequence_eq hE hvs)
  | size => exact .count h.size_eq
  | isEmpty => exact .truth h.isEmpty_eq

variable [AbsencePolicy P V] [AbsencePolicy Q V]

/-- **One operation.** Maps that correspond answer operations that do with answers that do, log the
same, and correspond afterwards. -/
theorem step (hE : Compatible E) (hR : Parallel E R) (h : Corresponding E R m n)
    {o : Operation K V P} {o' : Operation K V Q} (ho : o.Corresponds E R o') :
    Logged.Agree (Answered E R) (o.run m) (o'.run n) := by
  cases ho with
  | assign hk hv => exact (h.assign hR hk hv).bind fun h' => .pure ⟨.done, h'⟩
  | append hk hv => exact (h.append hR hk hv).bind fun h' => .pure ⟨.done, h'⟩
  | prepend hk hv => exact (h.prepend hR hk hv).bind fun h' => .pure ⟨.done, h'⟩
  | appendAll hk hvs => exact (h.appendAll hR hk hvs).bind fun h' => .pure ⟨.done, h'⟩
  | appendAll? hk hvs =>
    cases hvs with
    | none => exact ⟨⟨.refused _, h⟩, rfl⟩
    | some hvs =>
      obtain ⟨hmap, hevents⟩ := h.appendAll hR hk hvs
      refine ⟨⟨.accepted, hmap⟩, ?_⟩
      simpa [Operation.run, Multimap.appendAll?] using hevents
  | extend hpairs => exact (h.extend hR hpairs).bind fun h' => .pure ⟨.done, h'⟩
  | insert hk hvs => exact .pure ⟨.sequence (h.get? hk), h.insert hk hvs h.policy⟩
  | insertAll hes => exact .pure ⟨.done, h.insertAll hes⟩
  | erase hk => exact .pure ⟨.sequence (h.get? hk), h.erase hk⟩
  | clear => exact .pure ⟨.done, .clear h.policy⟩
  | edit hk hf =>
    have hregister := h.register hk
    exact .pure ⟨.sequence (hregister.get? hk), hregister.modify hk hf⟩
  | update hk hf =>
    have hupdate := h.insert hk (hf (h.sequence hk)) h.policy
    exact .pure ⟨.sequence (hupdate.get? hk), hupdate⟩
  | modify hk hf => exact .pure ⟨.sequence (h.get? hk), h.modify hk hf⟩
  | modifyAll hf => exact .pure ⟨.count h.size_eq, h.mapSequences hf⟩
  | setPolicy hp =>
    exact .pure ⟨.done, h.left, h.right, ⟨h.entries.contains_eq, h.entries.related⟩, hp⟩
  | query hq => exact .pure ⟨h.answer hE hq, h⟩

/-- **A run of operations.** -/
theorem run (hE : Compatible E) (hR : Parallel E R) (h : Corresponding E R m n)
    {os : List (Operation K V P)} {os' : List (Operation K V Q)}
    (hos : List.Forall₂ (Operation.Corresponds E R) os os') :
    Logged.Agree
      (fun r s => List.Forall₂ (Answer.Corresponds E) r.1 s.1 ∧ Corresponding E R r.2 s.2)
      (m.run os) (n.run os') := by
  induction hos generalizing m n with
  | nil => exact .pure ⟨.nil, h⟩
  | cons ho _ ih =>
    refine (h.step hE hR ho).bind fun {r s} ⟨hanswer, h'⟩ => (ih h').bind fun {r' s'} hrest => ?_
    exact .pure ⟨.cons hanswer hrest.1, hrest.2⟩

end Corresponding

/-! ## Comparisons -/

/-- Comparisons of maps that correspond come out the same if sequences that correspond are not told
apart. -/
theorem Corresponding.matchesBy_eq [Std.TransOrd K] {E : V → V → Prop} {R : P → Q → Prop}
    {m : Multimap K V P} {n : Multimap K V Q} {agree : List V → List V → Bool}
    (hagree : ∀ {vs vs' ws ws'}, List.Forall₂ E vs vs' → List.Forall₂ E ws ws' →
      agree vs ws = agree vs' ws') {P' Q' : Type} {R' : P' → Q' → Prop} {m' : Multimap K V P'}
    {n' : Multimap K V Q'} (h : Corresponding E R m n) (h' : Corresponding E R' m' n') :
    m.matchesBy agree m' = n.matchesBy agree n' := by
  rw [Bool.eq_iff_iff, matchesBy_iff h.left h'.left, matchesBy_iff h.right h'.right]
  constructor
  · exact fun hmatch =>
      h.entries.replace h'.entries hmatch fun hvs hws heq => (hagree hvs hws).symm.trans heq
  · exact fun hmatch =>
      h.entries.flip.replace h'.entries.flip hmatch fun hvs hws heq => (hagree hvs hws).trans heq

end Multimap
