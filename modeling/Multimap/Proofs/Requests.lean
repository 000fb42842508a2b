import Multimap.Proofs.Interference

/-!
# The same requests under different policies

A request that does not set a policy can be made to maps under policies of any type (`Request`), and
so the runs of the same requests under two policies can be compared. They can be compared as well if
the second map is offered other values than the first, as long as its policy makes the same of them
(`Mimics`).

* `Matched`: two ways to offer something make the same of every sequence.
* `Mimics.step`, `Mimics.run`: the answers and the stores of the two runs are the same.
-/

namespace Multimap

variable {K V P Q : Type}

/-! ## Requests that set no policy -/

/-- A request that sets no policy, and may be made under policies of any type. -/
abbrev Request (K V : Type) := Operation K V Empty

namespace Request

/-- The request to a map under policies of type `P`. -/
def under (P : Type) : Request K V → Operation K V P
  | .assign k v => .assign k v
  | .append k v => .append k v
  | .prepend k v => .prepend k v
  | .appendAll k offered => .appendAll k offered
  | .appendAll? k offered => .appendAll? k offered
  | .extend pairs => .extend pairs
  | .insert k vs => .insert k vs
  | .insertAll entries => .insertAll entries
  | .erase k => .erase k
  | .clear => .clear
  | .edit k f => .edit k f
  | .update k f => .update k f
  | .modify k f => .modify k f
  | .modifyAll f => .modifyAll f
  | .query q => .query q

/-- The values, there or absent, that the request offers, and the ends for which it offers them. -/
def offers : Request K V → List (Position × Option V)
  | .assign _ v | .append _ v => [(.back, v)]
  | .prepend _ v => [(.front, v)]
  | .appendAll _ offered | .appendAll? _ (some offered) => offered.map (.back, ·)
  | .extend pairs => pairs.map fun e => (.back, some e.2)
  | _ => []

/-- The request with `g position v` offered in the place of `v`. -/
def mapOffers (g : Position → Option V → Option V) : Request K V → Request K V
  | .assign k v => .assign k (g .back v)
  | .append k v => .append k (g .back v)
  | .prepend k v => .prepend k (g .front v)
  | .appendAll k offered => .appendAll k (offered.map (g .back))
  | .appendAll? k offered => .appendAll? k (offered.map (List.map (g .back)))
  | r => r

theorem mapOffers_id (r : Request K V) : r.mapOffers (fun _ v => v) = r := by
  cases r with
  | appendAll? k offered => cases offered <;> simp [mapOffers]
  | _ => simp [mapOffers]

end Request

/-- Carries out requests on a store under a policy. -/
def Store.runUnder [Ord K] [BEq V] [AbsencePolicy P V] (s : Store K V) (p : P)
    (rs : List (Request K V)) : Logged (List (Answer V) × Multimap K V P) :=
  Multimap.run ⟨s, p⟩ (rs.map (Request.under P))

/-! ## Offers that match -/

/-- Under related policies, both ways to offer something make the same of every sequence, and leave
related policies. -/
def Matched (R : P → Q → Prop) (f : P → List V → Logged (P × List V))
    (g : Q → List V → Logged (Q × List V)) : Prop :=
  ∀ ⦃p : P⦄ ⦃q : Q⦄, R p q → ∀ vs,
    (f p vs).value.2 = (g q vs).value.2 ∧ R (f p vs).value.1 (g q vs).value.1

/-- Related policies make the same of every value that is offered, when it is offered to the second
as `g` has it; a value that is there is offered as it is. -/
structure Mimics [AbsencePolicy P V] [AbsencePolicy Q V] (R : P → Q → Prop)
    (g : Position → Option V → Option V) : Prop where
  some_eq (position : Position) (v : V) : g position (some v) = some v
  supply (position : Position) (v : Option V) :
    Matched R (fun p vs => supply p position vs v) fun q vs => supply q position vs (g position v)

variable {R : P → Q → Prop} {f : P → List V → Logged (P × List V)}
  {f' : Q → List V → Logged (Q × List V)}

/-- The same offer, to an empty sequence in the place of the one that is there. -/
theorem Matched.anew (h : Matched R f f') : Matched R (fun p _ => f p []) fun q _ => f' q [] :=
  fun _ _ hpq _ => h hpq []

theorem Mimics.supplyAll [AbsencePolicy P V] [AbsencePolicy Q V]
    {g : Position → Option V → Option V} (h : Mimics R g) (offered : List (Option V)) :
    Matched R (fun p vs => supplyAll p vs offered)
      fun q vs => supplyAll q vs (offered.map (g .back)) := by
  induction offered with
  | nil => exact fun _ _ hpq _ => ⟨rfl, hpq⟩
  | cons v offered ih =>
    intro p q hpq vs
    obtain ⟨hvs, hpq'⟩ := h.supply .back v hpq vs
    simp only [List.map_cons, supplyAll_cons, Logged.value_bind]
    rw [hvs]
    exact ih hpq' _

/-! ## Maps over the same store -/

/-- Maps over the same store under related policies. -/
structure SameStore (R : P → Q → Prop) (m : Multimap K V P) (n : Multimap K V Q) : Prop where
  store_eq : m.store = n.store
  policy : R m.policy n.policy

variable [Ord K] {m : Multimap K V P} {n : Multimap K V Q} {k : K}

theorem SameStore.sequence_eq (hmn : SameStore R m n) (k : K) : m.sequence k = n.sequence k :=
  congrArg (Store.sequence · k) hmn.store_eq

theorem SameStore.insertAll (hmn : SameStore R m n) (es : List (Entry K V)) :
    SameStore R (m.insertAll es) (n.insertAll es) := by
  induction es generalizing m n with
  | nil => exact hmn
  | cons e es ih => exact ih ⟨congrArg (·.insert e.1 e.2) hmn.store_eq, hmn.policy⟩

theorem Matched.offerTo (h : Matched R f f') (hmn : SameStore R m n) :
    SameStore R (m.offerTo k f).value (n.offerTo k f').value := by
  obtain ⟨hvs, hpolicy⟩ := h hmn.policy (m.sequence k)
  refine ⟨?_, ?_⟩
  · show m.store.insert k (f m.policy (m.sequence k)).value.2 =
      n.store.insert k (f' n.policy (n.sequence k)).value.2
    rw [hvs, hmn.store_eq, hmn.sequence_eq]
  · show R _ (f' n.policy (n.sequence k)).value.1
    rw [← hmn.sequence_eq]
    exact hpolicy

namespace Mimics

variable [AbsencePolicy P V] [AbsencePolicy Q V] {g : Position → Option V → Option V}

theorem appendAll (h : Mimics R g) (hmn : SameStore R m n) (offered : List (Option V)) :
    SameStore R (m.appendAll k offered).value (n.appendAll k (offered.map (g .back))).value := by
  unfold Multimap.appendAll
  rw [List.isEmpty_map]
  split
  · exact hmn
  · exact (h.supplyAll offered).offerTo hmn

theorem extend (h : Mimics R g) (hmn : SameStore R m n) (pairs : List (K × V)) :
    SameStore R (m.extend pairs).value (n.extend pairs).value := by
  induction pairs generalizing m n with
  | nil => exact hmn
  | cons e pairs ih =>
    have hone := h.supply .back (some e.2)
    rw [h.some_eq] at hone
    exact ih (hone.offerTo hmn)

variable [BEq V]

/-- **One request.** It is answered the same, and the stores stay the same. -/
theorem step (h : Mimics R g) (hmn : SameStore R m n) (r : Request K V) :
    ((r.under P).run m).value.1 = (((r.mapOffers g).under Q).run n).value.1 ∧
      SameStore R ((r.under P).run m).value.2 (((r.mapOffers g).under Q).run n).value.2 := by
  have hget : ∀ k, m.get? k = n.get? k := fun k => congrArg (·.get? k) hmn.store_eq
  -- A request that changes the store without regard to the policy changes both alike.
  have hstore : ∀ change : Store K V → Store K V,
      SameStore R ⟨change m.store, m.policy⟩ ⟨change n.store, n.policy⟩ := fun change =>
    ⟨congrArg change hmn.store_eq, hmn.policy⟩
  cases r with
  | assign k v => exact ⟨rfl, (h.supply .back v).anew.offerTo hmn⟩
  | append k v => exact ⟨rfl, (h.supply .back v).offerTo hmn⟩
  | prepend k v => exact ⟨rfl, (h.supply .front v).offerTo hmn⟩
  | appendAll k offered => exact ⟨rfl, h.appendAll hmn offered⟩
  | appendAll? k offered =>
    cases offered with
    | none => exact ⟨rfl, hmn⟩
    | some offered => exact ⟨rfl, h.appendAll hmn offered⟩
  | extend pairs => exact ⟨rfl, h.extend hmn pairs⟩
  | insert k vs => exact ⟨congrArg Answer.sequence (hget k), hstore (·.insert k vs)⟩
  | insertAll es => exact ⟨rfl, hmn.insertAll es⟩
  | erase k => exact ⟨congrArg Answer.sequence (hget k), hstore (·.erase k)⟩
  | clear => exact ⟨rfl, hstore (·.clear)⟩
  | edit k f =>
    have hregister := congrArg (fun s : Store K V => (s.register k).get? k) hmn.store_eq
    exact ⟨congrArg Answer.sequence hregister, hstore fun s => (s.register k).modify k f⟩
  | update k f =>
    have hupdate := congrArg (fun s : Store K V => (s.update k f).get? k) hmn.store_eq
    exact ⟨congrArg Answer.sequence hupdate, hstore (·.update k f)⟩
  | modify k f => exact ⟨congrArg Answer.sequence (hget k), hstore (·.modify k f)⟩
  | modifyAll f =>
    exact ⟨congrArg (fun s : Store K V => Answer.count s.size) hmn.store_eq,
      hstore (·.mapSequences f)⟩
  | setPolicy p => exact p.elim
  | query q =>
    refine ⟨?_, hmn⟩
    obtain ⟨s, p⟩ := m
    obtain ⟨t, p'⟩ := n
    obtain rfl : s = t := hmn.store_eq
    cases q <;> rfl

/-- **A run of requests.** They are answered the same, and the stores are the same at the end. -/
theorem run (h : Mimics R g) (hmn : SameStore R m n) (rs : List (Request K V)) :
    (m.run (rs.map (Request.under P))).value.1 =
        (n.run ((rs.map (Request.mapOffers g)).map (Request.under Q))).value.1 ∧
      SameStore R (m.run (rs.map (Request.under P))).value.2
        (n.run ((rs.map (Request.mapOffers g)).map (Request.under Q))).value.2 := by
  induction rs generalizing m n with
  | nil => exact ⟨rfl, hmn⟩
  | cons r rs ih =>
    obtain ⟨hanswer, hstep⟩ := h.step hmn r
    obtain ⟨hanswers, hend⟩ := ih hstep
    refine ⟨?_, hend⟩
    show ((r.under P).run m).value.1 :: _ = (((r.mapOffers g).under Q).run n).value.1 :: _
    rw [hanswer, hanswers]

end Mimics

end Multimap
