import Multimap.Proofs.UpToOrderLaws

/-!
# What it means that maps are equal

Equality counts the keys of both maps and looks up those of one of them in the other. So it is not
plain that it is symmetric; that it is follows from what it means (`equal_iff`): the same keys, with
sequences that are equal value by value.

The equality of the values need not be reflexive, and it need only be symmetric and transitive among
the values that occur (`PartialEquivAmong`). Maps are such values themselves, if they are maps that
can come about, and therefore the laws hold of maps of maps, and so on.

* `equal_iff`: what equality means, key by key. All the rest follows from it.
* `PartialEquivAmong.maps`: from the values to the maps of them.
* **`equality_laws`**: equality is symmetric and transitive, looks at nothing but keys and values,
  and implies equality up to order in both directions.
-/

namespace Multimap

variable {K V P Q O : Type}

/-! ## Value by value -/

section

variable [BEq V] {us vs ws : List V}

/-- Equality is symmetric and transitive among the values that are `Proper`. -/
structure PartialEquivAmong (Proper : V → Prop) : Prop where
  symm {v w : V} : Proper v → Proper w → (v == w) = true → (w == v) = true
  trans {u v w : V} :
    Proper u → Proper v → Proper w → (u == v) = true → (v == w) = true → (u == w) = true

/-- Sequences of the same length that are equal at every place. -/
def ValueByValue (vs ws : List V) : Prop := List.Forall₂ (fun v w => (v == w) = true) vs ws

theorem PartialEquivAmong.all [PartialEquivBEq V] : PartialEquivAmong fun _ : V => True :=
  ⟨fun _ _ => BEq.symm, fun _ _ _ => BEq.trans⟩

theorem valueByValue_self_iff : ValueByValue vs vs ↔ ∀ v ∈ vs, (v == v) = true :=
  List.forall₂_same

theorem ValueByValue.covered (h : ValueByValue vs ws) : Covered vs ws :=
  ⟨h.length_eq, fun _ hv => exists_of_forall₂ h hv⟩

variable {Proper : V → Prop}

theorem ValueByValue.symm (hV : PartialEquivAmong Proper) (hvs : ∀ v ∈ vs, Proper v)
    (hws : ∀ w ∈ ws, Proper w) (h : ValueByValue vs ws) : ValueByValue ws vs := by
  induction h with
  | nil => exact .nil
  | cons hvw _ ih =>
    obtain ⟨hv, hvs⟩ := List.forall_mem_cons.mp hvs
    obtain ⟨hw, hws⟩ := List.forall_mem_cons.mp hws
    exact .cons (hV.symm hv hw hvw) (ih hvs hws)

theorem ValueByValue.trans (hV : PartialEquivAmong Proper) (hus : ∀ u ∈ us, Proper u)
    (hvs : ∀ v ∈ vs, Proper v) (hws : ∀ w ∈ ws, Proper w) (huv : ValueByValue us vs)
    (hvw : ValueByValue vs ws) : ValueByValue us ws := by
  induction huv generalizing ws with
  | nil => exact hvw
  | cons huv _ ih =>
    cases hvw with
    | cons hvw hrest =>
      obtain ⟨hu, hus⟩ := List.forall_mem_cons.mp hus
      obtain ⟨hv, hvs⟩ := List.forall_mem_cons.mp hvs
      obtain ⟨hw, hws⟩ := List.forall_mem_cons.mp hws
      exact .cons (hV.trans hu hv hw huv hvw) (ih hus hvs hws hrest)

end

/-! ## Key by key -/

section

variable [Ord K] [Std.TransOrd K] [BEq V] {m : Multimap K V P} {n : Multimap K V Q}
  {o : Multimap K V O}

/-- **Equal maps** have the same keys with sequences that are equal value by value. -/
theorem equal_iff (hm : m.store.WellFormed) (hn : n.store.WellFormed) :
    m.equal n = true ↔ KeyByKey ValueByValue m n := by
  unfold equal
  rw [matchesBy_iff hm hn]
  simp only [beq_iff_forall₂]
  rfl

theorem equal_self_iff (hm : m.store.WellFormed) :
    m.equal m = true ↔ ∀ k vs, m.get? k = some vs → ∀ v ∈ vs, (v == v) = true := by
  rw [equal_iff hm hm]
  constructor
  · exact fun h k vs hvs => valueByValue_self_iff.mp (h.related k vs vs hvs hvs)
  · refine fun h => ⟨fun _ => rfl, fun k vs ws hvs hws => ?_⟩
    cases hvs.symm.trans hws
    exact valueByValue_self_iff.mpr (h k vs hvs)

omit [Std.TransOrd K] [BEq V] in
theorem KeyByKey.congr {R : List V → List V → Prop} {P' Q' : Type} {m' : Multimap K V P'}
    {n' : Multimap K V Q'} (hm : KeyByKey Eq m m') (hn : KeyByKey Eq n n') (h : KeyByKey R m n) :
    KeyByKey R m' n' :=
  hm.replace hn h fun hvs hws hR => hvs ▸ hws ▸ hR

/-- Nothing matters but the sequence of each key. -/
theorem equal_congr {P' Q' : Type} {m' : Multimap K V P'} {n' : Multimap K V Q'}
    (hm : m.store.WellFormed) (hm' : m'.store.WellFormed) (hn : n.store.WellFormed)
    (hn' : n'.store.WellFormed) (hmm' : KeyByKey Eq m m') (hnn' : KeyByKey Eq n n') :
    m.equal n = m'.equal n' := by
  rw [Bool.eq_iff_iff, equal_iff hm hn, equal_iff hm' hn']
  constructor
  · exact KeyByKey.congr hmm' hnn'
  · exact KeyByKey.congr (hmm'.symm fun _ _ => Eq.symm) (hnn'.symm fun _ _ => Eq.symm)

theorem equalUpToOrder_of_equal (hm : m.store.WellFormed) (hn : n.store.WellFormed)
    (h : m.equal n = true) : m.equalUpToOrder n = true := by
  rw [equal_iff hm hn] at h
  rw [equalUpToOrder_iff hm hn]
  exact h.imp fun _ _ => ValueByValue.covered

end

/-! ## Maps of proper values -/

/-- A map that can come about, all of whose values are `Proper`. -/
structure ReachableWith [Ord K] [BEq V] (Proper : V → Prop) (m : Multimap K V P) : Prop where
  reachable : Reachable m
  proper : ∀ e ∈ m.store.entries, ∀ v ∈ e.2, Proper v

section

variable [Ord K] [Std.TransOrd K] [BEq V] {Proper : V → Prop} {m : Multimap K V P}
  {n : Multimap K V Q} {o : Multimap K V O} {k : K} {vs : List V}

theorem ReachableWith.wellFormed (h : ReachableWith Proper m) : m.store.WellFormed :=
  h.reachable.wellFormed

theorem ReachableWith.proper_of_get? (h : ReachableWith Proper m) (hk : m.get? k = some vs) :
    ∀ v ∈ vs, Proper v := by
  obtain ⟨e, he, -, rfl⟩ := h.wellFormed.get?_eq_some_iff.mp hk
  exact h.proper e he

theorem equal_symm (hV : PartialEquivAmong Proper) (hm : ReachableWith Proper m)
    (hn : ReachableWith Proper n) (h : m.equal n = true) : n.equal m = true := by
  rw [equal_iff hm.wellFormed hn.wellFormed] at h
  rw [equal_iff hn.wellFormed hm.wellFormed]
  refine ⟨h.flip.contains_eq, fun k ws vs hws hvs => ?_⟩
  exact (h.related k vs ws hvs hws).symm hV (hm.proper_of_get? hvs) (hn.proper_of_get? hws)

theorem equal_trans (hV : PartialEquivAmong Proper) (hm : ReachableWith Proper m)
    (hn : ReachableWith Proper n) (ho : ReachableWith Proper o) (hmn : m.equal n = true)
    (hno : n.equal o = true) : m.equal o = true := by
  rw [equal_iff hm.wellFormed hn.wellFormed] at hmn
  rw [equal_iff hn.wellFormed ho.wellFormed] at hno
  rw [equal_iff hm.wellFormed ho.wellFormed]
  refine ⟨fun k => (hmn.contains_eq k).trans (hno.contains_eq k), fun k us ws hus hws => ?_⟩
  obtain ⟨vs, hvs, huv⟩ := hmn.exists_of_get? hus
  exact huv.trans hV (hm.proper_of_get? hus) (hn.proper_of_get? hvs) (ho.proper_of_get? hws)
    (hno.related k vs ws hvs hws)

/-- **Maps are proper values** of other maps when their own values are proper. -/
theorem PartialEquivAmong.maps (hV : PartialEquivAmong Proper) :
    PartialEquivAmong fun m : Multimap K V P => ReachableWith Proper m :=
  ⟨equal_symm hV, equal_trans hV⟩

end

/-! ## The laws -/

/-- What equality means, and its laws, for maps with values of type `V`; some of them need the
values to be `Proper`. -/
structure EqualityLaws (K V : Type) [Ord K] [BEq V] (Proper : V → Prop) : Prop where
  /-- The keys are the same, and the sequences are equal value by value. -/
  iff_valueByValue {P Q : Type} {m : Multimap K V P} {n : Multimap K V Q} :
    Reachable m → Reachable n → (m.equal n = true ↔ KeyByKey ValueByValue m n)
  symm {P Q : Type} {m : Multimap K V P} {n : Multimap K V Q} :
    ReachableWith Proper m → ReachableWith Proper n → m.equal n = n.equal m
  trans {P Q O : Type} {m : Multimap K V P} {n : Multimap K V Q} {o : Multimap K V O} :
    ReachableWith Proper m → ReachableWith Proper n → ReachableWith Proper o →
      m.equal n = true → n.equal o = true → m.equal o = true
  /-- The arrangement, the order of the keys, their spelling and the policy do not matter. -/
  congr {P P' Q Q' : Type} {m : Multimap K V P} {m' : Multimap K V P'} {n : Multimap K V Q}
    {n' : Multimap K V Q'} :
    Reachable m → Reachable m' → Reachable n → Reachable n' → KeyByKey Eq m m' →
      KeyByKey Eq n n' → m.equal n = m'.equal n'
  /-- A map is equal to itself if all its values are equal to themselves. -/
  self_iff {P : Type} {m : Multimap K V P} :
    Reachable m → (m.equal m = true ↔ ∀ k vs, m.get? k = some vs → ∀ v ∈ vs, (v == v) = true)
  upToOrder {P Q : Type} {m : Multimap K V P} {n : Multimap K V Q} :
    ReachableWith Proper m → ReachableWith Proper n → m.equal n = true →
      m.equalUpToOrder n = true ∧ n.equalUpToOrder m = true
  /-- The same for two slots, which may be one. -/
  slots {P : Type} {w : Workspace K V P} {s t : String} {m n : Multimap K V P} :
    w.get? s = some m → w.get? t = some n → ReachableWith Proper m → ReachableWith Proper n →
      (m == n) = true →
        w.equalUpToOrder? s t = some true ∧ w.equalUpToOrder? t s = some true

theorem EqualityLaws.of_values [Ord K] [Std.TransOrd K] [BEq V] {Proper : V → Prop}
    (hV : PartialEquivAmong Proper) : EqualityLaws K V Proper := by
  have hupToOrder : ∀ {P Q : Type} {m : Multimap K V P} {n : Multimap K V Q},
      ReachableWith Proper m → ReachableWith Proper n → m.equal n = true →
        m.equalUpToOrder n = true ∧ n.equalUpToOrder m = true := fun hm hn h =>
    ⟨equalUpToOrder_of_equal hm.wellFormed hn.wellFormed h,
      equalUpToOrder_of_equal hn.wellFormed hm.wellFormed (equal_symm hV hm hn h)⟩
  constructor
  case iff_valueByValue => exact fun hm hn => equal_iff hm.wellFormed hn.wellFormed
  case symm =>
    intro P Q m n hm hn
    rw [Bool.eq_iff_iff]
    exact ⟨equal_symm hV hm hn, equal_symm hV hn hm⟩
  case trans => exact equal_trans hV
  case congr =>
    exact fun hm hm' hn hn' =>
      equal_congr hm.wellFormed hm'.wellFormed hn.wellFormed hn'.wellFormed
  case self_iff => exact fun hm => equal_self_iff hm.wellFormed
  case upToOrder => exact hupToOrder
  case slots =>
    intro P w s t m n hs ht hm hn h
    obtain ⟨hmn, hnm⟩ := hupToOrder hm hn h
    rw [Workspace.equalUpToOrder?_eq hs ht, Workspace.equalUpToOrder?_eq ht hs, hmn, hnm,
      Bool.or_true, Bool.or_true]
    exact ⟨rfl, rfl⟩

/-- **The laws of equality** for values whose equality is symmetric and transitive; if it is so
among all of them, all are proper (`PartialEquivAmong.all`). The laws hold as well of maps whose
values are such maps, and because these are proper values again, to any depth. -/
theorem equality_laws [Ord K] [Std.TransOrd K] [BEq V] {Proper : V → Prop}
    (hV : PartialEquivAmong Proper) :
    EqualityLaws K V Proper ∧
      ∀ (J P : Type) [Ord J] [Std.TransOrd J],
        PartialEquivAmong (fun m : Multimap K V P => ReachableWith Proper m) ∧
          EqualityLaws J (Multimap K V P) fun m => ReachableWith Proper m :=
  ⟨.of_values hV, fun _ _ _ _ => ⟨hV.maps, .of_values hV.maps⟩⟩

/-- Maps of maps of doubles, with their keys in different orders and with different zeros. -/
theorem equality_laws_zeros :
    let v : Multimap Int64 Float DropAbsent :=
      (empty .arrival ⟨⟩).insertAll [(1, [0]), (2, [])]
    let w : Multimap Int64 Float DropAbsent :=
      (empty .arrival ⟨⟩).insertAll [(2, []), (1, [-0])]
    let m : Multimap Int64 (Multimap Int64 Float DropAbsent) DropAbsent :=
      (empty .arrival ⟨⟩).insertAll [(7, [v])]
    let n : Multimap Int64 (Multimap Int64 Float DropAbsent) (Policy Unit) :=
      (empty .arrival .drop).insertAll [(7, [w])]
    PartialEquivAmong (fun _ : Float => True) ∧ v.equal w = true ∧ w.equal v = true ∧
      m.equal n = true ∧ n.equal m = true ∧ n.equalUpToOrder m = true := by
  intro v w m n
  have hfloat : PartialEquivAmong fun _ : Float => True := .all
  obtain ⟨laws, nested⟩ := equality_laws (K := Int64) hfloat
  obtain ⟨-, lawsOfMaps⟩ := nested Int64 DropAbsent
  have hv : ReachableWith (fun _ => True) v := ⟨.literal _ _, fun _ _ _ _ => trivial⟩
  have hw : ReachableWith (fun _ => True) w := ⟨.literal _ _, fun _ _ _ _ => trivial⟩
  have hm : ReachableWith (ReachableWith fun _ => True) m := by
    refine ⟨.literal _ _, fun e he u hu => ?_⟩
    obtain rfl : e = (7, [v]) := List.mem_singleton.mp he
    obtain rfl := List.mem_singleton.mp hu
    exact hv
  have hn : ReachableWith (ReachableWith fun _ => True) n := by
    refine ⟨.literal _ _, fun e he u hu => ?_⟩
    obtain rfl : e = (7, [w]) := List.mem_singleton.mp he
    obtain rfl := List.mem_singleton.mp hu
    exact hw
  have hvw : v.equal w = true := by decide +kernel
  have hmn : m.equal n = true := by decide +kernel
  clear_value m n v w
  refine ⟨hfloat, hvw, (laws.symm hv hw).symm.trans hvw, hmn,
    (lawsOfMaps.symm hm hn).symm.trans hmn, (lawsOfMaps.upToOrder hm hn hmn).2⟩

end Multimap
