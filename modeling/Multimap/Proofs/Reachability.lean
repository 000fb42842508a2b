import Mathlib.Data.List.Forall2
import Multimap.Proofs.Independence
import Multimap.Proofs.Json.Guarantees
import Multimap.Workspace.Execution

/-!
# Maps that can come about, and what they show

A map comes about in one of a few ways and is then changed by operations, through its store, or by a
change of its policy (`Reachable`). Whatever is done to it, no two of its keys are the same and
sorted keys ascend, and therefore all the views of a map show the same entries (`Coherent`): what is
looked up under a key is what stands in the one entry of that key.

* `Reachable.wellFormed`: one case for each way in which a map comes about or changes.
* `Coherent.of_wellFormed`: the views agree if no key is there twice.
* **`coherent_of_reachable`**: the views of every map that can come about agree.
* `Workspace.Reachable.foldl_execute`: the maps that commands leave in a workspace are maps that can
  come about.
-/

namespace Multimap

variable {K V : Type} [Ord K]

/-! ## Access to a store -/

namespace Store

/-- What can be done to a store itself. -/
inductive Access (K V : Type)
  | insert (k : K) (vs : List V)
  | update (k : K) (f : List V → List V)
  | modify (k : K) (f : List V → List V)
  | modifyAll (f : List V → List V)
  | erase (k : K)
  | clear
  /-- Puts a store in its place that is filled with the entries. -/
  | refill (es : List (Entry K V))

/-- The store after it has been accessed. -/
def access (s : Store K V) : Access K V → Store K V
  | .insert k vs => s.insert k vs
  | .update k f => s.update k f
  | .modify k f => s.modify k f
  | .modifyAll f => s.mapSequences f
  | .erase k => s.erase k
  | .clear => s.clear
  | .refill es => .ofEntries s.arrangement es

variable [Std.TransOrd K] {s : Store K V}

theorem WellFormed.access (h : s.WellFormed) (x : Access K V) : (s.access x).WellFormed := by
  cases x with
  | insert k vs => exact h.insert
  | update k f => exact h.update
  | modify k f => exact h.modify
  | modifyAll f => exact h.mapSequences
  | erase k => exact h.erase
  | clear => exact .clear
  | refill es => exact .ofEntries _ es

theorem WellFormed.foldl_access (h : s.WellFormed) (xs : List (Access K V)) :
    (xs.foldl Store.access s).WellFormed := by
  induction xs generalizing s with
  | nil => exact h
  | cons x xs ih => exact ih (h.access x)

end Store

/-! ## Reachable maps -/

/-- The maps that can come about, under policies of any type. A copy of a map is the map again. -/
inductive Reachable [BEq V] : {P : Type} → Multimap K V P → Prop
  /-- The map without keys. -/
  | empty {P : Type} (a : Arrangement) (p : P) : Reachable (Multimap.empty a p)
  /-- The map of a store that has been in use. -/
  | ofStore {P : Type} {m : Multimap K V P} (a : Arrangement) (p : P) (xs : List (Store.Access K V))
      (h : (ofStore? p (some (xs.foldl Store.access (.empty a)))).value = .ok m) : Reachable m
  /-- The map whose entries are written out one after the other. -/
  | literal {P : Type} (p : P) (es : List (Entry K V)) :
      Reachable ((Multimap.empty .arrival p).insertAll es)
  /-- The map of pairs of a key and a value. -/
  | ofPairs {P : Type} [AbsencePolicy P V] (a : Arrangement) (p : P) (pairs : List (K × V)) :
      Reachable (Multimap.ofPairs a p pairs).value
  /-- The map of a JSON text. -/
  | ofJson {P : Type} [AbsencePolicy P V] [MemberName K] [JsonValue V] {m : Multimap K V P}
      (a : Arrangement) (p : P) (text : String) (h : (Multimap.ofJson a p text).value = .ok m) :
      Reachable m
  /-- The map after an operation. -/
  | operate {P : Type} [AbsencePolicy P V] {m : Multimap K V P} (h : Reachable m)
      (o : Operation K V P) : Reachable (o.run m).value.2
  /-- The map under another policy, maybe one of another type. -/
  | withPolicy {P Q : Type} {m : Multimap K V P} (h : Reachable m) (q : Q) :
      Reachable (m.withPolicy q)
  /-- The map after its store has been accessed. -/
  | access {P : Type} {m : Multimap K V P} (h : Reachable m) (x : Store.Access K V) :
      Reachable ⟨m.store.access x, m.policy⟩
  /-- The map whose store has taken on another order, if its order has no meaning. -/
  | relaid {P : Type} {m : Multimap K V P} {s : Store K V} (h : Reachable m)
      (hs : m.store.Relaid s) : Reachable ⟨s, m.policy⟩

section

variable [Std.TransOrd K] [BEq V] {P : Type} {m : Multimap K V P}

/-- No operation breaks a store. -/
theorem wellFormed_operate [AbsencePolicy P V] (hm : m.store.WellFormed) (o : Operation K V P) :
    (o.run m).value.2.store.WellFormed := by
  have halike : Alike m.store.arrangement m.store.arrangement m m := ⟨.refl ⟨hm, rfl⟩, rfl⟩
  exact (halike.step o).value.2.store.left.toWellFormed

/-- Nor does a run of them. -/
theorem wellFormed_run [AbsencePolicy P V] (hm : m.store.WellFormed) (os : List (Operation K V P)) :
    (m.run os).value.2.store.WellFormed := by
  have halike : Alike m.store.arrangement m.store.arrangement m m := ⟨.refl ⟨hm, rfl⟩, rfl⟩
  exact (halike.run os).value.2.store.left.toWellFormed

/-- **No key is there twice**, and sorted keys ascend. -/
theorem Reachable.wellFormed (h : Reachable m) : m.store.WellFormed := by
  induction h with
  | empty a p => exact .empty a
  | ofStore a p xs h =>
    cases h
    exact (Store.WellFormed.empty a).foldl_access xs
  | literal p es =>
    have halike : Alike .arrival .arrival (Multimap.empty .arrival p : Multimap K V _)
      (Multimap.empty .arrival p) := ⟨.empty _ _, rfl⟩
    exact (halike.insertAll es).store.left.toWellFormed
  | ofPairs a p pairs => exact wellFormed_operate (.empty a) (.extend pairs)
  | ofJson a p text h => exact wellFormed_ofJson h
  | operate _ o ih => exact wellFormed_operate ih o
  | withPolicy _ q ih => exact ih
  | access _ x ih => exact ih.access x
  | relaid _ hs ih => exact (Store.LaidOut.relaid ⟨ih, rfl⟩ hs).toWellFormed

/-! ## Views that agree -/

/-- The views of a map show the same entries. -/
structure Coherent (m : Multimap K V P) : Prop where
  /-- No two keys are the same, in whatever spelling. -/
  distinct : m.store.keys.Pairwise fun j k => ¬ SameKey j k
  ascending : m.store.arrangement = .sorted → m.store.keys.Pairwise fun j k => compare j k = .lt
  /-- What is looked up under a key is the sequence of the one entry of that key. -/
  get?_eq_some_iff (k : K) (vs : List V) :
    m.get? k = some vs ↔ ∃ j, m.store.entries.filter (SameKey k ·.1) = [(j, vs)]
  contains_iff (k : K) : m.contains k = true ↔ ∃ vs, m.get? k = some vs
  first?_eq_some_iff (k : K) (v : V) : m.first? k = some v ↔ ∃ vs, m.get? k = some (v :: vs)
  /-- A sequence is found if that of some key equals it value by value. -/
  containsSequence_iff (ws : List V) :
    m.containsSequence ws = true ↔
      ∃ k vs, m.get? k = some vs ∧ List.Forall₂ (fun v w => (v == w) = true) vs ws
  size_eq : m.size = m.store.entries.length
  isEmpty_iff : m.isEmpty = true ↔ m.store.entries = []
  /-- Keys and sequences come in the order of the entries. -/
  zip_eq : m.store.keys.zip m.store.sequences = m.store.entries
  /-- The listing shows the entries, in their order if the order has a meaning. -/
  listing_perm : m.listing.Perm m.store.entries
  listing_eq : m.store.arrangement ≠ .unordered → m.listing = m.store.entries

omit [Ord K] [Std.TransOrd K] in
/-- Sequences are equal if they are value by value. -/
theorem beq_iff_forall₂ {vs ws : List V} :
    (vs == ws) = true ↔ List.Forall₂ (fun v w => (v == w) = true) vs ws := by
  induction vs generalizing ws with
  | nil => cases ws <;> simp
  | cons v vs ih =>
    cases ws with
    | nil => simp
    | cons w ws => rw [List.cons_beq_cons, Bool.and_eq_true, List.forall₂_cons, ih]

theorem Coherent.of_wellFormed (h : m.store.WellFormed) : Coherent m where
  distinct := (Store.WellFormed.iff_keys.mp h).1
  ascending := (Store.WellFormed.iff_keys.mp h).2
  get?_eq_some_iff k vs := by
    unfold get?
    rw [h.get?_eq_some_iff]
    constructor
    · rintro ⟨⟨j, ws⟩, he, hk, rfl⟩
      exact ⟨j, h.filter_eq_singleton he hk⟩
    · rintro ⟨j, hj⟩
      have hmem : (j, vs) ∈ m.store.entries.filter (SameKey k ·.1) := by
        rw [hj]
        exact List.mem_singleton_self _
      obtain ⟨he, hk⟩ := List.mem_filter.mp hmem
      exact ⟨(j, vs), he, of_decide_eq_true hk, rfl⟩
  contains_iff k := Option.isSome_iff_exists
  first?_eq_some_iff k v := by
    unfold first?
    rw [Option.bind_eq_some_iff]
    constructor
    · rintro ⟨ws, hws, hv⟩
      obtain ⟨vs, rfl⟩ := List.head?_eq_some_iff.mp hv
      exact ⟨vs, hws⟩
    · rintro ⟨vs, hvs⟩
      exact ⟨v :: vs, hvs, rfl⟩
  containsSequence_iff ws := by
    unfold containsSequence Store.sequences
    rw [List.any_map, List.any_eq_true]
    constructor
    · rintro ⟨e, he, heq⟩
      exact ⟨e.1, e.2, h.get?_eq_some_iff.mpr ⟨e, he, SameKey.refl _, rfl⟩, beq_iff_forall₂.mp heq⟩
    · rintro ⟨k, vs, hk, heq⟩
      obtain ⟨e, he, -, rfl⟩ := h.get?_eq_some_iff.mp hk
      exact ⟨e, he, beq_iff_forall₂.mpr heq⟩
  size_eq := rfl
  isEmpty_iff := List.isEmpty_iff
  zip_eq := by
    unfold Store.keys Store.sequences
    rw [List.zip_map', List.map_id']
  listing_perm := m.store.listing_perm
  listing_eq := Store.listing_eq

/-- **The views of every map that can come about agree**, over any arrangement and under any policy:
no two keys are the same, sorted keys ascend, and what is looked up, counted and listed is what the
entries hold. -/
theorem coherent_of_reachable (h : Reachable m) : Coherent m := .of_wellFormed h.wellFormed

end

/-- Two spellings of a word, one of them written through the store. -/
theorem coherent_of_reachable_caseless :
    let m : Multimap CaselessText Int64 (Policy Int64) := empty .sorted (.counting [])
    let n := (Operation.extend [(⟨"b"⟩, 1), (⟨"a"⟩, 2)]).run m
    let stored := n.value.2.store.access (.insert ⟨"A"⟩ [3, 4])
    Reachable ⟨stored, n.value.2.policy⟩ ∧ Coherent ⟨stored, n.value.2.policy⟩ ∧
      stored.entries = [(⟨"a"⟩, [3, 4]), (⟨"b"⟩, [1])] := by
  intro m n stored
  have hreachable : Reachable ⟨stored, n.value.2.policy⟩ :=
    ((Reachable.empty .sorted (Policy.counting [])).operate _).access _
  exact ⟨hreachable, coherent_of_reachable hreachable, by decide +kernel⟩

/-! ## Maps in a workspace -/

/-- Filling a store is accessing it. -/
theorem Store.foldl_access_insert (s : Store K V) (es : List (Entry K V)) :
    (es.map fun e => Access.insert e.1 e.2).foldl Store.access s = s.insertAll es := by
  rw [List.foldl_map]
  rfl

section

variable [BEq V] [MemberName K] [JsonValue V] {m : Multimap K V (Policy V)}

/-- Every map that is made is one that can come about. -/
theorem Origin.reachable_make {o : Origin K V} (h : o.make.value = .ok m) : Reachable m := by
  cases o with
  | empty a p =>
    cases h
    exact .empty a p
  | store a entries =>
    cases entries with
    | none => cases h
    | some es =>
      cases h
      refine .ofStore a .drop (es.map fun e => .insert e.1 e.2) ?_
      rw [Store.foldl_access_insert]
      rfl
  | pairs a p ps =>
    cases h
    exact .ofPairs a p ps
  | json a p text =>
    refine .ofJson a p text ?_
    have hmap : ((ofJson a p text).value.mapError Failure.unreadable) = .ok m := h
    cases hread : (ofJson a p text : Logged (Except _ (Multimap K V (Policy V)))).value with
    | error e => rw [hread] at hmap; cases hmap
    | ok n => rw [hread] at hmap; cases hmap; rfl

end

namespace Workspace

variable {P : Type} {w : Workspace K V P} {slot slot' : String} {m : Multimap K V P}

omit [Ord K] in
theorem get?_vacate_of_ne (h : slot' ≠ slot) : (w.vacate slot).get? slot' = w.get? slot' := by
  unfold get? vacate
  induction w.slots with
  | nil => rfl
  | cons x xs ih =>
    rw [List.filter_cons]
    by_cases hx : slot' = x.1
    · have hne : x.1 ≠ slot := hx ▸ h
      rw [if_pos (by simpa using hne), List.lookup_cons, List.lookup_cons, hx]
      simp
    · have hfalse : (slot' == x.1) = false := by simpa using hx
      split
      · rw [List.lookup_cons, List.lookup_cons, hfalse]; exact ih
      · rw [List.lookup_cons, hfalse]; exact ih

omit [Ord K] in
theorem get?_put_of_ne (h : slot' ≠ slot) : (w.put slot m).get? slot' = w.get? slot' := by
  have hfalse : (slot' == slot) = false := by simpa using h
  show List.lookup slot' ((slot, m) :: (w.vacate slot).slots) = _
  rw [List.lookup_cons, hfalse]
  exact get?_vacate_of_ne h

omit [Ord K] in
theorem get?_vacate (w : Workspace K V P) (slot : String) : (w.vacate slot).get? slot = none := by
  unfold get? vacate
  rw [List.lookup_eq_none_iff]
  intro x hx
  obtain ⟨-, hne⟩ := List.mem_filter.mp hx
  simpa using fun h => of_decide_eq_true hne h.symm

/-- Every slot holds a map that can come about. -/
def Reachable [BEq V] (w : Workspace K V P) : Prop :=
  ∀ ⦃slot : String⦄ ⦃m : Multimap K V P⦄, w.get? slot = some m → Multimap.Reachable m

namespace Reachable

variable [BEq V]

theorem empty : (empty : Workspace K V P).Reachable := fun _ _ h => nomatch h

theorem put (hw : w.Reachable) (hm : Multimap.Reachable m) : (w.put slot m).Reachable := by
  intro slot' n hn
  by_cases h : slot' = slot
  · rw [h, get?_put] at hn
    cases hn
    exact hm
  · rw [get?_put_of_ne h] at hn
    exact hw hn

theorem vacate (hw : w.Reachable) : (w.vacate slot).Reachable := by
  intro slot' n hn
  by_cases h : slot' = slot
  · rw [h, get?_vacate] at hn
    cases hn
  · rw [get?_vacate_of_ne h] at hn
    exact hw hn

variable [Plain K] [Plain V] [InspectKey K] [Inspect V] [MemberName K] [JsonValue V]
  [HashInput K] {hashing : Option (HashInput V)}

/-- **A command** leaves maps that can come about. -/
theorem execute {w : Workspace K V} (hw : w.Reachable) (c : Command K V) :
    (w.execute hashing c).value.workspace.Reachable := by
  cases c with
  | create slot origin policy =>
    unfold Workspace.execute
    rw [Logged.value_bind]
    cases hmake : origin.make.value with
    | error f => exact hw
    | ok m =>
      refine hw.put ?_
      cases policy with
      | none => exact Origin.reachable_make hmake
      | some p => exact (Origin.reachable_make hmake).withPolicy p
  | copy slot source =>
    simp only [Workspace.execute]
    split
    · next m hm => exact hw.put (hw hm)
    · exact hw
  | unwrap slot =>
    simp only [Workspace.execute]
    split
    · next m hm => exact hw.put ((hw hm).withPolicy Policy.drop)
    · exact hw
  | consume slot => exact hw.vacate
  | operate slot o =>
    simp only [Workspace.execute]
    split
    · next m hm =>
      rw [Logged.value_bind]
      split
      · exact hw
      · exact hw.put ((hw hm).operate o)
    · exact hw
  | _ => exact hw

/-- **Commands, one after the other**, leave maps that can come about. -/
theorem foldl_execute {w : Workspace K V} (hw : w.Reachable) (cs : List (Command K V)) :
    (cs.foldl (fun w c => (w.execute hashing c).value.workspace) w).Reachable := by
  induction cs generalizing w with
  | nil => exact hw
  | cons c cs ih => exact ih (hw.execute c)

end Reachable

end Workspace

end Multimap
