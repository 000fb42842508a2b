import Multimap.Proofs.Erasure
import Multimap.Proofs.Layout

/-!
# Entries of values that may be absent

Entries are accumulated one after the other, and no two of them have the same key. Then each
sequence starts empty, and what it becomes hangs on the values that are offered and on what the
policy has become by then, and on nothing else (`supplyEntries`). The map that is left holds the
entries with these sequences.

If whatever the policy becomes makes the same of an entry, it does not matter where the entry
stands. So it is with policies that have no memory, spare sequences, mark absent values or log
nothing.

* `mem_supplyEntries`: what comes of an entry hangs on those before it through the policy alone.
* **`foldlM_accumulate`**: entries with new keys are accumulated as if their sequences were
  written.
* `get?_supplyEntries_uniform`, `events_supplyEntries`: what comes of entries and what is logged, if
  it does not matter where they stand.
* `Memoryless.sequence_supplyAll`, `Drops.supplyAll_eq`, `Marks.sequence_supplyAll`,
  `Quiet.events_supplyAll`: one entry.
-/

namespace Multimap

variable {K V P : Type} [AbsencePolicy P V]

/-- A key and the values that are offered for it. -/
abbrev Offers (K V : Type) := K × List (Option V)

/-- The policy after the values of an entry have been offered to an empty sequence. -/
def policyAfter (p : P) (e : Offers K V) : Logged P := Prod.fst <$> supplyAll p [] e.2

/-- What comes of entries, of which each is offered to an empty sequence, one after the other: the
policy from then on, and the entries with their sequences. -/
def supplyEntries (p : P) : List (Offers K V) → Logged (P × List (Entry K V))
  | [] => pure (p, [])
  | e :: es => do
    let (p, vs) ← supplyAll p [] e.2
    let (p, rest) ← supplyEntries p es
    return (p, (e.1, vs) :: rest)

/-! ## What comes of entries -/

section

variable {p : P} {es : List (Offers K V)}

theorem keys_supplyEntries (p : P) (es : List (Offers K V)) :
    (supplyEntries p es).value.2.map (·.1) = es.map (·.1) := by
  induction es generalizing p with
  | nil => rfl
  | cons e es ih => exact congrArg (e.1 :: ·) (ih _)

/-- The policy is asked about the values of the entries, one entry after the other. -/
theorem policy_supplyEntries (p : P) (es : List (Offers K V)) :
    Prod.fst <$> supplyEntries p es = es.foldlM policyAfter p := by
  induction es generalizing p with
  | nil => rfl
  | cons e es ih =>
    simp only [supplyEntries, policyAfter, List.foldlM_cons, bind_map_left, map_bind, map_pure]
    refine bind_congr fun s => ?_
    rw [← ih, ← bind_pure_comp]

/-- What comes of an entry hangs on those before it through the policy alone. -/
theorem mem_supplyEntries (p : P) (l : List (Offers K V)) (e : Offers K V) (r : List (Offers K V)) :
    (e.1, (supplyAll (l.foldlM policyAfter p).value [] e.2).value.2) ∈
      (supplyEntries p (l ++ e :: r)).value.2 := by
  induction l generalizing p with
  | nil => exact List.mem_cons_self
  | cons e' l ih => exact List.mem_cons_of_mem _ (ih (policyAfter p e').value)

end

/-! ## Entries with new keys -/

/-- **Entries with new keys** are accumulated as if their sequences were written. -/
theorem foldlM_accumulate [Ord K] [Std.TransOrd K] {m : Multimap K V P} {es : List (Offers K V)}
    (hd : es.Pairwise fun e e' => ¬ SameKey e.1 e'.1)
    (hnew : ∀ e ∈ es, m.store.contains e.1 = false) :
    es.foldlM (fun n e => n.accumulate e.1 e.2) m =
      (fun s => ⟨m.store.insertAll s.2, s.1⟩) <$> supplyEntries m.policy es := by
  induction es generalizing m with
  | nil => rfl
  | cons e es ih =>
    obtain ⟨hne, hd⟩ := List.pairwise_cons.mp hd
    obtain ⟨he, hnew⟩ := List.forall_mem_cons.mp hnew
    have hsequence : m.sequence e.1 = [] := Store.sequence_of_not_contains he
    have hstill : ∀ vs, ∀ e' ∈ es, (m.store.insert e.1 vs).contains e'.1 = false := by
      intro vs e' he'
      rw [Store.contains_eq_isSome, Store.get?_insert, if_neg (hne e' he')]
      exact hnew e' he'
    rw [List.foldlM_cons, accumulate, hsequence, bind_assoc]
    simp only [supplyEntries, map_bind, map_pure]
    refine bind_congr fun s => ?_
    rw [pure_bind, ih hd (hstill s.2), ← bind_pure_comp]
    rfl

section

variable [Ord K] {p : P} {es : List (Offers K V)}

theorem distinct_supplyEntries (hd : es.Pairwise fun e e' => ¬ SameKey e.1 e'.1) (p : P) :
    (supplyEntries p es).value.2.Pairwise fun e e' => ¬ SameKey e.1 e'.1 := by
  have hkeys : (es.map (·.1)).Pairwise fun k k' => ¬ SameKey k k' := List.pairwise_map.mpr hd
  rw [← keys_supplyEntries p] at hkeys
  exact List.pairwise_map.mp hkeys

/-- What is looked up under a key hangs on the entries before its own through the policy alone. -/
theorem get?_supplyEntries [Std.TransOrd K] {before behind : List (Offers K V)} {e : Offers K V}
    (hd : es.Pairwise fun e e' => ¬ SameKey e.1 e'.1) (hes : es = before ++ e :: behind)
    (a : Arrangement) (p : P) :
    (Store.ofEntries a (supplyEntries p es).value.2).get? e.1 =
      some (supplyAll (before.foldlM policyAfter p).value [] e.2).value.2 := by
  have hmem := mem_supplyEntries p before e behind
  rw [← hes] at hmem
  exact Store.get?_ofEntries (distinct_supplyEntries hd p) a hmem

end

/-! ## Policies that stay as they are -/

section

variable {p q : P} {es : List (Offers K V)}

theorem becomes_supply (p : P) (position : Position) (vs : List V) (v : Option V) :
    Becomes V p (supply p position vs v).value.1 := by
  cases v with
  | none => exact .ask position vs (.refl _)
  | some v => exact .refl p

theorem becomes_supplyAll (p : P) (vs : List V) (offered : List (Option V)) :
    Becomes V p (supplyAll p vs offered).value.1 := by
  induction offered generalizing p vs with
  | nil => exact .refl p
  | cons v offered ih =>
    rw [supplyAll_cons]
    exact (becomes_supply p .back vs v).trans (ih _ _)

theorem becomes_foldlM_policyAfter (p : P) (es : List (Offers K V)) :
    Becomes V p (es.foldlM policyAfter p).value := by
  induction es generalizing p with
  | nil => exact .refl p
  | cons e es ih => exact (becomes_supplyAll p [] e.2).trans (ih _)

/-- **Where an entry stands does not matter** if whatever the policy becomes makes the same of
it. -/
theorem get?_supplyEntries_uniform [Ord K] [Std.TransOrd K] {e : Offers K V} {vs : List V}
    (hd : es.Pairwise fun e e' => ¬ SameKey e.1 e'.1) (he : e ∈ es)
    (h : ∀ q, Becomes V p q → (supplyAll q [] e.2).value.2 = vs) (a : Arrangement) :
    (Store.ofEntries a (supplyEntries p es).value.2).get? e.1 = some vs := by
  obtain ⟨before, behind, hes⟩ := List.append_of_mem he
  rw [get?_supplyEntries hd hes, h _ (becomes_foldlM_policyAfter p before)]

/-- What is logged for all entries, if whatever the policy becomes logs the same for each of
them. -/
theorem events_supplyEntries {g : Offers K V → List Event}
    (h : ∀ q, Becomes V p q → ∀ e ∈ es, (supplyAll q [] e.2).events = g e) :
    (supplyEntries p es).events = es.flatMap g := by
  induction es generalizing p with
  | nil => rfl
  | cons e es ih =>
    have hrest := ih fun q hq e' he' =>
      h q ((becomes_supplyAll p [] e.2).trans hq) e' (List.mem_cons_of_mem _ he')
    show (supplyAll p [] e.2).events ++ ((supplyEntries _ es).events ++ []) = _
    rw [hrest, h p (.refl p) e List.mem_cons_self, List.append_nil, List.flatMap_cons]

/-! ## One entry -/

theorem Memoryless.sequence_supplyAll (h : Memoryless V p) (hq : Becomes V p q) (vs : List V)
    (offered : List (Option V)) :
    (supplyAll q vs offered).value.2 = (supplyAll p vs offered).value.2 := by
  have halike : ActAlike V q p :=
    ⟨fun _ hr position ws => (h (hq.trans hr) position ws).trans (h hq position ws).symm, h, h hq⟩
  exact (steady_supplyAll offered).sequence_eq halike vs

/-- What is there is appended, and what is absent is logged with the length that there is by
then. -/
theorem Drops.supplyAll_eq (h : Drops V p) (vs : List V) (offered : List (Option V)) :
    supplyAll p vs offered = ⟨(p, vs ++ offered.reduceOption),
      (absencesAmong vs.length offered).map fun a => .dropped a.1 a.2⟩ := by
  induction offered generalizing vs with
  | nil => exact congrArg (fun vs => pure (p, vs)) (List.append_nil vs).symm
  | cons v offered ih =>
    rw [supplyAll_cons]
    cases v with
    | none =>
      rw [supply, h .back vs, Logged.mk_bind, ih]
      rfl
    | some v =>
      rw [supply_some, pure_bind, ih]
      simp [Position.place, absencesAmong]

theorem Marks.sequence_supplyAll {back front : V} (h : Marks p back front) (vs : List V)
    (offered : List (Option V)) :
    (supplyAll p vs offered).value.2 = vs ++ offered.map (·.getD back) := by
  induction offered generalizing p vs with
  | nil => exact (List.append_nil vs).symm
  | cons v offered ih =>
    rw [supplyAll_cons, Logged.value_bind]
    cases v with
    | none =>
      have hasked : Marks (supply p .back vs none).value.1 back front :=
        fun _ hr => h (.ask .back vs hr)
      have hmark : (supply p .back vs none).value.2 = vs ++ [back] := h (.refl p) .back vs
      rw [ih hasked, hmark, List.append_assoc]
      rfl
    | some v =>
      rw [supply_some, Logged.value_pure, ih h]
      simp [Position.place]

theorem Quiet.events_supplyAll (h : Quiet V p) (vs : List V) (offered : List (Option V)) :
    (supplyAll p vs offered).events = [] := by
  induction offered generalizing p vs with
  | nil => rfl
  | cons v offered ih =>
    have hstays : Quiet V (supply p .back vs v).value.1 :=
      fun _ hr => h ((becomes_supply p .back vs v).trans hr)
    have hone : (supply p .back vs v).events = [] := by
      cases v with
      | none => exact h (.refl p) .back vs
      | some v => rfl
    rw [supplyAll_cons, Logged.events_bind, hone, ih hstays]
    rfl

end

end Multimap
