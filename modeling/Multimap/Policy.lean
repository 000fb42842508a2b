import Multimap.Log

/-!
# Policies for absent values

A caller may offer a value that is absent. What then becomes of the sequence it was meant for is up
to the policy of the map: it sees the sequence and the end at which the value was to go in, answers
the sequence that takes its place, and may log and go on as another policy, which is how a policy
that counts remembers what it has seen.

`AbsencePolicy` models `NullPolicy`, with `add_null` and `add_first_null` as one function of the end
(`NullPosition`), and `supply` is `push_back` or `push_front`. A value that is there never reaches
the policy (`supply_some`). `DropAbsent` is `IgnoreNulls`, the policy of a map for which no other is
chosen. Of the policies to choose from, `sentinel` is `Sentinel`, `silent` leaves both hooks as they
are by default and `backOnly` the one for the front; the others stand for closures.
-/

namespace Multimap

/-- Policies of type `P` for absent values of type `V`. -/
class AbsencePolicy (P V : Type) where
  /-- What an absent value at an end of a sequence leaves: the policy from then on, and the
  sequence. -/
  absent : P → Position → List V → Logged (P × List V)

section

variable {P V : Type} [AbsencePolicy P V]

/-- Offers a value, there or absent, for an end of the sequence `vs`. -/
def supply (p : P) (position : Position) (vs : List V) : Option V → Logged (P × List V)
  | some v => pure (p, position.place v vs)
  | none => AbsencePolicy.absent p position vs

/-- Offers the values one after the other for the back of the sequence `vs`. -/
def supplyAll (p : P) (vs : List V) (offered : List (Option V)) : Logged (P × List V) :=
  offered.foldlM (fun s v => supply s.1 .back s.2 v) (p, vs)

@[simp] theorem supply_some (p : P) (position : Position) (vs : List V) (v : V) :
    supply p position vs (some v) = pure (p, position.place v vs) := rfl

@[simp] theorem supplyAll_nil (p : P) (vs : List V) : supplyAll p vs [] = pure (p, vs) := rfl

@[simp] theorem supplyAll_cons (p : P) (vs : List V) (v : Option V) (offered : List (Option V)) :
    supplyAll p vs (v :: offered) =
      supply p .back vs v >>= fun s => supplyAll s.1 s.2 offered := by
  simp [supplyAll]

end

/-! ## The policy that drops -/

/-- Absent values are dropped, and every one of them is logged. -/
structure DropAbsent where
  deriving DecidableEq, Repr, Inhabited

instance {V : Type} : AbsencePolicy DropAbsent V where
  absent p position vs := do
    Logged.log (.dropped position vs.length)
    pure (p, vs)

/-! ## Policies to choose from -/

/-- Policies among which a map can change while it is in use. -/
inductive Policy (V : Type)
  /-- Drops the value and logs that it did. -/
  | drop
  /-- Has `v` stand for the value. -/
  | sentinel (v : V)
  /-- Drops the value. -/
  | silent
  /-- Has `v` stand for the value at the back; drops it at the front. -/
  | backOnly (v : V)
  /-- Drops the value and notes the end and the length that the sequence had. -/
  | counting (seen : List (Position × Nat))
  /-- Has `back` stand for the value at the back and `front` at the front. -/
  | marks (back front : V)
  /-- Empties the sequence for a value at the back and turns it around for one at the front. -/
  | wipe
  /-- Has the outermost value of that end, if there is one, stand for the value. -/
  | duplicate
  deriving DecidableEq, Repr

namespace Policy

variable {V : Type}

instance : Inhabited (Policy V) := ⟨drop⟩

/-- The policy after an absent value, and the sequence. -/
def respond (p : Policy V) (position : Position) (vs : List V) : Policy V × List V :=
  match p, position with
  | drop, _ | silent, _ | backOnly _, .front => (p, vs)
  | sentinel v, _ => (p, position.place v vs)
  | backOnly v, .back => (p, position.place v vs)
  | counting seen, _ => (counting (seen ++ [(position, vs.length)]), vs)
  | marks v _, .back => (p, position.place v vs)
  | marks _ v, .front => (p, position.place v vs)
  | wipe, .back => (p, [])
  | wipe, .front => (p, vs.reverse)
  | duplicate, .back => (p, vs ++ vs.getLast?.toList)
  | duplicate, .front => (p, vs.head?.toList ++ vs)

/-- What the policy logs on an absent value. -/
def events (p : Policy V) (position : Position) (vs : List V) : List Event :=
  match p with
  | drop => [.dropped position vs.length]
  | _ => []

instance : AbsencePolicy (Policy V) V where
  absent p position vs := ⟨p.respond position vs, p.events position vs⟩

end Policy

end Multimap
