import Multimap.Basic
import Multimap.Equality

/-!
# Workspaces: maps under names

A workspace keeps maps, each in a slot with a name. Two slots hold two maps, however much alike. One
slot twice is one map, which is taken to be equal to itself whatever values it holds
(`Workspace.equalUpToOrder?`).
-/

namespace Multimap

/-- Maps under names, of which the first one of a name counts. Their policies are those to choose
from, unless another type of policies is given. -/
structure Workspace (K V : Type) (P : Type := Policy V) where
  slots : List (String × Multimap K V P)

namespace Workspace

variable {K V P : Type}

def empty : Workspace K V P := ⟨[]⟩

/-- The map in a slot. -/
def get? (w : Workspace K V P) (slot : String) : Option (Multimap K V P) :=
  w.slots.lookup slot

/-- Takes the map out of a slot. -/
def vacate (w : Workspace K V P) (slot : String) : Workspace K V P :=
  ⟨w.slots.filter (·.1 ≠ slot)⟩

/-- Puts a map into a slot, in the place of the one that is there. -/
def put (w : Workspace K V P) (slot : String) (m : Multimap K V P) : Workspace K V P :=
  ⟨(slot, m) :: (w.vacate slot).slots⟩

/-- Whether the maps in two slots are equal up to the order of values; a map is to itself. -/
def equalUpToOrder? [Ord K] [BEq V] (w : Workspace K V P) (a b : String) : Option Bool := do
  let m ← w.get? a
  let n ← w.get? b
  return a = b || m.equalUpToOrder n

@[simp] theorem get?_put (w : Workspace K V P) (slot : String) (m : Multimap K V P) :
    (w.put slot m).get? slot = some m := by
  simp [get?, put]

end Workspace

end Multimap
