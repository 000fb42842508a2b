/-!
# Edits of a sequence
-/

namespace Multimap

/-- A change made to a sequence in place. -/
inductive Edit (V : Type)
  | push (v : V)
  /-- Removes the last value, if there is one. -/
  | pop
  | reverse
  | clear
  /-- Keeps the first `n` values. -/
  | truncate (n : Nat)
  /-- Moves the first value to the back, `n` times. -/
  | rotate (n : Nat)
  deriving DecidableEq, Repr

/-- The sequence after the edit. -/
def Edit.apply {V : Type} (vs : List V) : Edit V → List V
  | push v => vs ++ [v]
  | pop => vs.dropLast
  | reverse => vs.reverse
  | clear => []
  | truncate n => vs.take n
  | rotate n => vs.rotateLeft n

end Multimap
