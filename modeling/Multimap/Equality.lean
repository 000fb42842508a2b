import Multimap.Basic

/-!
# Two ways for multimaps to be equal

Both compare the keys, by `SameKey`, and the values, by the `==` of their type. Neither looks at the
arrangement, the order of the keys, their spelling or the policy.

* `a == b` (`eq`): the same keys, with sequences that are equal value by value.
* `a.equalUpToOrder b` (`equals_ignore_value_order`, for two maps that are not one object): the same
  keys, with sequences of the same length, where every value of `a` is found under the same key of
  `b`. How often it is found there is not counted, so the relation is not symmetric: `[1, 1]`
  against `[1, 2]` passes and `[1, 2]` against `[1, 1]` does not.
-/

namespace Multimap

variable {K V P Q : Type} [Ord K] [BEq V]

/-- Whether `b` has as many keys as `a`, and under each key of `a` a sequence that `agree`
accepts. -/
def matchesBy (agree : List V → List V → Bool) (a : Multimap K V P) (b : Multimap K V Q) : Bool :=
  a.size == b.size && a.store.entries.all fun e => (b.get? e.1).any (agree e.2)

/-- The same keys with equal sequences. -/
def equal (a : Multimap K V P) (b : Multimap K V Q) : Bool := a.matchesBy (· == ·) b

instance : BEq (Multimap K V P) := ⟨equal⟩

/-- Lists of the same length of which the second holds every value of the first. -/
def covers (vs ws : List V) : Bool := vs.length == ws.length && vs.all ws.contains

/-- The same keys with sequences that agree but for the order and the count of their values. -/
def equalUpToOrder (a : Multimap K V P) (b : Multimap K V Q) : Bool := a.matchesBy covers b

end Multimap
