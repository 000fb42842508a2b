/-!
# Keys

A key type is a type with an order. Two keys are the **same** when the order does not tell them
apart; a key may carry more than its order looks at, such as the spelling of a word, so being the
same is weaker than being equal. With `Std.TransOrd` sameness is an equivalence that the order
respects (`SameKey.symm`, `SameKey.trans`, `SameKey.compare_left`).

Beside the ordered types of the core library two key types are defined here: `CaselessText` and
`IntPair`.
-/

namespace Multimap

/-- Two keys are the same when their order does not tell them apart. -/
def SameKey {K : Type} [Ord K] (a b : K) : Prop := compare a b = .eq

instance {K : Type} [Ord K] (a b : K) : Decidable (SameKey a b) :=
  inferInstanceAs (Decidable (compare a b = .eq))

namespace SameKey

variable {K : Type} [Ord K] [Std.TransOrd K] {a b c : K}

@[simp] theorem refl (a : K) : SameKey a a := Std.ReflOrd.compare_self

theorem symm (h : SameKey a b) : SameKey b a := Std.OrientedCmp.eq_symm h

theorem comm : SameKey a b ↔ SameKey b a := ⟨symm, symm⟩

theorem trans (hab : SameKey a b) (hbc : SameKey b c) : SameKey a c :=
  Std.TransCmp.eq_trans hab hbc

/-- The order sees no difference between two keys that are the same. -/
theorem compare_left (h : SameKey a b) (c : K) : compare a c = compare b c :=
  Std.TransCmp.congr_left h

theorem compare_right (h : SameKey b c) (a : K) : compare a b = compare a c :=
  Std.TransCmp.congr_right h

theorem same_left (h : SameKey a b) : SameKey a c ↔ SameKey b c := by
  rw [SameKey, SameKey, h.compare_left]

theorem same_right (h : SameKey b c) : SameKey a b ↔ SameKey a c := by
  rw [SameKey, SameKey, h.compare_right]

end SameKey

/-! ## Text without case -/

/-- Text whose order and sameness do not see the case of the letters `A` to `Z`, but which keeps
the spelling that it was given. -/
structure CaselessText where
  spelling : String
  deriving DecidableEq, Repr, Inhabited

namespace CaselessText

/-- The text with the letters `A` to `Z` in lower case and every other character as it is. -/
def folded (t : CaselessText) : String := t.spelling.map Char.toLower

instance : Ord CaselessText := ⟨compareOn folded⟩

instance : Std.TransOrd CaselessText := inferInstanceAs (Std.TransCmp (compareOn folded))

theorem sameKey_iff {a b : CaselessText} : SameKey a b ↔ a.folded = b.folded :=
  Std.LawfulEqOrd.compare_eq_iff_eq (α := String)

/-- Letter by letter. -/
theorem sameKey_iff_letters {a b : CaselessText} :
    SameKey a b ↔ a.spelling.toList.map Char.toLower = b.spelling.toList.map Char.toLower := by
  rw [sameKey_iff, ← String.toList_inj, folded, folded, String.toList_map, String.toList_map]

end CaselessText

/-! ## Pairs of integers -/

/-- A pair of integers, ordered by the first and then by the second. -/
structure IntPair where
  first : Int64
  second : Int64
  deriving DecidableEq, Repr, Inhabited

namespace IntPair

instance : Ord IntPair := ⟨compareLex (compareOn first) (compareOn second)⟩

instance : Std.TransOrd IntPair :=
  inferInstanceAs (Std.TransCmp (compareLex (compareOn first) (compareOn second)))

theorem sameKey_iff {a b : IntPair} : SameKey a b ↔ a = b := by
  obtain ⟨a₁, a₂⟩ := a
  obtain ⟨b₁, b₂⟩ := b
  show compareLex (compareOn first) (compareOn second) _ _ = .eq ↔ _
  simp only [compareLex_eq_eq, compareOn, Std.LawfulEqOrd.compare_eq_iff_eq, IntPair.mk.injEq]

instance : Std.LawfulEqOrd IntPair := ⟨sameKey_iff.mp⟩

end IntPair

end Multimap
