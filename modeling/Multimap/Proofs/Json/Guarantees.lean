import Multimap.Json.Codec
import Multimap.Proofs.Json.Text
import Multimap.Store.Lemmas

/-!
# What holds of everything that is read

A reader may stop on a text. What it takes when it does not may be sure to have a property, whatever
the text (`Reader.Ensures`). So it is with the store of a map that is read: no key is there twice,
however often a name occurs (`wellFormed_ofJson`).

* `Ensures.bind`, `Ensures.foldItems`: readers one after the other, and items between brackets.
-/

namespace Multimap

namespace Json

variable {α β σ : Type}

/-- A computation that fails or logs comes to a value if both of its parts do. -/
theorem value_bind_eq_ok {ε : Type} {x : ExceptT ε Logged α} {f : α → ExceptT ε Logged β} {b : β}
    (h : (x >>= f).run.value = .ok b) : ∃ a, x.run.value = .ok a ∧ (f a).run.value = .ok b := by
  obtain ⟨_ | a, es⟩ := x
  · cases h
  · exact ⟨a, rfl, h⟩

/-- Whatever the text, what the reader takes has the property. -/
def Reader.Ensures (read : Reader α) (Q : α → Prop) : Prop :=
  ∀ ⦃text : List Char⦄ ⦃a : α⦄ ⦃rest : List Char⦄, (read text).run.value = .ok (a, rest) → Q a

namespace Reader.Ensures

variable {read : Reader α} {Q : α → Prop}

theorem trivial (read : Reader α) : read.Ensures fun _ => True := fun _ _ _ _ => True.intro

theorem bind {next : α → Reader β} {R : β → Prop} (h : read.Ensures Q)
    (hnext : ∀ a, Q a → (next a).Ensures R) : (read >>= next).Ensures R := by
  intro text b rest hb
  obtain ⟨⟨a, left⟩, ha, hb⟩ := value_bind_eq_ok hb
  exact hnext a (h ha) hb

theorem ofLogged {x : Logged α} (h : Q x.value) : (Reader.ofLogged x).Ensures Q := by
  intro text a rest ha
  cases ha
  exact h

/-- What has come of the items has the property if every item keeps it. -/
theorem foldItems {close : Char} {item : σ → Reader σ} {Q : σ → Prop}
    (hitem : ∀ acc, Q acc → (item acc).Ensures Q) (first : Bool) {acc : σ} (hacc : Q acc) :
    (Reader.foldItems close item first acc).Ensures Q := by
  intro text
  induction hn : text.length using Nat.strongRecOn generalizing text first acc with
  | ind n ih =>
    intro a rest h
    rw [Reader.foldItems] at h
    split at h
    · cases h
    split at h
    · cases h
      exact hacc
    obtain ⟨⟨_, start⟩, -, h⟩ := value_bind_eq_ok h
    obtain ⟨⟨acc', left⟩, hacc', h⟩ := value_bind_eq_ok h
    dsimp only at h
    split at h
    · next hlt => exact ih left.length (hn ▸ hlt) false (hitem acc hacc hacc') rfl h
    · cases h

/-- Nothing is taken where something else is wanted. -/
theorem refuse (expected : Expected) : (Reader.ofScan (Reader.refuse expected)).Ensures Q := by
  intro text a rest h
  have hscan : (Reader.refuse expected text : Except Fault (α × List Char)) = .ok (a, rest) := h
  cases hfound : Reader.scanFound text with
  | error e =>
    have hfault := (scan_bind_error hfound).symm.trans hscan
    cases hfault
  | ok found =>
    have hfault := (scan_bind hfound).symm.trans hscan
    cases hfault

theorem object {member : σ → Reader σ} {Q : σ → Prop}
    (hmember : ∀ acc, Q acc → (member acc).Ensures Q) {start : σ} (hstart : Q start) :
    (Reader.object member start).Ensures Q := by
  intro text a rest h
  unfold Reader.object at h
  split at h
  · exact foldItems hmember true hstart h
  · exact refuse .map h

end Reader.Ensures

end Json

open Json

variable {K V P : Type} [Ord K] [Std.TransOrd K] [MemberName K] [JsonValue V] [AbsencePolicy P V]
  {m : Multimap K V P}

/-- A member keeps the store of a map well-formed. -/
theorem ensures_readMember (hm : m.store.WellFormed) :
    (readMember m).Ensures fun n => n.store.WellFormed := by
  unfold readMember
  refine (Reader.Ensures.trivial _).bind fun k _ => ?_
  refine (Reader.Ensures.trivial _).bind fun _ _ => ?_
  refine (Reader.Ensures.trivial _).bind fun offered _ => ?_
  exact Reader.Ensures.ofLogged hm.insert

/-- **Whatever the text**, the store of a map that is read is well-formed. -/
theorem wellFormed_ofJson {a : Arrangement} {p : P} {text : String}
    (h : (ofJson a p text).value = .ok m) : m.store.WellFormed := by
  have hread : (readMap (empty a p : Multimap K V P)).Ensures fun n => n.store.WellFormed :=
    .object (fun n hn => ensures_readMember hn) (.empty a)
  unfold ofJson Reader.whole at h
  rw [Logged.value_bind] at h
  split at h
  · next n rest hn =>
    split at h
    · cases h
      exact hread hn
    · cases h
  · cases h

end Multimap
