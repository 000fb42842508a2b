import Multimap.Proofs.Layout
import Multimap.Text.Plain

/-!
# Plain texts of maps of numbers

In the plain text of a map a comma and a blank stand between two entries and between two values
alike. With numbers for keys and values the text can be cut in one way only all the same: a number
ends where something stands that is no part of a number, and what stands there tells whether another
value follows, or the end of the sequence, or that of the map.

* `Cut p text`: the texts of things can be cut off in front of characters that are not of the kind
  `p`.
* `Cut.commaSeparated`: things that can be cut off can be told apart between brackets.
* `cut_plainEntry`: entries can be cut off if their keys and values are numbers (`Numeric`).
* **`plain_eq_iff`**: maps of numbers have the same plain text if they have the same listing.
-/

namespace Multimap

variable {α : Type} {p : Char → Bool} {text : α → List Char}

/-! ## Texts that can be cut off -/

/-- What is written here does not go on with a character of the kind `p`. -/
def Stops (p : Char → Bool) (rest : List Char) : Prop := ∀ c ∈ rest.head?, p c = false

/-- Where the text of a thing ends can be told, if it does not go on with a character of the kind
`p`: what is written the same is of the same thing, and goes on the same. -/
def Cut (p : Char → Bool) (text : α → List Char) : Prop :=
  ∀ ⦃a b : α⦄ ⦃x y : List Char⦄, Stops p x → Stops p y → text a ++ x = text b ++ y → a = b ∧ x = y

theorem Stops.cons {c : Char} (hc : p c = false) (rest : List Char) : Stops p (c :: rest) := by
  intro d hd
  cases hd
  exact hc

theorem Stops.takeWhile_eq {rest : List Char} (h : Stops p rest) : rest.takeWhile p = [] := by
  cases rest with
  | nil => rfl
  | cons c rest => exact List.takeWhile_cons_of_neg (by simp [h c rfl])

/-- Characters of a kind end where none of that kind follows. -/
theorem append_inj_of_stops {s t x y : List Char} (hs : ∀ c ∈ s, p c = true)
    (ht : ∀ c ∈ t, p c = true) (hx : Stops p x) (hy : Stops p y) (h : s ++ x = t ++ y) :
    s = t ∧ x = y := by
  have htake := congrArg (List.takeWhile p) h
  rw [List.takeWhile_append_of_pos hs, List.takeWhile_append_of_pos ht, hx.takeWhile_eq,
    hy.takeWhile_eq, List.append_nil, List.append_nil] at htake
  rw [htake] at h
  exact ⟨htake, List.append_cancel_left h⟩

/-- Texts of one kind of characters can be cut off, if different things have different texts. -/
theorem Cut.of_kind (hinjective : ∀ ⦃a b : α⦄, text a = text b → a = b)
    (hkind : ∀ a, ∀ c ∈ text a, p c = true) : Cut p text := by
  intro a b x y hx hy h
  obtain ⟨htext, hrest⟩ := append_inj_of_stops (hkind a) (hkind b) hx hy h
  exact ⟨hinjective htext, hrest⟩

/-! ## Things with commas between them -/

theorem commaSeparated_cons (a : α) (as : List α) :
    commaSeparated ((a :: as).map text) = text a ++ as.flatMap fun b => ',' :: ' ' :: text b := by
  induction as generalizing a with
  | nil => simp [commaSeparated]
  | cons b as ih =>
    have hrest : commaSeparated (text b :: as.map text) = _ := ih b
    unfold commaSeparated at hrest ⊢
    rw [List.map_cons, List.map_cons, List.intercalate_cons_cons, hrest]
    simp

section

variable {close : Char} {as bs : List α} {x y : List Char}

theorem stops_commas (hcomma : p ',' = false) (hclose : p close = false) :
    Stops p ((as.flatMap fun b => ',' :: ' ' :: text b) ++ close :: x) := by
  cases as with
  | nil => exact .cons hclose x
  | cons a as => exact .cons hcomma _

/-- Things of which each has a comma in front. -/
theorem Cut.commas (h : Cut p text) (hcomma : p ',' = false) (hclose : p close = false)
    (hne : close ≠ ',')
    (heq : (as.flatMap fun a => ',' :: ' ' :: text a) ++ close :: x =
      (bs.flatMap fun b => ',' :: ' ' :: text b) ++ close :: y) : as = bs ∧ x = y := by
  induction as generalizing bs with
  | nil =>
    cases bs with
    | nil => exact ⟨rfl, List.tail_eq_of_cons_eq heq⟩
    | cons b bs => exact absurd (List.head_eq_of_cons_eq heq) hne
  | cons a as ih =>
    cases bs with
    | nil => exact absurd (List.head_eq_of_cons_eq heq).symm hne
    | cons b bs =>
      simp only [List.flatMap_cons, List.cons_append, List.append_assoc, List.cons.injEq,
        true_and] at heq
      obtain ⟨rfl, hrest⟩ :=
        h (stops_commas hcomma hclose) (stops_commas hcomma hclose) heq
      obtain ⟨rfl, hxy⟩ := ih hrest
      exact ⟨rfl, hxy⟩

/-- **Things with commas between them**, in front of a bracket with which none of them starts. -/
theorem Cut.commaSeparated (h : Cut p text) (hcomma : p ',' = false) (hclose : p close = false)
    (hne : close ≠ ',') (hstart : ∀ a, ∃ c rest, text a = c :: rest ∧ c ≠ close)
    (heq : commaSeparated (as.map text) ++ close :: x =
      commaSeparated (bs.map text) ++ close :: y) : as = bs ∧ x = y := by
  -- Before a thing stands what it starts with, and before the bracket stands the bracket.
  have hempty : ∀ (a : α) (as : List α) (x y : List Char),
      close :: x ≠ Multimap.commaSeparated ((a :: as).map text) ++ close :: y := by
    intro a as x y heq
    obtain ⟨c, rest, htext, hc⟩ := hstart a
    rw [commaSeparated_cons, htext] at heq
    exact hc (List.head_eq_of_cons_eq heq).symm
  cases as with
  | nil =>
    cases bs with
    | nil => exact ⟨rfl, List.tail_eq_of_cons_eq heq⟩
    | cons b bs => exact absurd heq (hempty b bs x y)
  | cons a as =>
    cases bs with
    | nil => exact absurd heq.symm (hempty a as y x)
    | cons b bs =>
      rw [commaSeparated_cons, commaSeparated_cons, List.append_assoc, List.append_assoc] at heq
      obtain ⟨rfl, hrest⟩ :=
        h (stops_commas hcomma hclose) (stops_commas hcomma hclose) heq
      obtain ⟨rfl, hxy⟩ := h.commas hcomma hclose hne hrest
      exact ⟨rfl, hxy⟩

end

/-! ## Numbers -/

/-- What integers are written with. -/
def isIntegral (c : Char) : Bool := c.isDigit || c = '-'

/-- What integers and pairs of integers are written with. -/
def isNumeral (c : Char) : Bool := isIntegral c || c = ':'

/-- Types of numbers, each of which has a plain text of its own. -/
class Numeric (α : Type) [Plain α] : Prop where
  plain_injective {a b : α} : plain a = plain b → a = b
  plain_ne_nil (a : α) : plain a ≠ []
  isNumeral_of_mem {a : α} {c : Char} : c ∈ plain a → isNumeral c = true

theorem isIntegral_of_mem_ofInt {n : Int} {c : Char} (h : c ∈ Decimal.ofInt n) :
    isIntegral c = true := by
  rcases Decimal.eq_minus_or_isDigit_of_mem_ofInt h with rfl | hdigit
  · rfl
  · rw [isIntegral, hdigit, Bool.true_or]

theorem isNumeral_of_isIntegral {c : Char} (h : isIntegral c = true) : isNumeral c = true := by
  rw [isNumeral, h, Bool.true_or]

theorem cut_plain_int64 : Cut isIntegral (plain (α := Int64)) :=
  .of_kind (fun _ _ h => Int64.toInt_inj.mp (Decimal.ofInt_injective h))
    fun _ _ => isIntegral_of_mem_ofInt

instance : Numeric Int64 where
  plain_injective h := Int64.toInt_inj.mp (Decimal.ofInt_injective h)
  plain_ne_nil n := Decimal.ofInt_ne_nil n.toInt
  isNumeral_of_mem h := isNumeral_of_isIntegral (isIntegral_of_mem_ofInt h)

instance : Numeric UInt8 where
  plain_injective h := UInt8.toNat_inj.mp (Decimal.ofNat_injective h)
  plain_ne_nil n := Decimal.ofNat_ne_nil n.toNat
  isNumeral_of_mem h := by
    rw [isNumeral, isIntegral, Decimal.isDigit_of_mem_ofNat h, Bool.true_or, Bool.true_or]

/-- The colon of a pair is no part of either integer. -/
instance : Numeric IntPair where
  plain_injective := by
    rintro ⟨a, b⟩ ⟨c, d⟩ h
    obtain ⟨hfirst, hrest⟩ := cut_plain_int64 (.cons rfl _) (.cons rfl _) h
    have hsecond : plain b = plain d := List.tail_eq_of_cons_eq hrest
    rw [IntPair.mk.injEq]
    exact ⟨hfirst, Numeric.plain_injective hsecond⟩
  plain_ne_nil p := List.append_ne_nil_of_right_ne_nil _ (List.cons_ne_nil _ _)
  isNumeral_of_mem := by
    intro p c h
    rcases List.mem_append.mp h with h | h
    · exact Numeric.isNumeral_of_mem h
    · rcases List.mem_cons.mp h with rfl | h
      · rfl
      · exact Numeric.isNumeral_of_mem h

theorem Numeric.cut_plain [Plain α] [Numeric α] : Cut isNumeral (plain (α := α)) :=
  .of_kind (fun _ _ => plain_injective) fun _ _ => isNumeral_of_mem

/-- No bracket is the start of a number. -/
theorem Numeric.exists_eq_cons [Plain α] [Numeric α] {close : Char}
    (hclose : isNumeral close = false) (a : α) : ∃ c rest, plain a = c :: rest ∧ c ≠ close := by
  obtain ⟨c, rest, htext⟩ := List.exists_cons_of_ne_nil (plain_ne_nil a)
  refine ⟨c, rest, htext, ?_⟩
  rintro rfl
  have hmem : c ∈ plain a := by
    rw [htext]
    exact List.mem_cons_self
  rw [isNumeral_of_mem hmem] at hclose
  cases hclose

/-! ## Maps of numbers -/

variable {K V P Q : Type} [Plain K] [Plain V] [Numeric K] [Numeric V]

/-- Entries can be cut off whatever follows. -/
theorem cut_plainEntry : Cut (fun _ => false) (plainEntry (K := K) (V := V)) := by
  rintro ⟨j, vs⟩ ⟨k, ws⟩ x y - - h
  have hkey : plain j ++ '=' :: '[' :: (commaSeparated (vs.map plain) ++ ']' :: x) =
      plain k ++ '=' :: '[' :: (commaSeparated (ws.map plain) ++ ']' :: y) := by
    simpa [plainEntry] using h
  obtain ⟨rfl, hrest⟩ := Numeric.cut_plain (.cons rfl _) (.cons rfl _) hkey
  have hvalues : commaSeparated (vs.map plain) ++ ']' :: x =
      commaSeparated (ws.map plain) ++ ']' :: y := by
    simpa using hrest
  obtain ⟨rfl, hxy⟩ :=
    Numeric.cut_plain.commaSeparated rfl rfl (by decide) (Numeric.exists_eq_cons rfl) hvalues
  exact ⟨rfl, hxy⟩

theorem plainEntries_injective {es fs : List (Entry K V)} (h : plainEntries es = plainEntries fs) :
    es = fs := by
  have hstart : ∀ e : Entry K V, ∃ c rest, plainEntry e = c :: rest ∧ c ≠ '}' := by
    intro e
    have hbrace : isNumeral '}' = false := rfl
    obtain ⟨c, rest, htext, hc⟩ := Numeric.exists_eq_cons hbrace e.1
    exact ⟨c, _, by rw [plainEntry, htext]; rfl, hc⟩
  exact (cut_plainEntry.commaSeparated rfl rfl (by decide) hstart (List.tail_eq_of_cons_eq h)).1

/-- **The plain text of a map of numbers is unambiguous**: over any stores, two maps whose keys are
integers, bytes or pairs of integers and whose values are integers or bytes have the same text if
and only if they list the same entries, keys without values included, in the same order. -/
theorem plain_eq_iff [Ord K] {m : Multimap K V P} {n : Multimap K V Q} :
    plain m = plain n ↔ m.listing = n.listing :=
  ⟨plainEntries_injective, congrArg plainEntries⟩

/-- A map without order has the text of the sorted map with its entries, and not that of the map
with its entries in another order. -/
theorem plain_eq_iff_pairs :
    let m : Multimap IntPair Int64 (Policy Int64) :=
      ⟨⟨.unordered, [(⟨2, 0⟩, []), (⟨1, -1⟩, [3, -4])]⟩, .drop⟩
    let n : Multimap IntPair Int64 DropAbsent :=
      ⟨⟨.sorted, [(⟨1, -1⟩, [3, -4]), (⟨2, 0⟩, [])]⟩, ⟨⟩⟩
    let o : Multimap IntPair Int64 (Policy Int64) := ⟨⟨.arrival, m.store.entries⟩, .drop⟩
    Numeric IntPair ∧ Numeric Int64 ∧ plain m = plain n ∧ plain o ≠ plain n := by
  intro m n o
  have hn : n.store.LaidOut .sorted := ⟨⟨by decide +kernel, by decide +kernel⟩, rfl⟩
  have hm : m.listing = n.listing := (hn.entries_eq_byKey (.swap _ _ _)).symm
  have ho : ¬ o.listing = n.listing := by decide +kernel
  exact ⟨inferInstance, inferInstance, plain_eq_iff.mpr hm, mt plain_eq_iff.mp ho⟩

end Multimap
