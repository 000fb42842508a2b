import Multimap.Equality
import Multimap.Proofs.Bulk
import Multimap.Proofs.Json.Values
import Multimap.Proofs.KeyHistory

/-!
# What is accepted as a map, and what it is built into

A document is accepted as a map from text when it is an object of arrays, and what stands in the
arrays is `null` or a valid value. The map is then built by operations that every caller has: for
every member, in order, its key is looked up for change, which registers it, and its values are
appended one after the other, `null` as an absent one (`addMember`).

* `Decides.sequence`, `Decides.map_of_values`: arrays and maps are decided when what stands in them
  is.
* `ofJson_built`, `ofJson_mismatch`: what is read from the text of a document that is accepted, and
  of one that is not.
* **`ofJson_accepts`**: for values that are strings, integers or maps themselves, over every
  arrangement and under every policy, the text of a document is accepted if and only if it is the
  text of such an object, what is not is of another kind than is wanted, and the map is the one that
  is built.
-/

namespace Multimap

open Json

variable {α β V P : Type}

/-! ## Computations that fail -/

/-- A mismatch is met. -/
def Json.Decoded.Fails (x : Decoded α) : Prop := ∃ e, x.run.value = .error e

namespace Json.Decoded

theorem Fails.bind {x : Decoded α} (h : x.Fails) (f : α → Decoded β) : Fails (x >>= f) := by
  obtain ⟨e, he⟩ := h
  obtain ⟨_ | a, es⟩ := x
  · exact ⟨_, rfl⟩
  · cases he

/-- What logs and cannot fail, and then comes to the value that it has. -/
theorem lift_bind_eq {x : Logged α} {f : α → Decoded β} {g : α → Logged β}
    (h : f x.value = ExceptT.lift (g x.value)) :
    (ExceptT.lift x : Decoded α) >>= f = ExceptT.lift (x >>= g) := by
  refine Logged.ext ?_ ?_
  · show Logged.value (f x.value) = _
    rw [h]
    rfl
  · show (x.events ++ []) ++ Logged.events (f x.value) = (x.events ++ (g x.value).events) ++ []
    rw [h, List.append_nil, List.append_nil]
    exact congrArg (x.events ++ ·) (List.append_nil _)

theorem lift_bind (x : Logged α) (f : α → Logged β) :
    (ExceptT.lift (x >>= f) : Decoded β) = ExceptT.lift x >>= fun a => ExceptT.lift (f a) :=
  (lift_bind_eq rfl).symm

/-- Steps that log and cannot fail. -/
theorem foldlM_lift (f : β → α → Logged β) (as : List α) (b : β) :
    as.foldlM (fun b a => (ExceptT.lift (f b a) : Decoded β)) b = ExceptT.lift (as.foldlM f b) := by
  induction as generalizing b with
  | nil => rfl
  | cons a as ih =>
    rw [List.foldlM_cons, List.foldlM_cons, lift_bind]
    exact bind_congr ih

theorem fails_lift_bind {x : Logged α} {f : α → Decoded β} (h : (f x.value).Fails) :
    Fails ((ExceptT.lift x : Decoded α) >>= f) := h

end Json.Decoded

/-! ## Documents that are accepted -/

namespace Json.Document

def IsString : Document → Prop
  | string _ => True
  | _ => False

/-- An integer of the given range. -/
def IsInteger (least greatest : Int) : Document → Prop
  | integer n => least ≤ n ∧ n ≤ greatest
  | _ => False

/-- `null` or a valid document. -/
def IsOptional (valid : Document → Prop) (d : Document) : Prop := d = null ∨ valid d

/-- An array in which each document is `null` or valid. -/
def IsArrayOf (valid : Document → Prop) : Document → Prop
  | array items => ∀ d ∈ items, d.IsOptional valid
  | _ => False

/-- An object of arrays in which each document is `null` or valid. -/
def IsMapOf (valid : Document → Prop) : Document → Prop
  | object members => ∀ p ∈ members, p.2.IsArrayOf valid
  | _ => False

/-! What such documents stand for; of others nothing is meant by it. -/

def text : Document → String
  | string s => s
  | _ => ""

def number : Document → Int
  | integer n => n
  | _ => 0

def optional (value : Document → Logged V) : Document → Logged (Option V)
  | null => pure none
  | d => some <$> value d

def offered (value : Document → Logged V) : Document → Logged (List (Option V))
  | array items => items.mapM (optional value)
  | _ => pure []

end Json.Document

section

variable [AbsencePolicy P V] [BEq V]

/-- The map with a member: its key is looked up for change, and its values are appended one by
one. -/
def addMember (value : Document → Logged V) (m : Multimap String V P) (p : String × Document) :
    Logged (Multimap String V P) := do
  let offered ← p.2.offered value
  Prod.snd <$> m.run (.edit p.1 id :: offered.map (.append p.1))

/-- The map with the members of an object, one after the other. -/
def addMembers (value : Document → Logged V) (m : Multimap String V P) :
    Document → Logged (Multimap String V P)
  | .object members => members.foldlM (addMember value) m
  | _ => pure m

end

/-! ## Deciding -/

/-- The valid documents and no others come to something, namely to what they stand for. -/
structure Decides (decode : Document → Decoded α) (valid : Document → Prop)
    (value : Document → Logged α) : Prop where
  accepts : ∀ {d}, valid d → decode d = ExceptT.lift (value d)
  refuses : ∀ {d}, ¬ valid d → (decode d).Fails

theorem decides_string : Decides decodeString Document.IsString fun d => pure d.text := by
  constructor
  · intro d hd
    cases d <;> first | rfl | exact hd.elim
  · intro d hd
    cases d <;> first | exact ⟨_, rfl⟩ | exact absurd trivial hd

theorem decides_integer (expected : Expected) (least greatest : Int) :
    Decides (decodeInteger expected least greatest) (Document.IsInteger least greatest)
      fun d => pure d.number := by
  constructor
  · intro d hd
    cases d <;> first | exact if_pos hd | exact hd.elim
  · intro d hd
    cases d with
    | integer n =>
      rw [decodeInteger_of_not_mem hd]
      exact ⟨_, rfl⟩
    | _ => exact ⟨_, rfl⟩

namespace Decides

variable {decode : Document → Decoded α} {valid : Document → Prop} {value : Document → Logged α}

theorem map (h : Decides decode valid value) (f : α → β) :
    Decides (fun d => f <$> decode d) valid fun d => f <$> value d := by
  refine ⟨fun hd => ?_, fun hd => ?_⟩
  · rw [h.accepts hd, ← bind_pure_comp, ← bind_pure_comp, Decoded.lift_bind]
    rfl
  · rw [← bind_pure_comp]
    exact (h.refuses hd).bind _

theorem optional (h : Decides decode valid value) :
    Decides (decodeOptional decode) (Document.IsOptional valid) (Document.optional value) := by
  have hvalue := h.map some
  refine ⟨fun {d} hd => ?_, fun {d} hd => ?_⟩
  · obtain rfl | hd := hd
    · rfl
    · cases d <;> first | rfl | exact hvalue.accepts hd
  · cases d <;> first | exact absurd (.inl rfl) hd | exact hvalue.refuses fun h' => hd (.inr h')

/-- Items that are read one after the other. -/
theorem mapM_accepts (h : Decides decode valid value) {ds : List Document}
    (hds : ∀ d ∈ ds, valid d) : ds.mapM decode = ExceptT.lift (ds.mapM value) := by
  induction ds with
  | nil => rfl
  | cons d ds ih =>
    obtain ⟨hd, hds⟩ := List.forall_mem_cons.mp hds
    rw [List.mapM_cons, List.mapM_cons, h.accepts hd, ih hds, Decoded.lift_bind]
    refine bind_congr fun a => ?_
    rw [Decoded.lift_bind]
    rfl

theorem mapM_refuses (h : Decides decode valid value) {ds : List Document}
    (hds : ¬ ∀ d ∈ ds, valid d) : Decoded.Fails (ds.mapM decode) := by
  induction ds with
  | nil => exact absurd (fun _ hd => nomatch hd) hds
  | cons d ds ih =>
    rw [List.mapM_cons]
    by_cases hd : valid d
    · rw [h.accepts hd]
      refine Decoded.fails_lift_bind ((ih fun hrest => hds ?_).bind _)
      exact List.forall_mem_cons.mpr ⟨hd, hrest⟩
    · exact (h.refuses hd).bind _

/-- **Arrays are decided** when what stands in them is. -/
theorem sequence (h : Decides decode valid value) :
    Decides (decodeSequence decode) (Document.IsArrayOf valid) (Document.offered value) := by
  refine ⟨fun {d} hd => ?_, fun {d} hd => ?_⟩
  · cases d with
    | array items => exact h.optional.mapM_accepts hd
    | _ => exact hd.elim
  · cases d with
    | array items => exact h.optional.mapM_refuses hd
    | _ => exact ⟨_, rfl⟩

end Decides

/-! ## Maps -/

section

variable [AbsencePolicy P V] [BEq V] {value : Document → Logged V}
  {m : Multimap String V P}

theorem addMember_eq (hm : m.store.WellFormed) (p : String × Document) :
    addMember value m p = p.2.offered value >>= fun offered => m.accumulate p.1 offered :=
  bind_congr fun offered => accumulate_eq_run hm offered

theorem wellFormed_addMember (hm : m.store.WellFormed) (p : String × Document) :
    (addMember value m p).value.store.WellFormed := by
  rw [addMember_eq hm]
  exact hm.insert

variable [JsonValue V] [DecodedValue V] {valid : Document → Prop}

theorem enter_accepts (h : Decides DecodedValue.decode valid value) (hm : m.store.WellFormed)
    {p : String × Document} (hp : p.2.IsArrayOf valid) :
    m.enter p.1 (decodeValues V p.2) = ExceptT.lift (addMember value m p) := by
  unfold enter decodeValues
  rw [h.sequence.accepts hp, addMember_eq hm, Decoded.lift_bind]

omit [BEq V] in
theorem enter_refuses (h : Decides DecodedValue.decode valid value) {p : String × Document}
    (hp : ¬ p.2.IsArrayOf valid) : (m.enter p.1 (decodeValues V p.2)).Fails :=
  (h.sequence.refuses hp).bind _

theorem foldlM_enter_accepts (h : Decides DecodedValue.decode valid value)
    {members : List (String × Document)} (hm : m.store.WellFormed)
    (hmembers : ∀ p ∈ members, p.2.IsArrayOf valid) :
    members.foldlM (fun m p => m.enter p.1 (decodeValues V p.2)) m =
      ExceptT.lift (members.foldlM (addMember value) m) := by
  induction members generalizing m with
  | nil => rfl
  | cons p members ih =>
    obtain ⟨hp, hmembers⟩ := List.forall_mem_cons.mp hmembers
    rw [List.foldlM_cons, List.foldlM_cons, enter_accepts h hm hp]
    exact Decoded.lift_bind_eq (ih (wellFormed_addMember hm p) hmembers)

theorem foldlM_enter_refuses (h : Decides DecodedValue.decode valid value)
    {members : List (String × Document)} (hm : m.store.WellFormed)
    (hmembers : ¬ ∀ p ∈ members, p.2.IsArrayOf valid) :
    Decoded.Fails (members.foldlM (fun m p => m.enter p.1 (decodeValues V p.2)) m) := by
  induction members generalizing m with
  | nil => exact absurd (fun _ hp => nomatch hp) hmembers
  | cons p members ih =>
    rw [List.foldlM_cons]
    by_cases hp : p.2.IsArrayOf valid
    · rw [enter_accepts h hm hp]
      refine Decoded.fails_lift_bind (ih (wellFormed_addMember hm p) fun hrest => hmembers ?_)
      exact List.forall_mem_cons.mpr ⟨hp, hrest⟩
    · exact (enter_refuses h hp).bind _

/-- **Maps are decided** when their values are. -/
theorem Decides.map_of_values (h : Decides DecodedValue.decode valid value)
    (hm : m.store.WellFormed) :
    Decides (decodeMap m) (Document.IsMapOf valid) (addMembers value m) := by
  refine ⟨fun {d} hd => ?_, fun {d} hd => ?_⟩
  · cases d with
    | object members => exact foldlM_enter_accepts h hm hd
    | _ => exact hd.elim
  · cases d with
    | object members => exact foldlM_enter_refuses h hm hd
    | _ => exact ⟨_, rfl⟩

omit [JsonValue V] [DecodedValue V] in
/-- Of members with one name the first decides about the place of the key. -/
theorem lists_addMembers {ks : List String} (hm : m.store.WellFormed) (hks : Lists ks m)
    (members : List (String × Document)) :
    Lists ((members.map (·.1)).foldl enroll ks) (addMembers value m (.object members)).value := by
  induction members generalizing ks m with
  | nil => exact hks
  | cons p members ih =>
    have hstep : Lists (enroll ks p.1) (addMember value m p).value := by
      rw [addMember_eq hm]
      exact hks.insert _
    exact ih (wellFormed_addMember hm p) hstep

end

/-! ## Acceptance of texts -/

section

variable [JsonValue V] [DecodedValue V] [BEq V] [AbsencePolicy P V] {valid : Document → Prop}
  {value : Document → Logged V} {d : Document}

theorem ofJson_built (h : Decides DecodedValue.decode valid value) (hd : d.Plain)
    (hmap : d.IsMapOf valid) (a : Arrangement) (p : P) :
    ofJson a p (String.ofList d.write) = Except.ok <$> addMembers value (empty a p) d := by
  rw [ofJson_write hd, (h.map_of_values (.empty a)).accepts hmap]
  show _ <$> (Except.ok <$> addMembers value (empty a p) d) = _
  rw [← comp_map]
  rfl

theorem ofJson_mismatch (h : Decides DecodedValue.decode valid value) (hd : d.Plain)
    (hmap : ¬ d.IsMapOf valid) (a : Arrangement) (p : P) :
    ∃ e, (ofJson a p (String.ofList d.write) :
      Logged (Except Fault (Multimap String V P))).value = .error (.mismatch e) := by
  obtain ⟨e, he⟩ := (h.map_of_values (m := empty a p) (.empty a)).refuses hmap
  rw [ofJson_write hd, Logged.value_map, he]
  exact ⟨e, rfl⟩

end

/-- Maps from text to values of type `V` are read from the texts of objects of arrays of `null` and
of valid documents, over every arrangement and under every policy. -/
structure Accepts (V : Type) [JsonValue V] [BEq V] (valid : Document → Prop)
    (value : Document → Logged V) : Prop where
  /-- These texts and no others are accepted. -/
  accepted_iff {P : Type} [AbsencePolicy P V] (a : Arrangement) (p : P) {d : Document} :
    d.Plain → ((∃ m : Multimap String V P, (ofJson a p (String.ofList d.write)).value = .ok m) ↔
      d.IsMapOf valid)
  /-- The others are of another kind than is wanted, or a number in them is out of range. -/
  mismatch {P : Type} [AbsencePolicy P V] (a : Arrangement) (p : P) {d : Document} :
    d.Plain → ¬ d.IsMapOf valid → ∃ e, (ofJson a p (String.ofList d.write) :
      Logged (Except Fault (Multimap String V P))).value = .error (.mismatch e)
  /-- What is read is the map that is built member by member, and as much is logged. -/
  built {P : Type} [AbsencePolicy P V] (a : Arrangement) (p : P) {d : Document} :
    d.Plain → d.IsMapOf valid →
      ofJson a p (String.ofList d.write) = Except.ok <$> addMembers value (empty a p) d
  /-- Its keys, in order of arrival, are the names, each at the place where it is met first. -/
  keys {P : Type} [AbsencePolicy P V] (p : P) (members : List (String × Document)) :
    (addMembers value (empty .arrival p) (.object members)).value.store.keys =
      (members.map (·.1)).foldl enroll []

/-- Maps whose values are decided. -/
theorem Accepts.of_decides [JsonValue V] [DecodedValue V] [BEq V] {valid : Document → Prop}
    {value : Document → Logged V} (h : Decides DecodedValue.decode valid value) :
    Accepts V valid value := by
  constructor
  · intro P _ a p d hd
    constructor
    · rintro ⟨m, hm⟩
      by_cases hmap : d.IsMapOf valid
      · exact hmap
      · obtain ⟨e, he⟩ := ofJson_mismatch h hd hmap a p
        rw [hm] at he
        cases he
    · intro hmap
      rw [ofJson_built h hd hmap a p]
      exact ⟨_, rfl⟩
  · intro P _ a p d hd hmap
    exact ofJson_mismatch h hd hmap a p
  · intro P _ a p d hd hmap
    exact ofJson_built h hd hmap a p
  · intro P _ p members
    exact (lists_addMembers (.empty _) ⟨rfl, rfl⟩ members).keys_eq

/-- The integers that have 64 bits and a sign. -/
abbrev Json.Document.IsInt64 : Document → Prop :=
  Document.IsInteger Int64.minValue.toInt Int64.maxValue.toInt

/-- **What is accepted as a map and what it is built into**, for values that are strings, integers
or maps from text to integers. -/
theorem ofJson_accepts :
    Accepts String Document.IsString (fun d => pure d.text) ∧
      Accepts Int64 Document.IsInt64 (fun d => pure (Int64.ofInt d.number)) ∧
      Accepts UInt8 (Document.IsInteger 0 255) (fun d => pure (UInt8.ofNat d.number.toNat)) ∧
      Accepts (Multimap String Int64 DropAbsent) (Document.IsMapOf Document.IsInt64)
        (addMembers (fun d => pure (Int64.ofInt d.number)) default) := by
  have hint64 : Decides (DecodedValue.decode : Document → Decoded Int64) Document.IsInt64
      fun d => pure (Int64.ofInt d.number) := (decides_integer _ _ _).map Int64.ofInt
  refine ⟨.of_decides decides_string, .of_decides hint64, .of_decides ?_, .of_decides ?_⟩
  · exact (decides_integer _ _ _).map fun n => UInt8.ofNat n.toNat
  · exact hint64.map_of_values (.empty _)

/-- A name that is met again goes on with its sequence. -/
theorem ofJson_accepts_repeated :
    let d : Document :=
      .object [("k", .array [.null, .integer 1]), ("e", .array []), ("k", .array [.integer 2])]
    d.Plain ∧ d.IsMapOf Document.IsInt64 ∧ ∃ m : Multimap String Int64 (Policy Int64),
      (ofJson .arrival (.sentinel 7) (String.ofList d.write)).value = .ok m ∧
        m.store.entries = [("k", [7, 1, 2]), ("e", [])] := by
  intro d
  have hone : (Document.integer 1).Plain := .integer (by decide) (by decide)
  have htwo : (Document.integer 2).Plain := .integer (by decide) (by decide)
  have hplain : d.Plain := by
    refine .object fun p hp => ?_
    simp only [List.mem_cons, List.not_mem_nil, or_false] at hp
    rcases hp with rfl | rfl | rfl
    · exact .array (List.forall_mem_cons.mpr ⟨.null, List.forall_mem_singleton.mpr hone⟩)
    · exact .array fun _ h => absurd h List.not_mem_nil
    · exact .array (List.forall_mem_singleton.mpr htwo)
  have hmap : d.IsMapOf Document.IsInt64 := by
    have hnull : Document.null.IsOptional Document.IsInt64 := .inl rfl
    have hone : (Document.integer 1).IsOptional Document.IsInt64 := .inr ⟨by decide, by decide⟩
    have htwo : (Document.integer 2).IsOptional Document.IsInt64 := .inr ⟨by decide, by decide⟩
    intro p hp
    simp only [List.mem_cons, List.not_mem_nil, or_false] at hp
    rcases hp with rfl | rfl | rfl
    · exact List.forall_mem_cons.mpr ⟨hnull, List.forall_mem_singleton.mpr hone⟩
    · exact fun _ h => absurd h List.not_mem_nil
    · exact List.forall_mem_singleton.mpr htwo
  have hbuilt := ofJson_accepts.2.1.built .arrival (Policy.sentinel (7 : Int64)) hplain hmap
  refine ⟨hplain, hmap, _, congrArg Logged.value hbuilt, ?_⟩
  decide +kernel

end Multimap
