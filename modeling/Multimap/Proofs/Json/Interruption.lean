import Multimap.Proofs.Json.Legible
import Multimap.Proofs.Json.Stopping
import Multimap.Workspace.Execution

/-!
# Reading that stops at a member

The members of an object are added to the map one after the other, and of each all values are taken
before the first of them is added. So if reading stops at a member, because it is of another kind
than is wanted or because the text ends, then what has been logged is what is logged about the
members before it, and the map is lost with whatever the policy has noted.

* `Document.Culprit`: the document for which reading stops, in a member that is not wanted.
* `Reads`: what has to be known of a type of values.
* `Reads.sequence_refused`: an array with an item that is refused.
* `Reads.readMember_refused`, `Reads.readMember_cut`: a member that is refused, and one that is cut
  off.
* **`ofJson_stops`**: what comes of a text behind which reading stops, for values that are strings
  or integers.
* `ofJson_stops_beyond_doubles`: the fault is not always one of kinds.
-/

namespace Multimap

namespace Json

variable {α β : Type} {text left more : List Char} {c : Char}

/-! ## Arrays with an item that is refused -/

/-- The document for which reading stops where an array of valid values is wanted: the one that is
there instead of an array, or the first item that is no value. -/
inductive Document.Culprit (valid : Document → Prop) : Document → Document → Prop
  | whole {d : Document} (h : ∀ items, d ≠ .array items) : Culprit valid d d
  | item {before behind : List Document} {b : Document} (h : ∀ i ∈ before, i.IsOptional valid)
      (hb : ¬ b.IsOptional valid) : Culprit valid (.array (before ++ b :: behind)) b

/-- In a plain document that is one that is legible. -/
theorem Document.Culprit.legible {valid : Document → Prop} {d b : Document}
    (h : d.Culprit valid b) (hd : d.Plain) : b.Legible := by
  cases h with
  | whole h => exact hd.legible
  | item h hb =>
    cases hd with
    | array his => exact (his b (List.mem_append_right _ List.mem_cons_self)).legible

/-- The first one that has not the property. -/
theorem exists_first_not {P : α → Prop} {as : List α} (h : ¬ ∀ a ∈ as, P a) :
    ∃ before a behind, as = before ++ a :: behind ∧ (∀ b ∈ before, P b) ∧ ¬ P a := by
  induction as with
  | nil => exact absurd (fun _ ha => absurd ha List.not_mem_nil) h
  | cons a as ih =>
    by_cases ha : P a
    · obtain ⟨before, b, behind, rfl, hbefore, hb⟩ := ih fun has =>
        h (List.forall_mem_cons.mpr ⟨ha, has⟩)
      exact ⟨a :: before, b, behind, rfl, List.forall_mem_cons.mpr ⟨ha, hbefore⟩, hb⟩
    · exact ⟨[], a, as, rfl, fun _ hb => absurd hb List.not_mem_nil, ha⟩

theorem Apart.cons_of (hc : c = ',' ∨ c = ']' ∨ c = '}') : Apart (c :: more) := by
  rintro c' hc'
  cases hc'
  rcases hc with rfl | rfl | rfl <;> exact ⟨rfl, by decide, by decide, by decide, by decide⟩

theorem bind_of_scan {scan : Scan α} {a : α}
    (hscan : scan text = .ok (a, left)) (next : α → Reader β) :
    (Reader.ofScan scan >>= next) text = next a left := by
  show (ExceptT.mk (pure (scan text)) : ExceptT Fault Logged (α × List Char)) >>= _ = _
  rw [hscan]
  rfl

variable {valid : Document → Prop} {read : Reader α}

theorem Reader.Refuses.optional (h : read.Refuses valid) :
    (optional read).Refuses (Document.IsOptional valid) := by
  intro d hnot more hmore hne
  obtain ⟨f, hf, he⟩ := h.map some (fun hvalid => hnot (.inr hvalid)) hmore hne
  obtain ⟨c, text, htext, hopens, hstarts⟩ := d.write_opens more
  have hc : c ≠ 'n' := by
    rintro rfl
    exact hnot (.inl (Document.eq_null_of_startsWith (hstarts .null rfl)))
  refine ⟨f, hf, ?_⟩
  rw [htext] at he ⊢
  unfold Reader.optional
  rw [skipBlank_cons hopens.isBlank_eq]
  split
  · next heq => exact absurd (List.cons.inj heq).1 hc
  · exact he

end Json

open Json

/-! ## Values that are told from what is no value -/

/-- The valid documents and no others are read as values. Reading one logs nothing, needs some text,
and takes the same of a longer text. -/
structure Reads (V : Type) [JsonValue V] [DecodedValue V] (valid : Document → Prop)
    (value : Document → Logged V) : Prop where
  decides : Decides (DecodedValue.decode : Document → Decoded V) valid value
  plain {d : Document} : valid d → d.Plain
  refuses : (JsonValue.read : Reader V).Refuses valid
  takes : (JsonValue.read : Reader V).Local false
  needs : (JsonValue.read : Reader V).Needs
  silent : (JsonValue.read : Reader V).Silent

/-- The map with a member: its values are accumulated under its key. -/
def takeMember {V P : Type} [AbsencePolicy P V] (value : Document → Logged V)
    (m : Multimap String V P) (p : String × Document) : Logged (Multimap String V P) := do
  m.accumulate p.1 (← p.2.offered value)

namespace Reads

variable {V : Type} [JsonValue V] [DecodedValue V] {valid : Document → Prop}
  {value : Document → Logged V} {d : Document} {more : List Char}

theorem plain_optional (h : Reads V valid value) (hd : d.IsOptional valid) : d.Plain := by
  rcases hd with rfl | hd
  · exact .null
  · exact h.plain hd

theorem plain_array (h : Reads V valid value) (hd : d.IsArrayOf valid) : d.Plain := by
  cases d with
  | array items => exact .array fun i hi => h.plain_optional (hd i hi)
  | _ => exact hd.elim

/-- An item of an array that is taken. -/
theorem item (h : Reads V valid value) (hd : d.IsOptional valid) :
    Item (fun acc => return acc ++ [← Reader.optional JsonValue.read]) Document.write
      (fun (acc : List (Option V)) d =>
        ExceptT.lift (do return acc ++ [← d.optional value])) d := by
  have hplain := h.plain_optional hd
  refine ⟨hplain.write_item, fun acc rest hr => ?_⟩
  rw [Decoded.lift_bind, ← h.decides.optional.accepts hd]
  exact Reader.bind_leaving (DecodedValue.follows.optional hplain hr) fun _ => rfl

/-- **An array with an item that is refused** is refused as a whole, and nothing is logged. -/
theorem sequence_refused (h : Reads V valid value) (hnot : ¬ d.IsArrayOf valid)
    (hmore : Apart more) (hne : more ≠ []) :
    ∃ b f, d.Culprit valid b ∧ b.RefusedBy f ∧
      (Reader.sequence JsonValue.read : Reader (List (Option V))) (d.write ++ more) = throw f := by
  by_cases harray : ∃ items, d = .array items
  · obtain ⟨items, rfl⟩ := harray
    obtain ⟨before, b, behind, rfl, hbefore, hb⟩ := exists_first_not hnot
    -- What stands behind the item that is refused.
    obtain ⟨rest, hrest⟩ : ∃ rest, rest = (behind.flatMap fun d => ',' :: d.write) ++ ']' :: more :=
      ⟨_, rfl⟩
    have happart : Apart rest := by
      cases behind with
      | nil => exact hrest ▸ .cons_of (.inr (.inl rfl))
      | cons d behind => exact hrest ▸ .cons_of (.inl rfl)
    obtain ⟨c, text, htext, hopens, -⟩ := b.write_opens rest
    obtain ⟨f, hf, he⟩ := h.refuses.optional hb happart (by simp [hrest])
    have hwrite : (Document.array (before ++ b :: behind)).write ++ more =
        '[' :: (separated Document.write before ++ glue before (c :: text)) := by
      show '[' :: Document.writeItems (before ++ b :: behind) ++ [']'] ++ more = _
      rw [writeItems_eq, separated_append, ← htext, hrest]
      simp only [List.append_assoc, List.cons_append, List.nil_append, glue_append]
    have hitem : ∀ acc : List (Option V),
        (do return acc ++ [← Reader.optional JsonValue.read] : Reader (List (Option V)))
          (c :: text) = throw f := by
      intro acc
      rw [← htext]
      show Reader.optional JsonValue.read _ >>= _ = _
      rw [he]
      rfl
    refine ⟨b, f, .item hbefore hb, hf, h.silent.sequence.clean ?_⟩
    have hstops := foldItems_stops (.inl rfl) (fun d hd => h.item (hbefore d hd)) [] ends_glue
      (foldItems_throw (.inl rfl) before hopens (hitem _))
    rw [hwrite]
    exact congrArg Logged.value hstops
  · have hrefuses : (Reader.sequence (JsonValue.read : Reader V)).Refuses
        fun d => ∃ items, d = .array items :=
      Reader.refuses_of_ne (.array []) rfl Document.eq_array_of_startsWith Reader.sequence_of_ne
    obtain ⟨f, hf, he⟩ := hrefuses harray hmore hne
    exact ⟨d, f, .whole fun items hitems => harray ⟨items, hitems⟩, hf, he⟩

/-! ### Members -/

variable {P : Type} [AbsencePolicy P V] {p : String × Document}

/-- A member that is taken. -/
theorem member (h : Reads V valid value) (hp : p.2.IsArrayOf valid) :
    Item readMember writeMember
      (fun (m : Multimap String V P) p => ExceptT.lift (takeMember value m p)) p := by
  refine ⟨⟨'"', _, rfl, ⟨rfl, by decide, by decide⟩⟩, fun m rest hr => ?_⟩
  have henter : m.enter p.1 (decodeValues V p.2) = ExceptT.lift (takeMember value m p) := by
    unfold enter decodeValues takeMember
    rw [h.decides.sequence.accepts hp, Decoded.lift_bind]
  rw [← henter]
  exact readMember_write (h.plain_array hp) (names_string p.1) m hr

theorem clean_readMember (h : Reads V valid value) (m : Multimap String V P) :
    (readMember m).Clean :=
  (Reader.Silent.ofScan _).bind_clean fun _ => (Reader.Silent.ofScan _).bind_clean fun _ =>
    h.silent.sequence.bind_clean fun _ => Reader.clean_ofLogged _

/-- **A member that is refused**: nothing of it is logged. -/
theorem readMember_refused (h : Reads V valid value) (hnot : ¬ p.2.IsArrayOf valid)
    (hmore : Apart more) (hne : more ≠ []) (m : Multimap String V P) :
    ∃ b f, p.2.Culprit valid b ∧ b.RefusedBy f ∧
      readMember m (writeMember p ++ more) = throw f := by
  obtain ⟨b, f, hb, hf, he⟩ := h.sequence_refused hnot hmore hne
  have hname : (readName : Scan String) (writeMember p ++ more) =
      .ok (p.1, ':' :: (p.2.write ++ more)) := by
    have htext : writeMember p ++ more =
        '"' :: (p.1.toList.flatMap escape ++ '"' :: ':' :: (p.2.write ++ more)) := by
      simp [writeMember, writeString]
    rw [htext]
    exact names_string p.1 _
  have hcolon : Reader.skipColon (':' :: (p.2.write ++ more)) = .ok ((), p.2.write ++ more) :=
    scanWord_append [':'] _
  refine ⟨b, f, hb, hf, ?_⟩
  unfold readMember
  rw [bind_of_scan hname, bind_of_scan hcolon]
  show Reader.sequence JsonValue.read (p.2.write ++ more) >>= _ = _
  rw [he]
  rfl

/-- **A member that is cut off**, or is complete but to be refused: nothing of it is logged. -/
theorem readMember_cut (h : Reads V valid value) (m : Multimap String V P)
    {text rest : List Char} (htext : text ++ rest = writeMember p)
    (hrest : rest ≠ [] ∨ ¬ p.2.IsArrayOf valid) : ∃ f, readMember m text = throw f := by
  cases hvalue : (readMember m text).run.value with
  | error f => exact ⟨f, h.clean_readMember m hvalue⟩
  | ok r =>
    -- The whole member would be taken as well, and not only what stands behind it would be left.
    obtain ⟨n, left⟩ := r
    have hwhole : (readMember m (text ++ (rest ++ [',']))).run.value =
        .ok (n, left ++ (rest ++ [','])) :=
      (local_readMember h.takes h.needs m).closed_append hvalue
    rw [← List.append_assoc, htext] at hwhole
    by_cases hvalid : p.2.IsArrayOf valid
    · have hends : Ends [','] := .cons rfl (by decide) (by decide) (by decide)
      rw [(h.member hvalid).yields m hends] at hwhole
      have hleft : [','] = left ++ (rest ++ [',']) := congrArg Prod.snd (Except.ok.inj hwhole)
      rw [← List.append_assoc] at hleft
      have hnothing : [] = left ++ rest := List.append_cancel_right hleft
      have hnone := (List.append_eq_nil_iff.mp hnothing.symm).2
      exact absurd hvalid (hrest.resolve_left fun hne => hne hnone)
    · obtain ⟨_, f, -, -, he⟩ := h.readMember_refused hvalid (.cons_of (.inl rfl))
        (List.cons_ne_nil ',' []) m
      rw [he] at hwhole
      cases hwhole

/-! ### Objects -/

variable {es : List (String × Document)}

theorem writeMembers_eq (es : List (String × Document)) :
    Document.writeMembers es = separated writeMember es := by
  have hmap := writeMembers_map id es
  rw [List.map_id] at hmap
  exact hmap

/-- Reading stops behind members. -/
theorem ofJson_stops_behind (h : Reads V valid value) (hes : ∀ e ∈ es, e.2.IsArrayOf valid)
    (a : Arrangement) (p : P) {behind : List Char} (hbehind : es ≠ [] → Ends behind) {f : Fault}
    (hstop : Reader.foldItems '}' readMember es.isEmpty
      (es.foldlM (takeMember value) (empty a p)).value behind = throw f) :
    (ofJson a p (String.ofList ('{' :: (separated writeMember es ++ behind))) :
        Logged (Except Fault (Multimap String V P))) =
      ⟨.error f, (es.foldlM (takeMember value) (empty a p)).events⟩ := by
  have hread : readMap (empty a p) ('{' :: (separated writeMember es ++ behind)) =
      ⟨.error f, (es.foldlM (takeMember value) (empty a p)).events⟩ :=
    foldItems_stops (.inr rfl) (fun e he => h.member (hes e he)) _ hbehind hstop
  unfold ofJson Reader.whole
  rw [String.toList_ofList, hread]
  exact Logged.ext rfl (List.append_nil _)

/-- What is logged about the members alone. -/
theorem events_ofJson_object (h : Reads V valid value) (hes : ∀ e ∈ es, e.2.IsArrayOf valid)
    (a : Arrangement) (p : P) :
    (ofJson a p (String.ofList (Document.object es).write) :
        Logged (Except Fault (Multimap String V P))).events =
      (es.foldlM (takeMember value) (empty a p)).events := by
  have hclose : Reader.foldItems '}' readMember es.isEmpty
      (es.foldlM (takeMember value) (empty a p)).value ['}'] =
        Decoded.leaving (pure (es.foldlM (takeMember value) (empty a p)).value) [] :=
    foldItems_close rfl _
  have hends : Ends ['}'] := .cons rfl (by decide) (by decide) (by decide)
  have hread : readMap (empty a p) (Document.object es).write =
      ⟨.ok ((es.foldlM (takeMember value) (empty a p)).value, []),
        (es.foldlM (takeMember value) (empty a p)).events⟩ := by
    show Reader.foldItems '}' readMember true (empty a p) (Document.writeMembers es ++ ['}']) = _
    rw [writeMembers_eq,
      foldItems_lead (.inr rfl) (fun e he => h.member (hes e he)) _ fun _ => hends]
    exact lift_bind_of_value hclose
  unfold ofJson Reader.whole
  rw [String.toList_ofList, hread]
  exact List.append_nil _

theorem ofJson_refused (h : Reads V valid value) (hes : ∀ e ∈ es, e.2.IsArrayOf valid)
    (hnot : ¬ p.2.IsArrayOf valid) (hmore : Apart more) (hne : more ≠ []) (a : Arrangement)
    (policy : P) :
    ∃ b f, p.2.Culprit valid b ∧ b.RefusedBy f ∧
      (ofJson a policy (String.ofList ('{' :: (Document.writeMembers (es ++ [p]) ++ more))) :
          Logged (Except Fault (Multimap String V P))) =
        ⟨.error f, (es.foldlM (takeMember value) (empty a policy)).events⟩ := by
  obtain ⟨b, f, hb, hf, he⟩ := h.readMember_refused hnot hmore hne
    (es.foldlM (takeMember value) (empty a policy)).value
  have hwrite : Document.writeMembers (es ++ [p]) ++ more =
      separated writeMember es ++ glue es (writeMember p ++ more) := by
    rw [writeMembers_eq, separated_append, List.append_assoc, glue_append, List.flatMap_nil,
      List.append_nil]
  refine ⟨b, f, hb, hf, ?_⟩
  rw [hwrite]
  exact h.ofJson_stops_behind hes a policy ends_glue
    (foldItems_throw (.inr rfl) es ⟨rfl, by decide, by decide⟩ he)

theorem ofJson_cut (h : Reads V valid value) (hes : ∀ e ∈ es, e.2.IsArrayOf valid)
    {text rest : List Char}
    (htext : separated writeMember es ++ text ++ rest = Document.writeMembers (es ++ [p]))
    (hrest : rest ≠ [] ∨ ¬ p.2.IsArrayOf valid) (a : Arrangement) (policy : P) :
    ∃ f, (ofJson a policy (String.ofList ('{' :: (separated writeMember es ++ text))) :
        Logged (Except Fault (Multimap String V P))) =
      ⟨.error f, (es.foldlM (takeMember value) (empty a policy)).events⟩ := by
  have hglue : text ++ rest = glue es (writeMember p) := by
    rw [writeMembers_eq, separated_append, List.flatMap_nil, List.append_nil, List.append_assoc]
      at htext
    exact List.append_cancel_left htext
  have hends : es ≠ [] → Ends text := by
    rcases exists_of_glue hglue with rfl | ⟨start, rfl, -⟩
    · exact fun _ => .nil
    · exact ends_glue
  suffices hstop : ∃ f, Reader.foldItems '}' readMember es.isEmpty
      (es.foldlM (takeMember value) (empty a policy)).value text = throw f by
    obtain ⟨f, hf⟩ := hstop
    exact ⟨f, h.ofJson_stops_behind hes a policy hends hf⟩
  rcases exists_of_glue hglue with rfl | ⟨start, rfl, hstart⟩
  · exact ⟨_, foldItems_ended (.inr rfl) es (.inl rfl)⟩
  cases start with
  | nil => exact ⟨_, foldItems_ended (.inr rfl) es (.inr rfl)⟩
  | cons c start =>
    obtain ⟨f, hf⟩ := h.readMember_cut (es.foldlM (takeMember value) (empty a policy)).value hstart
      hrest
    obtain ⟨rfl, -⟩ := List.cons.inj hstart
    exact ⟨f, foldItems_throw (.inr rfl) es ⟨rfl, by decide, by decide⟩ hf⟩

end Reads

/-! ## Strings and integers -/

theorem reads_string : Reads String Document.IsString fun d => pure d.text where
  decides := decides_string
  plain {d} hd := by
    cases d with
    | string s => exact .string s
    | _ => exact hd.elim
  refuses := refuses_string
  takes := .of_closed (.ofScan local_string)
  needs := needs_string
  silent := .ofScan _

/-- Integers of a range, taken for values. -/
theorem Reads.of_integer {V : Type} [JsonValue V] [DecodedValue V] {expected : Expected}
    {least greatest : Int} {f : Int → V}
    (hread : (JsonValue.read : Reader V) =
      f <$> Reader.ofScan (Reader.integer expected least greatest))
    (hdecode : (DecodedValue.decode : Document → Decoded V) =
      fun d => f <$> decodeInteger expected least greatest d)
    (hleast : leastInteger ≤ least) (hgreatest : greatest ≤ greatestInteger) :
    Reads V (Document.IsInteger least greatest) fun d => pure (f d.number) where
  decides := by
    rw [hdecode]
    exact (decides_integer expected least greatest).map f
  plain {d} hd := by
    cases d with
    | integer n => exact .integer (Int.le_trans hleast hd.1) (Int.le_trans hd.2 hgreatest)
    | _ => exact hd.elim
  refuses := by
    rw [hread]
    exact (refuses_integer expected least greatest).map f
  takes := by
    rw [hread]
    exact (Reader.Local.ofScan (local_integer expected least greatest)).map f
  needs := by
    rw [hread]
    exact (needs_integer expected least greatest).map f
  silent := by
    rw [hread]
    exact (Reader.Silent.ofScan _).map f

theorem reads_int64 : Reads Int64 Document.IsInt64 fun d => pure (Int64.ofInt d.number) :=
  .of_integer (ofScan_return _ _) rfl (by decide) (by decide)

theorem reads_uint8 :
    Reads UInt8 (Document.IsInteger 0 255) fun d => pure (UInt8.ofNat d.number.toNat) :=
  .of_integer (f := fun n => UInt8.ofNat n.toNat) (ofScan_return _ _) rfl (by decide) (by decide)

/-! ## Texts behind which reading stops -/

section

variable (V : Type) {P : Type} [JsonValue V] [AbsencePolicy P V]

/-- What is logged when the object of the members is read. -/
def memberEvents (a : Arrangement) (p : P) (es : List (String × Document)) : List Event :=
  (ofJson a p (String.ofList (Document.object es).write) :
    Logged (Except Fault (Multimap String V P))).events

/-- Reading stops, and what has been logged is what is logged about the members. -/
def StopsWith (a : Arrangement) (p : P) (text : List Char) (es : List (String × Document))
    (f : Fault) : Prop :=
  (ofJson a p (String.ofList text) : Logged (Except Fault (Multimap String V P))) =
    ⟨.error f, memberEvents V a p es⟩

end

/-- Where reading stops at a member behind others that are read, over every arrangement and under
every policy. -/
structure StopsAtMember (V : Type) [JsonValue V] (valid : Document → Prop) : Prop where
  /-- The member is of another kind than is wanted, whatever comes behind it. -/
  refused {P : Type} [AbsencePolicy P V] (a : Arrangement) (p : P)
    {es : List (String × Document)} (hes : ∀ e ∈ es, e.2.IsArrayOf valid)
    (name : String) {d : Document} (hnot : ¬ d.IsArrayOf valid)
    {c : Char} (hc : c = ',' ∨ c = '}') (rest : List Char) :
    ∃ b f, d.Culprit valid b ∧ b.RefusedBy f ∧
      StopsWith V a p ('{' :: Document.writeMembers (es ++ [(name, d)]) ++ c :: rest) es f
  /-- The text ends before the member does, wherever it ends, or with a member of another kind. -/
  cut {P : Type} [AbsencePolicy P V] (a : Arrangement) (p : P)
    {es : List (String × Document)} (hes : ∀ e ∈ es, e.2.IsArrayOf valid)
    (name : String) {d : Document} {text : List Char}
    (hfrom : '{' :: Document.writeMembers es <+: text)
    (hto : text <+: '{' :: Document.writeMembers (es ++ [(name, d)]))
    (hends : text ≠ '{' :: Document.writeMembers (es ++ [(name, d)]) ∨ ¬ d.IsArrayOf valid) :
    ∃ f, StopsWith V a p text es f
  /-- The map that was to be replaced is there as it was, with its policy. -/
  unchanged [BEq V] [Plain V] [Inspect V] (hashing : Option (HashInput V)) (w : Workspace String V)
    (slot : String) (a : Arrangement) (p : Policy V) (policy : Option (Policy V))
    {text : List Char} {es : List (String × Document)} {f : Fault} (h : StopsWith V a p text es f) :
    w.execute hashing (.create slot (.json a p (String.ofList text)) policy) =
      ⟨w.reply (.failure (.unreadable f)), memberEvents V a p es⟩

theorem Reads.stopsAtMember {V : Type} [JsonValue V] [DecodedValue V] {valid : Document → Prop}
    {value : Document → Logged V} (h : Reads V valid value) : StopsAtMember V valid where
  refused a p es hes name d hnot c hc rest := by
    have happart : Apart (c :: rest) := .cons_of (hc.imp_right .inr)
    obtain ⟨b, f, hb, hf, he⟩ :=
      h.ofJson_refused (p := (name, d)) hes hnot happart (List.cons_ne_nil c rest) a p
    exact ⟨b, f, hb, hf, he.trans (congrArg _ (h.events_ofJson_object hes a p).symm)⟩
  cut a p es hes name d text hfrom hto hends := by
    obtain ⟨start, rfl⟩ := hfrom
    obtain ⟨rest, hrest⟩ := hto
    have hleft : rest ≠ [] ∨ ¬ d.IsArrayOf valid := by
      refine hends.imp_left ?_
      rintro hne rfl
      rw [List.append_nil] at hrest
      exact hne hrest
    rw [writeMembers_eq es] at hrest ⊢
    obtain ⟨f, hf⟩ := h.ofJson_cut (p := (name, d)) hes (List.cons.inj hrest).2 hleft a p
    exact ⟨f, hf.trans (congrArg _ (h.events_ofJson_object hes a p).symm)⟩
  unchanged hashing w slot a p policy text es f hstops := by
    have hread : ofJson a p (String.ofList text) = ⟨.error f, memberEvents V a p es⟩ := hstops
    have hmake : Origin.make (.json a p (String.ofList text)) =
        (⟨.error (.unreadable f), memberEvents V a p es⟩ :
          Logged (Except Failure (Multimap String V (Policy V)))) := by
      show ofJson a p (String.ofList text) >>= _ = _
      rw [hread]
      exact Logged.ext rfl (List.append_nil _)
    show Origin.make _ >>= _ = _
    rw [hmake]
    exact Logged.ext rfl (List.append_nil _)

/-- **Where reading stops, only the members before it have had effects**, for values that are
strings or integers. -/
theorem ofJson_stops :
    StopsAtMember String Document.IsString ∧ StopsAtMember Int64 Document.IsInt64 ∧
      StopsAtMember UInt8 (Document.IsInteger 0 255) :=
  ⟨reads_string.stopsAtMember, reads_int64.stopsAtMember, reads_uint8.stopsAtMember⟩

/-- Two members of one name are read and then a member with a word among its values, or the text
ends in that member. The two absent values before are logged, and not the one in front of the
word. -/
theorem ofJson_stops_int64 :
    let es : List (String × Document) :=
      [("k", .array [.null, .integer 1]), ("k", .array [.null])]
    let d : Document := .array [.null, .string "no"]
    let text := "\x7b\"k\":[null,1],\"k\":[null],\"x\":[nu".toList
    let whole := '{' :: Document.writeMembers (es ++ [("x", d)])
    (∀ e ∈ es, e.2.IsArrayOf Document.IsInt64) ∧ ¬ d.IsArrayOf Document.IsInt64 ∧
      '{' :: Document.writeMembers es <+: text ∧ text <+: whole ∧ text ≠ whole ∧
      memberEvents Int64 .sorted (.drop : Policy Int64) es =
        [.dropped .back 0, .dropped .back 1] ∧
      (∃ e, StopsWith Int64 .sorted (.drop : Policy Int64) (whole ++ ',' :: "\x7d[".toList) es
        (.mismatch e)) ∧
      ∃ f, StopsWith Int64 .sorted (.drop : Policy Int64) text es f ∧
        ∀ w : Workspace String Int64,
          (w.execute none (.create "s" (.json .sorted .drop (String.ofList text)) none)).value =
            w.reply (.failure (.unreadable f)) := by
  intro es d text whole
  have hone : (Document.integer 1).IsOptional Document.IsInt64 := .inr ⟨by decide, by decide⟩
  have hes : ∀ e ∈ es, e.2.IsArrayOf Document.IsInt64 := by
    intro e he
    simp only [es, List.mem_cons, List.not_mem_nil, or_false] at he
    rcases he with rfl | rfl
    · exact List.forall_mem_cons.mpr ⟨.inl rfl, List.forall_mem_singleton.mpr hone⟩
    · exact List.forall_mem_singleton.mpr (.inl rfl)
  have hd : d.Plain := .array (List.forall_mem_cons.mpr
    ⟨.null, List.forall_mem_singleton.mpr (.string "no")⟩)
  have hnot : ¬ d.IsArrayOf Document.IsInt64 := by
    intro h
    obtain ⟨-, h⟩ := List.forall_mem_cons.mp h
    rcases List.forall_mem_singleton.mp h with h | h
    · cases h
    · exact h
  have hfrom : '{' :: Document.writeMembers es <+: text := by decide +kernel
  have hto : text <+: whole := by decide +kernel
  have hends : text ≠ whole := by decide +kernel
  have hevents : memberEvents Int64 .sorted (.drop : Policy Int64) es =
      [.dropped .back 0, .dropped .back 1] := by
    refine (reads_int64.events_ofJson_object hes .sorted _).trans ?_
    decide +kernel
  have hstops := ofJson_stops.2.1
  obtain ⟨f, hf⟩ := hstops.cut .sorted (.drop : Policy Int64) hes "x" hfrom hto (.inl hends)
  refine ⟨hes, hnot, hfrom, hto, hends, hevents, ?_, f, hf, fun w => ?_⟩
  · obtain ⟨b, _, hb, hrefused, hwhole⟩ :=
      hstops.refused .sorted (.drop : Policy Int64) hes "x" hnot (.inl rfl) _
    cases hrefused with
    | kind _ e => exact ⟨e, hwhole⟩
    | beyond hillegible => exact absurd (hb.legible hd) hillegible
  · exact congrArg Logged.value (hstops.unchanged none w "s" .sorted .drop none hf)

/-- Where a number beyond the doubles stands instead of an array, the text is malformed to the
reader: that is no matter of kinds. -/
theorem ofJson_stops_beyond_doubles :
    let d : Document := .integer (Int.ofNat (Nat.pow 10 400))
    let text := '{' :: Document.writeMembers ([] ++ [("x", d)]) ++ ['\x7d']
    ¬ d.IsArrayOf Document.IsInt64 ∧
      StopsWith Int64 .sorted (.drop : Policy Int64) text [] .malformed ∧
      ¬ ∃ e, StopsWith Int64 .sorted (.drop : Policy Int64) text [] (.mismatch e) := by
  intro d text
  have hnot : ¬ d.IsArrayOf Document.IsInt64 := id
  have hillegible : ¬ d.Legible := by
    rw [Document.legible_integer_iff]
    decide +kernel
  have hmember : ∀ {b}, d.Culprit Document.IsInt64 b → b = d := by
    intro b hb
    change (Document.integer _).Culprit _ b at hb
    cases hb
    rfl
  obtain ⟨b, f, hb, hf, hstops⟩ := reads_int64.stopsAtMember.refused .sorted (.drop : Policy Int64)
    (fun _ he => absurd he List.not_mem_nil) "x" hnot (.inr rfl) []
  have hmalformed : f = .malformed := by
    rw [hmember hb] at hf
    cases hf with
    | kind hlegible e => exact absurd hlegible hillegible
    | beyond _ => rfl
  subst hmalformed
  refine ⟨hnot, hstops, ?_⟩
  rintro ⟨e, he⟩
  cases congrArg Logged.value (hstops.symm.trans he)

end Multimap
