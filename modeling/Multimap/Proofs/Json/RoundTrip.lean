import Multimap.Proofs.Bulk
import Multimap.Proofs.Comparison
import Multimap.Proofs.Json.Values

/-!
# Maps come back from their JSON text

The text of a map, read over any arrangement and under any policy, is a copy of the map: the same
keys in their spellings with the same sequences (`Copy`). It does not matter in which order the
entries are written, so nothing hangs on the order that an unordered store happens to have. No value
in the text is absent, so the policy is asked nothing.

* `Named`: keys of which the name is taken for the key.
* `Faithful`: values that their documents come to.
* `foldlM_enter`: members with distinct keys are read as if their sequences were written.
* `copy_insertAll`: an empty map filled with the entries of a map is a copy of it.
* `ofJson_entriesText?`: what the text of entries is read as.
* **`json_roundTrips`**: for keys that are text, text without case or integers, and for values that
  are text, integers or maps from text to integers, the text of a map is read as a copy.
-/

namespace Multimap

open Json

variable {α β K V P Q : Type}

/-! ## Names -/

/-- The key has a name, which is taken for the key. -/
def Named [MemberName K] (k : K) : Prop := ∃ name, MemberName.name? k = some name ∧ Names name k

theorem named_string (s : String) : Named s := ⟨s, rfl, names_string s⟩

theorem named_caselessText (t : CaselessText) : Named t :=
  ⟨t.spelling, rfl, fun rest => scan_map CaselessText.mk (names_string t.spelling rest)⟩

/-- The digits of an integer of the range are taken for the integer. -/
theorem scanInteger_ofInt {n : Int} (expected : Expected) {least greatest : Int}
    (hl : leastInteger ≤ n) (hg : n ≤ greatestInteger) (h : least ≤ n ∧ n ≤ greatest)
    (rest : List Char) :
    MemberName.scanInteger expected least greatest
      ((String.ofList (Decimal.ofInt n)).toList.flatMap escape ++ '"' :: rest) = .ok (n, rest) := by
  have hends : Ends ('"' :: rest) := .cons rfl (by decide) (by decide) (by decide)
  have hnumber := scanNumber_ofInt hl hg hends
  obtain ⟨c, text, htext, hc⟩ := startsNumber_ofInt n ('"' :: rest)
  rw [String.toList_ofList, flatMap_escape_ofInt]
  unfold MemberName.scanInteger
  rw [if_pos (by rw [htext]; exact hc), hnumber]
  simp only [bind, Except.bind, Number.toRange, if_pos h]
  rfl

/-- An `Int64` is within the range of integers. -/
theorem Json.toInt_mem_range (n : Int64) : leastInteger ≤ n.toInt ∧ n.toInt ≤ greatestInteger :=
  ⟨n.le_toInt, Int.le_trans n.toInt_le (by decide)⟩

theorem Json.toNat_mem_range (n : UInt8) : (0 : Int) ≤ n.toNat ∧ (n.toNat : Int) ≤ 255 := by
  have := n.toNat_lt
  omega

theorem named_int64 (n : Int64) : Named n := by
  obtain ⟨hl, hg⟩ := toInt_mem_range n
  refine ⟨_, rfl, fun rest => ?_⟩
  have hscan := scanInteger_ofInt .int64 hl hg ⟨n.minValue_le_toInt, n.toInt_le⟩ rest
  refine (scan_map Int64.ofInt hscan).trans ?_
  rw [Int64.ofInt_toInt]

theorem named_uint8 (n : UInt8) : Named n := by
  obtain ⟨hl, hg⟩ := toNat_mem_range n
  refine ⟨_, rfl, fun rest => ?_⟩
  have hscan := scanInteger_ofInt .byte (Int.le_trans (by decide) hl) (Int.le_trans hg (by decide))
    ⟨hl, hg⟩ rest
  refine (scan_map (fun n => UInt8.ofNat n.toNat) hscan).trans ?_
  rw [Int.toNat_natCast, UInt8.ofNat_toNat]

/-! ## Values -/

/-- The value has a document, other than `null`, which comes to the value. -/
def Faithful [JsonValue V] [DecodedValue V] (v : V) : Prop :=
  ∃ d, JsonValue.document? v = some d ∧ d.Plain ∧ d ≠ .null ∧ DecodedValue.decode d = pure v

theorem faithful_string (s : String) : Faithful s :=
  ⟨_, rfl, .string s, Document.noConfusion, rfl⟩

theorem faithful_int64 (n : Int64) : Faithful n := by
  obtain ⟨hl, hg⟩ := toInt_mem_range n
  refine ⟨_, rfl, .integer hl hg, Document.noConfusion, ?_⟩
  show Int64.ofInt <$> decodeInteger _ _ _ (.integer n.toInt) = pure n
  rw [decodeInteger_of_mem ⟨n.minValue_le_toInt, n.toInt_le⟩, map_pure, Int64.ofInt_toInt]

theorem faithful_uint8 (n : UInt8) : Faithful n := by
  obtain ⟨hl, hg⟩ := toNat_mem_range n
  refine ⟨_, rfl, .integer (Int.le_trans (by decide) hl) (Int.le_trans hg (by decide)),
    Document.noConfusion, ?_⟩
  show (fun n => UInt8.ofNat n.toNat) <$> decodeInteger _ _ _ (.integer n.toNat) = pure n
  rw [decodeInteger_of_mem ⟨hl, hg⟩, map_pure, Int.toNat_natCast, UInt8.ofNat_toNat]

/-! ## Writing entries anew -/

section

variable [Ord K]

/-- **Members with distinct keys** are read as if their sequences were written. -/
theorem foldlM_enter [Std.TransOrd K] [AbsencePolicy P V]
    {step : Multimap K V P → Entry K V → Decoded (Multimap K V P)} {es : List (Entry K V)}
    {m : Multimap K V P}
    (hstep : ∀ e ∈ es, ∀ m : Multimap K V P, step m e = m.enter e.1 (pure (e.2.map some)))
    (hnew : m.store.NewIn es) : es.foldlM step m = pure (m.insertAll es) := by
  induction es generalizing m with
  | nil => rfl
  | cons e es ih =>
    obtain ⟨he, hes⟩ := List.forall_mem_cons.mp hstep
    have hget := hnew.get?_eq_none e List.mem_cons_self
    rw [List.foldlM_cons, he]
    unfold enter
    rw [pure_bind, accumulate_map_some hget]
    exact ih hes hnew.tail

theorem listing_perm (m : Multimap K V P) : m.listing.Perm m.store.entries :=
  m.store.listing_perm

end

/-! ## Entries and members -/

section

variable [MemberName K] [JsonValue V] [DecodedValue V]

/-- Faithful values come back from their array. -/
theorem faithful_values {vs : List V} (h : ∀ v ∈ vs, Faithful v) :
    ∃ docs, vs.mapM JsonValue.document? = some docs ∧ (∀ d ∈ docs, d.Plain) ∧
      docs.mapM (decodeOptional DecodedValue.decode) = (pure (vs.map some) : Decoded _) := by
  induction vs with
  | nil => exact ⟨[], rfl, fun _ hd => absurd hd List.not_mem_nil, rfl⟩
  | cons v vs ih =>
    obtain ⟨⟨d, hd, hplain, hnull, hdecode⟩, hvs⟩ := List.forall_mem_cons.mp h
    obtain ⟨docs, hdocs, hplains, hdecodes⟩ := ih hvs
    have hoptional : decodeOptional DecodedValue.decode d =
        (pure (some v) : Decoded (Option V)) := by
      cases d <;> first | exact absurd rfl hnull | exact congrArg (some <$> ·) hdecode
    refine ⟨d :: docs, ?_, List.forall_mem_cons.mpr ⟨hplain, hplains⟩, ?_⟩
    · rw [List.mapM_cons, hd, hdocs]
      rfl
    · rw [List.mapM_cons, hoptional, hdecodes]
      rfl

/-- The member of an entry that has one. -/
def memberOf (e : Entry K V) : String × Document := (member? e).getD ("", .null)

/-- The entry has a member, a name and an array, which comes to the entry. -/
structure Stands (e : Entry K V) : Prop where
  member?_eq : member? e = some (memberOf e)
  names : Names (memberOf e).1 e.1
  plain : (memberOf e).2.Plain
  decode_eq : decodeValues V (memberOf e).2 = pure (e.2.map some)

theorem stands_of_faithful {e : Entry K V} (hk : Named e.1) (hvs : ∀ v ∈ e.2, Faithful v) :
    Stands e := by
  obtain ⟨name, hname, hnames⟩ := hk
  obtain ⟨docs, hdocs, hplains, hdecodes⟩ := faithful_values hvs
  have hmember? : member? e = some (name, .array docs) := by
    unfold member?
    rw [hname, hdocs]
    rfl
  have hmember : memberOf e = (name, .array docs) := by
    unfold memberOf
    rw [hmember?]
    rfl
  constructor
  · rw [hmember?, hmember]
  · rw [hmember]
    exact hnames
  · rw [hmember]
    exact .array hplains
  · rw [hmember]
    exact hdecodes

variable {es : List (Entry K V)}

theorem mapM_member? (h : ∀ e ∈ es, Stands e) : es.mapM member? = some (es.map memberOf) := by
  induction es with
  | nil => rfl
  | cons e es ih =>
    obtain ⟨he, hes⟩ := List.forall_mem_cons.mp h
    rw [List.mapM_cons, he.member?_eq, ih hes]
    rfl

theorem plain_members (h : ∀ e ∈ es, Stands e) : (Document.object (es.map memberOf)).Plain := by
  refine .object fun p hp => ?_
  obtain ⟨e, he, rfl⟩ := List.mem_map.mp hp
  exact (h e he).plain

theorem document?_eq [Ord K] {m : Multimap K V P} (h : ∀ e ∈ m.listing, Stands e) :
    m.document? = some (.object (m.listing.map memberOf)) := by
  unfold document?
  rw [mapM_member? h]
  rfl

end

/-! ## Maps as values -/

theorem Names.eq_string {name s : String} (h : Names name s) : name = s := by
  have hscan := (names_string name []).symm.trans (h [])
  exact congrArg Prod.fst (Except.ok.inj hscan)

/-- **A map is a faithful value** when its values are, in order of arrival and under the policy that
maps are read under. -/
theorem faithful_map [JsonValue V] [DecodedValue V] [AbsencePolicy P V] [Inhabited P]
    {m : Multimap String V P} (hm : m.store.LaidOut .arrival) (hp : m.policy = default)
    (hvs : ∀ e ∈ m.store.entries, ∀ v ∈ e.2, Faithful v) : Faithful m := by
  have hlisting : m.listing = m.store.entries :=
    Store.listing_eq (by rw [hm.arrangement_eq]; exact Arrangement.noConfusion)
  have hstands : ∀ e ∈ m.listing, Stands e := by
    rw [hlisting]
    exact fun e he => stands_of_faithful (named_string e.1) (hvs e he)
  have hnew : (empty .arrival (default : P) : Multimap String V P).store.NewIn m.listing :=
    .empty (Store.distinct_of_perm m.listing_perm hm.distinct)
  refine ⟨_, document?_eq hstands, plain_members hstands, Document.noConfusion, ?_⟩
  show (m.listing.map memberOf).foldlM _ (empty .arrival default) = _
  rw [List.foldlM_map, foldlM_enter _ hnew, insertAll_eq]
  · have hstore : (Store.empty .arrival).insertAll m.listing = m.store := by
      refine Store.eq_of_entries ?_ ?_
      · exact ((Store.LaidOut.empty _).insertAll _).arrangement_eq.trans hm.arrangement_eq.symm
      · exact (hnew.insertAll_eq rfl).trans hlisting
    show (pure ⟨(Store.empty .arrival).insertAll m.listing, default⟩ : Decoded _) = pure m
    rw [hstore, ← hp]
  · intro e he n
    rw [(hstands e he).names.eq_string, (hstands e he).decode_eq]

/-! ## Copies -/

section

variable [Ord K] [Std.TransOrd K] [BEq V] {m : Multimap K V P}

/-- The map `n`, over the arrangement `a` and under the policy `q`, is a copy of `m`, made of its
entries in the order `es`. -/
structure Copy (a : Arrangement) (q : Q) (m : Multimap K V P) (es : List (Entry K V))
    (n : Multimap K V Q) : Prop where
  policy_eq : n.policy = q
  laidOut : n.store.LaidOut a
  /-- The same keys in the same spellings with the same sequences. -/
  entries : n.store.entries.Perm m.store.entries
  get?_eq : ∀ k, n.get? k = m.get? k
  equal : m.equal n = true
  equal_symm : n.equal m = true
  /-- In order of arrival, the entries come as they are written. -/
  arrival : a = .arrival → n.store.entries = es
  sorted : a = .sorted → n.store.entries = Store.byKey m.store.entries

/-- Filling an empty map with the entries of a map, in whatever order, makes a copy of it. -/
theorem copy_insertAll {es : List (Entry K V)} (hm : m.store.WellFormed)
    (hes : es.Perm m.store.entries) (hvs : ∀ e ∈ m.store.entries, ∀ v ∈ e.2, (v == v) = true)
    (a : Arrangement) (q : Q) : Copy a q m es ((empty a q).insertAll es) := by
  have halike : Store.Alike a m.store.arrangement (.ofEntries a es) m.store :=
    (hm.alike_ofEntries hes a).symm
  rw [insertAll_eq]
  refine ⟨rfl, halike.left, halike.entries, halike.get?_eq,
    (equal_iff_of_alike halike.symm).mpr hvs,
    (equal_iff_of_alike halike).mpr fun e he => hvs e (halike.entries.mem_iff.mp he),
    fun ha => ?_, fun ha => ?_⟩
  · subst ha
    exact Store.NewIn.insertAll_eq (.empty (Store.distinct_of_perm hes hm.distinct)) rfl
  · subst ha
    exact halike.left.entries_eq_byKey halike.entries.symm

end

/-! ## Round trips -/

/-- The text of entries in the order in which they are written, if all their keys have names. -/
def entriesText? [MemberName K] [JsonValue V] (es : List (Entry K V)) : Option String :=
  (es.mapM member?).map fun members => String.ofList (Document.object members).write

section

variable [Ord K] [Std.TransOrd K] [MemberName K] [JsonValue V] [DecodedValue V]

omit [Std.TransOrd K] [DecodedValue V] in
/-- The text of a map is that of its listing. -/
theorem toJson?_eq_entriesText? (m : Multimap K V P) : m.toJson? = entriesText? m.listing := by
  unfold toJson? document? entriesText?
  cases m.listing.mapM member? <;> rfl

/-- **What the text of entries is read as**: the entries, written one after the other. -/
theorem ofJson_entriesText? [AbsencePolicy Q V] (hK : ∀ k : K, Named k) {es : List (Entry K V)}
    (hd : es.Pairwise fun e e' => ¬ SameKey e.1 e'.1) (hvs : ∀ e ∈ es, ∀ v ∈ e.2, Faithful v)
    (a : Arrangement) (q : Q) :
    ∃ text, entriesText? es = some text ∧
      ofJson a q text = pure (.ok ((empty a q).insertAll es)) := by
  have hstands : ∀ e ∈ es, Stands e := fun e he => stands_of_faithful (hK e.1) (hvs e he)
  have hnew : (empty a q : Multimap K V Q).store.NewIn es := .empty hd
  have hread : (readMap (empty a q : Multimap K V Q)).Yields (.object (es.map memberOf))
      (es.foldlM (fun n e => n.enter e.1 (decodeValues V (memberOf e).2)) (empty a q)) :=
    yields_readMap (fun e he => ⟨yields_values (hstands e he).plain, (hstands e he).names⟩) _
  refine ⟨_, congrArg (Option.map _) (mapM_member? hstands), ?_⟩
  unfold ofJson
  rw [String.toList_ofList, whole_write hread, foldlM_enter _ hnew]
  · rfl
  · intro e he n
    rw [(hstands e he).decode_eq]

/-- The text of every well-formed map with proper values is read back, over any arrangement and
under any policy, as a copy of the map, and nothing is logged; and so is the text of its entries in
any other order. Every map that calls lead to is well-formed (`wellFormed_runCalls`). -/
def RoundTrips (K V : Type) [Ord K] [MemberName K] [JsonValue V] [BEq V] (Proper : V → Prop) :
    Prop :=
  ∀ {P Q : Type} [AbsencePolicy Q V] (m : Multimap K V P) (a : Arrangement) (q : Q),
    m.store.WellFormed → (∀ e ∈ m.store.entries, ∀ v ∈ e.2, Proper v) →
      (∃ text n, m.toJson? = some text ∧ ofJson a q text = pure (.ok n) ∧
        Copy a q m m.listing n) ∧
      ∀ es : List (Entry K V), es.Perm m.store.entries →
        ∃ text n, entriesText? es = some text ∧ ofJson a q text = pure (.ok n) ∧ Copy a q m es n

theorem RoundTrips.of_faithful [BEq V] {Proper : V → Prop} (hK : ∀ k : K, Named k)
    (hfaithful : ∀ v, Proper v → Faithful v) (hself : ∀ v, Proper v → (v == v) = true) :
    RoundTrips K V Proper := by
  intro P Q _ m a q hm hvs
  have hany : ∀ es : List (Entry K V), es.Perm m.store.entries →
      ∃ text n, entriesText? es = some text ∧ ofJson a q text = pure (.ok n) ∧ Copy a q m es n := by
    intro es hes
    obtain ⟨text, htext, hread⟩ := ofJson_entriesText? hK (Store.distinct_of_perm hes hm.distinct)
      (fun e he v hv => hfaithful v (hvs e (hes.mem_iff.mp he) v hv)) a q
    exact ⟨text, _, htext, hread,
      copy_insertAll hm hes (fun e he v hv => hself v (hvs e he v hv)) a q⟩
  refine ⟨?_, hany⟩
  rw [toJson?_eq_entriesText?]
  exact hany m.listing m.listing_perm

end

/-- For keys of type `K`: the values are text, integers, or maps from text to integers in order of
arrival. -/
structure RoundTripsFrom (K : Type) [Ord K] [MemberName K] : Prop where
  string : RoundTrips K String fun _ => True
  int64 : RoundTrips K Int64 fun _ => True
  uint8 : RoundTrips K UInt8 fun _ => True
  map : RoundTrips K (Multimap String Int64 DropAbsent) fun v => v.store.LaidOut .arrival

theorem roundTripsFrom_of_named [Ord K] [Std.TransOrd K] [MemberName K] (hK : ∀ k : K, Named k) :
    RoundTripsFrom K where
  string := RoundTrips.of_faithful hK (fun s _ => faithful_string s) fun _ _ => beq_self_eq_true _
  int64 := RoundTrips.of_faithful hK (fun n _ => faithful_int64 n) fun _ _ => beq_self_eq_true _
  uint8 := RoundTrips.of_faithful hK (fun n _ => faithful_uint8 n) fun _ _ => beq_self_eq_true _
  map := by
    refine RoundTrips.of_faithful hK (fun v hv => ?_) fun v hv => ?_
    · exact faithful_map hv rfl fun _ _ n _ => faithful_int64 n
    · exact (equal_iff_of_alike (.refl hv)).mpr fun _ _ n _ => beq_self_eq_true n

/-- **Maps come back from their JSON text**, whether their keys are text, text without case or
integers, and whether their values are text, integers or maps. -/
theorem json_roundTrips :
    RoundTripsFrom String ∧ RoundTripsFrom CaselessText ∧ RoundTripsFrom Int64 ∧
      RoundTripsFrom UInt8 :=
  ⟨roundTripsFrom_of_named named_string, roundTripsFrom_of_named named_caselessText,
    roundTripsFrom_of_named named_int64, roundTripsFrom_of_named named_uint8⟩

/-- A quotation mark, a negative key and a key without values, read into order of arrival: from the
text of the map, and from that of its entries the other way round. -/
theorem json_roundTrips_int64 :
    let m : Multimap Int64 String DropAbsent := ⟨⟨.unordered, [(7, []), (-1, ["a\""])]⟩, ⟨⟩⟩
    m.store.WellFormed ∧
      (∃ text, ∃ n : Multimap Int64 String (Policy String),
        m.toJson? = some text ∧ ofJson .arrival .wipe text = pure (.ok n) ∧
          n.policy = .wipe ∧ n.store.entries = [(-1, ["a\""]), (7, [])]) ∧
      ∃ text, ∃ n : Multimap Int64 String (Policy String),
        entriesText? m.store.entries = some text ∧ ofJson .arrival .wipe text = pure (.ok n) ∧
          n.policy = .wipe ∧ n.store.entries = [(7, []), (-1, ["a\""])] := by
  intro m
  have hm : m.store.WellFormed := ⟨by decide, by decide⟩
  obtain ⟨⟨text, n, htext, hread, hcopy⟩, hany⟩ :=
    json_roundTrips.2.2.1.string m .arrival (Policy.wipe : Policy String) hm
      fun _ _ _ _ => trivial
  obtain ⟨text', n', htext', hread', hcopy'⟩ := hany m.store.entries (.refl _)
  have hlaid : Store.LaidOut .sorted (⟨.sorted, [(-1, ["a\""]), (7, [])]⟩ : Store Int64 String) :=
    ⟨⟨by decide, by decide⟩, rfl⟩
  have hlisting : m.listing = [(-1, ["a\""]), (7, [])] :=
    (hlaid.entries_eq_byKey (.swap _ _ _)).symm
  exact ⟨hm, ⟨text, n, htext, hread, hcopy.policy_eq, (hcopy.arrival rfl).trans hlisting⟩,
    text', n', htext', hread', hcopy'.policy_eq, hcopy'.arrival rfl⟩

end Multimap
