import Multimap.Json.Codec
import Multimap.Proofs.Json.Decoding

/-!
# What values and maps are read from

For every type of values that is read as JSON, but doubles, the outcome of reading a plain document
is a function of the document (`DecodedValue.decode`). A map is the outcome of its members, one
after the other: the array of a member comes to a list of values offered, which are then accumulated
under the key that the member is named for (`enter`).

* `follows_string`, `follows_integer`: strings and integers of a range.
* `readMember_of_yields`, `yields_readMap`: an object whose names stand for keys is read member by
  member.
* **`ofJson_write`**: what comes of the text of a document.
-/

namespace Multimap

open Json

variable {α β : Type}

/-! ## Strings and integers -/

theorem ofScan_return (f : α → β) (scan : Scan α) :
    Reader.ofScan (do return f (← scan)) = f <$> Reader.ofScan scan := by
  funext text
  show ExceptT.mk (pure (scan text >>= fun r => pure (f r.1, r.2))) =
    (ExceptT.mk (pure (scan text)) : ExceptT Fault Logged (α × List Char)) >>= fun r =>
      pure (f r.1, r.2)
  cases scan text <;> rfl

theorem Json.Reader.Follows.ofScan_return {scan : Scan α} {decode : Document → Decoded α}
    (h : (Reader.ofScan scan).Follows decode) (f : α → β) :
    (Reader.ofScan (do return f (← scan))).Follows fun d => f <$> decode d := by
  intro d hd rest hr
  rw [Multimap.ofScan_return]
  exact Reader.map_leaving f (h hd hr)

/-- What comes of a document that is to be a string. -/
def decodeString : Document → Decoded String
  | .string s => pure s
  | d => throw (.kind d.found .string)

/-- What comes of a document that is to be an integer of the given range. -/
def decodeInteger (expected : Expected) (least greatest : Int) : Document → Decoded Int
  | .integer n =>
    if least ≤ n ∧ n ≤ greatest then pure n else throw (.range n expected)
  | d => throw (.kind d.found expected)

section

variable {expected : Expected} {least greatest n : Int}

theorem decodeInteger_of_mem (h : least ≤ n ∧ n ≤ greatest) :
    decodeInteger expected least greatest (.integer n) = pure n := if_pos h

theorem decodeInteger_of_not_mem (h : ¬ (least ≤ n ∧ n ≤ greatest)) :
    decodeInteger expected least greatest (.integer n) = throw (.range n expected) := if_neg h

end

theorem string_of_ne {c : Char} {text : List Char} (hb : isBlank c = false) (hc : c ≠ '"') :
    Reader.ofScan Reader.string (c :: text) =
      Reader.ofScan (Reader.refuse .string) (c :: text) := by
  unfold Reader.ofScan Reader.string
  rw [skipBlank_cons hb]
  split
  · next heq => exact absurd (List.cons.inj heq).1 hc
  · rfl

theorem follows_string : (Reader.ofScan Reader.string).Follows decodeString := by
  intro d hd
  by_cases hstring : ∃ s, d = .string s
  · obtain ⟨s, rfl⟩ := hstring
    intro rest _
    refine Reader.ofScan_ok ?_
    show Except.bind (scanString (s.toList.flatMap escape ++ ['"'] ++ rest)) _ = _
    rw [List.append_assoc, List.singleton_append, scanString_flatMap_escape]
    show Except.ok (String.ofList s.toList, rest) = _
    rw [String.ofList_toList]
  · have hdecode : decodeString d = throw (.kind d.found .string) := by
      cases d <;> first | rfl | exact absurd ⟨_, rfl⟩ hstring
    rw [hdecode]
    exact hd.yields_refused (fun hd => hstring (Document.eq_string_of_startsWith hd)) string_of_ne

theorem follows_integer (expected : Expected) (least greatest : Int) :
    (Reader.ofScan (Reader.integer expected least greatest)).Follows
      (decodeInteger expected least greatest) := by
  intro d hd rest hr
  obtain ⟨c, text, htext, -, hstarts⟩ := hd.write_opens rest
  have hskip := hd.skipBlank_write rest
  by_cases hinteger : ∃ n, d = .integer n
  · obtain ⟨n, rfl⟩ := hinteger
    cases hd with
    | integer hl hg =>
      have hnumber : Reader.number expected ((Document.integer n).write ++ rest) =
          .ok (.integer n, rest) := by
        unfold Reader.number
        rw [hskip, if_pos (by rw [htext]; exact hstarts)]
        exact scanNumber_ofInt hl hg hr
      by_cases hrange : least ≤ n ∧ n ≤ greatest
      · rw [decodeInteger_of_mem hrange]
        refine Reader.ofScan_ok ((scan_bind hnumber).trans ?_)
        rw [Number.toRange, if_pos hrange]
        rfl
      · rw [decodeInteger_of_not_mem hrange]
        refine Reader.ofScan_mismatch ((scan_bind hnumber).trans ?_)
        rw [Number.toRange, if_neg hrange]
        rfl
  · have hdecode : decodeInteger expected least greatest d = throw (.kind d.found expected) := by
      cases d <;> first | rfl | exact absurd ⟨_, rfl⟩ hinteger
    have hnumber : Reader.number expected (d.write ++ rest) =
        .error (.mismatch (.kind d.found expected)) := by
      unfold Reader.number
      rw [hskip, if_neg fun h => hinteger ?_]
      · exact hd.refuse_write hr expected
      · rw [htext] at h
        exact hd.eq_integer_of_startsWith hstarts h
    rw [hdecode]
    exact Reader.ofScan_mismatch (scan_bind_error hnumber)

/-- Types of values of which it is known what comes of a document. -/
class DecodedValue (V : Type) [JsonValue V] where
  /-- What comes of a document that is to be a value. -/
  decode : Document → Decoded V
  follows : (JsonValue.read : Reader V).Follows decode

instance : DecodedValue String where
  decode := decodeString
  follows := follows_string

instance : DecodedValue Int64 where
  decode d := Int64.ofInt <$> decodeInteger .int64 Int64.minValue.toInt Int64.maxValue.toInt d
  follows := (follows_integer _ _ _).ofScan_return _

instance : DecodedValue UInt8 where
  decode d := (fun n => UInt8.ofNat n.toNat) <$> decodeInteger .byte 0 255 d
  follows := (follows_integer _ _ _).ofScan_return _

/-! ## Members -/

/-- The name, written as a string, is taken for the key. -/
def Names {K : Type} [MemberName K] (name : String) (k : K) : Prop :=
  ∀ rest, MemberName.scanName (name.toList.flatMap escape ++ '"' :: rest) = .ok (k, rest)

theorem names_string (name : String) : Names name name := by
  intro rest
  refine (scan_bind (x := scanString) (f := fun characters => pure (String.ofList characters))
    (scanString_flatMap_escape name.toList rest)).trans ?_
  show Except.ok (String.ofList name.toList, rest) = _
  rw [String.ofList_toList]

/-- The text of a member. -/
def writeMember (p : String × Document) : List Char := writeString p.1 ++ ':' :: p.2.write

theorem writeMembers_map {ι : Type} (member : ι → String × Document) : ∀ is : List ι,
    Document.writeMembers (is.map member) = separated (fun i => writeMember (member i)) is
  | [] => rfl
  | [_] => (List.append_nil _).symm
  | i :: j :: is =>
    congrArg (fun text => writeMember (member i) ++ ',' :: text) (writeMembers_map member (j :: is))

variable {K V P : Type} [Ord K] [AbsencePolicy P V]

/-- The map with the values of a member, once they are all there, accumulated under its key. -/
def enter (m : Multimap K V P) (k : K) (offered : Decoded (List (Option V))) :
    Decoded (Multimap K V P) := do
  ExceptT.lift (m.accumulate k (← offered))

variable [MemberName K] [JsonValue V]

/-- A member is read if its array is: its values are entered. -/
theorem readMember_of_yields {p : String × Document} {k : K} {offered : Decoded (List (Option V))}
    (hp : (Reader.sequence JsonValue.read).Yields p.2 offered) (hk : Names p.1 k)
    (m : Multimap K V P) {rest : List Char} (hr : Ends rest) :
    readMember m (writeMember p ++ rest) = (m.enter k offered).leaving rest := by
  have htext : writeMember p ++ rest =
      '"' :: (p.1.toList.flatMap escape ++ '"' :: ':' :: (p.2.write ++ rest)) := by
    simp [writeMember, writeString]
  have hname : (Reader.ofScan readName : Reader K) (writeMember p ++ rest) =
      (pure k : Decoded K).leaving (':' :: (p.2.write ++ rest)) := by
    rw [htext]
    exact Reader.ofScan_ok (hk _)
  have hcolon : Reader.ofScan Reader.skipColon (':' :: (p.2.write ++ rest)) =
      (pure () : Decoded Unit).leaving (p.2.write ++ rest) :=
    Reader.ofScan_ok (scanWord_append [':'] _)
  refine Reader.bind_leaving (f := fun k => m.enter k offered) hname fun k => ?_
  refine Reader.bind_leaving (f := fun _ => m.enter k offered) hcolon fun _ => ?_
  exact Reader.bind_leaving (hp hr) fun offered => Reader.ofLogged_leaving _

/-! ## Objects -/

/-- **An object** whose names stand for keys is read member by member. -/
theorem yields_readMap {ι : Type} {is : List ι} {member : ι → String × Document} {key : ι → K}
    {offered : ι → Decoded (List (Option V))}
    (his : ∀ i ∈ is, (Reader.sequence JsonValue.read).Yields (member i).2 (offered i) ∧
      Names (member i).1 (key i)) (m : Multimap K V P) :
    (readMap m).Yields (.object (is.map member))
      (is.foldlM (fun m i => m.enter (key i) (offered i)) m) := by
  intro rest _
  have hitem : ∀ i ∈ is, Item readMember (fun i => writeMember (member i))
      (fun (m : Multimap K V P) i => m.enter (key i) (offered i)) i :=
    fun i hi => ⟨⟨'"', _, rfl, ⟨rfl, by decide, by decide⟩⟩,
      fun m _ hr => readMember_of_yields (his i hi).1 (his i hi).2 m hr⟩
  show Reader.foldItems '}' readMember true m
    (Document.writeMembers (is.map member) ++ ['}'] ++ rest) = _
  rw [writeMembers_map, List.append_assoc]
  exact foldItems_separated (.inr rfl) hitem m rest

variable [DecodedValue V]

/-- What comes of the array of a member. -/
def decodeValues (V : Type) [JsonValue V] [DecodedValue V] (d : Document) :
    Decoded (List (Option V)) :=
  decodeSequence DecodedValue.decode d

theorem yields_values {d : Document} (hd : d.Plain) :
    (Reader.sequence (JsonValue.read : Reader V)).Yields d (decodeValues V d) :=
  DecodedValue.follows.sequence hd

theorem readMember_write {p : String × Document} {k : K} (hp : p.2.Plain) (hk : Names p.1 k)
    (m : Multimap K V P) {rest : List Char} (hr : Ends rest) :
    readMember m (writeMember p ++ rest) = (m.enter k (decodeValues V p.2)).leaving rest :=
  readMember_of_yields (yields_values hp) hk m hr

variable {m : Multimap String V P}

/-- What comes of a document whose members are to be added to a map from text. -/
def decodeMap (m : Multimap String V P) : Document → Decoded (Multimap String V P)
  | .object members => members.foldlM (fun m p => m.enter p.1 (decodeValues V p.2)) m
  | d => throw (.kind d.found .map)

omit [DecodedValue V] in
theorem readMap_of_ne {c : Char} {text : List Char} (hb : isBlank c = false) (hc : c ≠ '{') :
    readMap m (c :: text) = Reader.ofScan (Reader.refuse .map) (c :: text) := by
  unfold readMap Reader.object
  rw [skipBlank_cons hb]
  split
  · next heq => exact absurd (List.cons.inj heq).1 hc
  · rfl

theorem follows_readMap (m : Multimap String V P) : (readMap m).Follows (decodeMap m) := by
  intro d hd
  by_cases hobject : ∃ members, d = .object members
  · obtain ⟨members, rfl⟩ := hobject
    cases hd with
    | object hmembers =>
      have hread : (readMap m).Yields (.object (members.map id)) _ :=
        yields_readMap (fun p hp => ⟨yields_values (hmembers p hp), names_string p.1⟩) m
      rw [List.map_id] at hread
      exact hread
  · have hdecode : decodeMap m d = throw (.kind d.found .map) := by
      cases d <;> first | rfl | exact absurd ⟨_, rfl⟩ hobject
    rw [hdecode]
    exact hd.yields_refused (fun hd => hobject (Document.eq_object_of_startsWith hd)) readMap_of_ne

/-- Maps as values: what comes of their documents is known when it is for their own values. -/
instance [Inhabited P] : DecodedValue (Multimap String V P) where
  decode := decodeMap default
  follows := follows_readMap default

/-! ## Whole texts -/

/-- **What comes of the text of a document**: what comes of the document. -/
theorem ofJson_write {d : Document} (hd : d.Plain) (a : Arrangement) (p : P) :
    (ofJson a p (String.ofList d.write) : Logged (Except Fault (Multimap String V P))) =
      (·.mapError .mismatch) <$> (decodeMap (empty a p) d).run := by
  unfold ofJson
  rw [String.toList_ofList]
  exact whole_write (follows_readMap _ hd)

end Multimap
