import Multimap.Proofs.Json.Legible
import Multimap.Proofs.Json.RoundTrip
import Multimap.Proofs.Offering

/-!
# Maps of doubles and their JSON text

A double that is not finite is written as `null`, and `null` is read as an absent value. So a map
of doubles comes back from its text with all its keys, but it is up to the policy that it is read
under what stands for the values that are not finite. The finite ones come back as what their texts
are read as, which need not be the same to the last digit.

* `yields_real`: a double that is read from its text is read from any text that it stands in.
* `yields_doubles`: the array of a sequence is read as what is offered for it (`reread`).
* `ofJson_doublesText`: what comes of the text of entries of doubles.
* **`doubles_read_again`**: the keys, the sequences, the policy and the log afterwards.
-/

namespace Multimap

open Json

/-! ## One double -/

/-- What the text of a double is read as, if it is. -/
def reread? (x : Float) : Option Float :=
  (Reader.whole (JsonValue.read : Reader Float) (Document.real x).write).value.toOption

/-- A double starts with a character that no absent value starts with. -/
theorem real_opens (x : Float) (rest : List Char) :
    ∃ c text, (Document.real x).write ++ rest = c :: text ∧ Opens c ∧ c ≠ 'n' := by
  obtain ⟨c, text, htext, hopens, hstarts⟩ := (Document.real x).write_opens rest
  refine ⟨c, text, htext, hopens, ?_⟩
  rintro rfl
  cases hstarts .null rfl

theorem number_of_scanNumber {expected : Expected} {text rest : List Char} {v : Number}
    (h : scanNumber text = .ok (v, rest)) : Reader.number expected text = .ok (v, rest) := by
  obtain ⟨c, start, rfl, hc⟩ := startsNumber_of_scanNumber h
  unfold Reader.number
  rw [skipBlank_cons (opens_of_startsNumber hc).isBlank_eq]
  exact (if_pos hc).trans h

theorem scanNumber_of_number {expected : Expected} {x : Float} {r : Number × List Char}
    (h : Reader.number expected (Document.real x).write = .ok r) :
    scanNumber (Document.real x).write = .ok r := by
  obtain ⟨c, text, htext, hopens, -⟩ := real_opens x []
  rw [List.append_nil] at htext
  unfold Reader.number at h
  rw [htext, skipBlank_cons hopens.isBlank_eq] at h
  rw [htext]
  by_cases hc : Reader.startsNumber c = true
  · exact (if_pos hc).symm.trans h
  · exact absurd ((if_neg hc).symm.trans h) (refuse_ne_ok expected _ _)

/-- A text that is a number is read as the double nearest to it. -/
theorem read_of_number {text rest : List Char} {v : Number}
    (h : Reader.number .double text = .ok (v, rest)) :
    (JsonValue.read : Reader Float) text = (pure v.toFloat : Decoded Float).leaving rest :=
  Reader.ofScan_ok (scan_bind h)

theorem exists_number_of_reread? {x y : Float} (h : reread? x = some y) :
    ∃ r, Reader.number .double (Document.real x).write = .ok r := by
  cases hnumber : Reader.number .double (Document.real x).write with
  | ok r => exact ⟨r, rfl⟩
  | error f =>
    have hread : (JsonValue.read : Reader Float) (Document.real x).write = throw f := by
      show ExceptT.mk (pure (Except.bind (Reader.number .double (Document.real x).write) _)) = _
      rw [hnumber]
      rfl
    unfold reread? Reader.whole at h
    rw [hread] at h
    cases h

/-- A double that is read from its text is a number there, and nothing of the text is left. -/
theorem exists_of_reread? {x y : Float} (h : reread? x = some y) :
    ∃ v : Number, v.toFloat = y ∧ ∀ ⦃rest⦄, Ends rest →
      scanNumber ((Document.real x).write ++ rest) = .ok (v, rest) := by
  obtain ⟨r, hr⟩ := exists_number_of_reread? h
  obtain ⟨v, hv⟩ := takes_real x
  have hscan := hv Ends.nil
  rw [List.append_nil, scanNumber_of_number hr] at hscan
  cases v with
  | error e => cases hscan
  | ok v =>
    cases hscan
    unfold reread? Reader.whole at h
    rw [read_of_number hr] at h
    exact ⟨v, Option.some.inj h, hv⟩

/-- **A double that is read from its text** is read from any text that it stands in. -/
theorem yields_real {x y : Float} (h : reread? x = some y) :
    (JsonValue.read : Reader Float).Yields (.real x) (pure y) := by
  obtain ⟨v, rfl, hv⟩ := exists_of_reread? h
  exact fun rest hr => read_of_number (number_of_scanNumber (hv hr))

/-! ## Sequences -/

/-- The document of a double. -/
def doubleDocument (x : Float) : Document := if x.isFinite then .real x else .null

/-- What is offered in the place of a double when its text is read, if `r` says what doubles are
read as. -/
def reread (r : Float → Float) (x : Float) : Option Float :=
  if x.isFinite then some (r x) else none

variable {r : Float → Float}

theorem yields_double {x : Float} (hr : x.isFinite = true → reread? x = some (r x)) :
    (Reader.optional JsonValue.read).Yields (doubleDocument x) (pure (reread r x)) := by
  unfold doubleDocument reread
  by_cases hx : x.isFinite = true
  · rw [if_pos hx, if_pos hx]
    intro rest hrest
    have hread := Reader.map_leaving some (yields_real (hr hx) hrest)
    obtain ⟨c, text, htext, hopens, hne⟩ := real_opens x rest
    rw [htext] at hread ⊢
    rw [Reader.optional_of_ne hopens.isBlank_eq hne, hread]
    rfl
  · rw [if_neg hx, if_neg hx]
    exact Reader.yields_null

/-- **The array of a sequence** is read as what is offered in the place of its values. -/
theorem yields_doubles {vs : List Float}
    (hr : ∀ x ∈ vs, x.isFinite = true → reread? x = some (r x)) :
    (Reader.sequence JsonValue.read).Yields (.array (vs.map doubleDocument))
      (pure (vs.map (reread r))) := by
  have hread : (Reader.sequence JsonValue.read).Yields (.array (vs.map doubleDocument))
      (vs.mapM fun x => pure (reread r x)) := by
    refine Reader.yields_array fun x hx => ⟨?_, yields_double (hr x hx)⟩
    obtain ⟨c, text, htext, hopens, -⟩ := (doubleDocument x).write_opens []
    exact ⟨c, text, (List.append_nil _).symm.trans htext, hopens⟩
  rwa [List.mapM_pure] at hread

/-! ## Maps -/

/-- The member of an entry. -/
def doubleMember (e : Entry String Float) : String × Document :=
  (e.1, .array (e.2.map doubleDocument))

theorem member?_double (e : Entry String Float) : member? e = some (doubleMember e) := by
  have hvalues : e.2.mapM JsonValue.document? = some (e.2.map doubleDocument) := List.mapM_pure
  unfold member?
  rw [hvalues]
  rfl

/-- What is offered in the place of an entry when its text is read. -/
def rereadEntry (r : Float → Float) (e : Entry String Float) : Offers String Float :=
  (e.1, e.2.map (reread r))

variable {P Q : Type} [AbsencePolicy Q Float] {m : Multimap String Float P}
  {es : List (Entry String Float)}

/-- The text of entries. -/
def doublesText (es : List (Entry String Float)) : String :=
  .ofList (Document.object (es.map doubleMember)).write

theorem toJson?_doubles (m : Multimap String Float P) :
    m.toJson? = some (doublesText m.listing) := by
  have hmembers : m.listing.mapM member? = some (m.listing.map doubleMember) := by
    rw [funext member?_double]
    exact List.mapM_pure
  unfold toJson? document?
  rw [hmembers]
  rfl

/-- **What comes of the text of entries of doubles**: they themselves, with what is made of what is
offered in the place of their values. -/
theorem ofJson_doublesText (hd : es.Pairwise fun e e' => ¬ SameKey e.1 e'.1)
    (hr : ∀ e ∈ es, ∀ x ∈ e.2, x.isFinite = true → reread? x = some (r x))
    (a : Arrangement) (q : Q) :
    ofJson a q (doublesText es) =
      Except.ok <$> ((fun s => (⟨.ofEntries a s.2, s.1⟩ : Multimap String Float Q)) <$>
        supplyEntries q (es.map (rereadEntry r))) := by
  have hread : (readMap (empty a q)).Yields (.object (es.map doubleMember))
      (es.foldlM (fun n e => n.enter e.1 (pure (e.2.map (reread r)))) (empty a q)) :=
    yields_readMap (fun e he => ⟨yields_doubles (hr e he), names_string e.1⟩) _
  have hnew : (es.map (rereadEntry r)).Pairwise fun e e' => ¬ SameKey e.1 e'.1 :=
    List.pairwise_map.mpr hd
  have haccumulate := foldlM_accumulate (m := empty a q) hnew fun _ _ => rfl
  rw [List.foldlM_map] at haccumulate
  have henter : ∀ (n : Multimap String Float Q) (e : Entry String Float),
      n.enter e.1 (pure (e.2.map (reread r))) =
        ExceptT.lift (n.accumulate e.1 (e.2.map (reread r))) :=
    fun n e => pure_bind _ _
  simp only [henter, Decoded.foldlM_lift] at hread
  unfold ofJson doublesText
  rw [String.toList_ofList, whole_write hread]
  refine Eq.trans ?_ (congrArg (Except.ok <$> ·) haccumulate)
  show _ <$> (Except.ok <$> _) = _
  rw [← comp_map]
  rfl

/-! ## What is lost -/

/-- For each of the values that are not finite, in order, how many there are before it that are: `n`
before the first value. -/
def finiteBefore (n : Nat) : List Float → List Nat
  | [] => []
  | x :: vs => if x.isFinite then finiteBefore (n + 1) vs else n :: finiteBefore n vs

theorem absencesAmong_reread (n : Nat) (vs : List Float) :
    absencesAmong n (vs.map (reread r)) = (finiteBefore n vs).map (Position.back, ·) := by
  induction vs generalizing n with
  | nil => rfl
  | cons x vs ih =>
    rw [List.map_cons, finiteBefore, reread]
    by_cases hx : x.isFinite = true
    · rw [if_pos hx, if_pos hx]
      exact ih (n + 1)
    · rw [if_neg hx, if_neg hx]
      exact congrArg ((Position.back, n) :: ·) (ih n)

theorem reduceOption_reread (vs : List Float) :
    (vs.map (reread r)).reduceOption = (vs.filter Float.isFinite).map r := by
  induction vs with
  | nil => rfl
  | cons x vs ih => by_cases hx : x.isFinite = true <;> simp [reread, hx, ih]

theorem map_getD_reread (back : Float) (vs : List Float) :
    (vs.map (reread r)).map (·.getD back) = vs.map fun x => if x.isFinite then r x else back := by
  rw [List.map_map]
  refine List.map_congr_left fun x _ => ?_
  show (reread r x).getD back = _
  unfold reread
  split <;> rfl

/-- What comes of the entries `es` of the map `m`, written in this order, if they are read under the
policy `q` and `r` says what finite doubles are read as. -/
structure ReadAgain (r : Float → Float) (m : Multimap String Float P)
    (es : List (Entry String Float)) (a : Arrangement) (q : Q)
    (x : Logged (Multimap String Float Q)) : Prop where
  laidOut : x.value.store.LaidOut a
  /-- The keys are all there, those without a finite value as well. -/
  keys_perm : x.value.store.keys.Perm m.store.keys
  keys_arrival : a = .arrival → x.value.store.keys = es.map (·.1)
  /-- The policy is asked about the entries one after the other, about each of them on the empty
  sequence. -/
  policy_eq : Multimap.policy <$> x = (es.map (rereadEntry r)).foldlM policyAfter q
  /-- A sequence is what the policy has made of its values by then. -/
  get?_eq (before : List (Entry String Float)) (e : Entry String Float)
    (behind : List (Entry String Float)) : es = before ++ e :: behind →
      x.value.get? e.1 = some (supplyAll ((before.map (rereadEntry r)).foldlM policyAfter q).value
        [] (e.2.map (reread r))).value.2
  /-- If the policy has no memory, the entries that come before do not matter. -/
  memoryless : Memoryless Float q → ∀ e ∈ m.store.entries,
    x.value.get? e.1 = some (supplyAll q [] (e.2.map (reread r))).value.2
  /-- Under a policy that leaves sequences as they are the finite values remain, in their order. -/
  get?_spared : Spares Float q → ∀ e ∈ m.store.entries,
    x.value.get? e.1 = some ((e.2.filter Float.isFinite).map r)
  /-- A policy that drops is one of these. It logs every value that is not finite, with the number
  of finite ones of its key before it. -/
  events_dropped : Drops Float q →
    x.events = es.flatMap fun e => (finiteBefore 0 e.2).map (.dropped .back ·)
  /-- A policy that marks has its mark stand in the place of every value that is not finite. -/
  get?_marked (back front : Float) : Marks q back front → ∀ e ∈ m.store.entries,
    x.value.get? e.1 = some (e.2.map fun x => if x.isFinite then r x else back)
  events_quiet : Quiet Float q → x.events = []

/-- The map that holds what is made of the entries. -/
theorem readAgain_supplyEntries (hes : es.Perm m.store.entries)
    (hd : es.Pairwise fun e e' => ¬ SameKey e.1 e'.1) (a : Arrangement) (q : Q) :
    ReadAgain r m es a q ((fun s => ⟨.ofEntries a s.2, s.1⟩) <$>
      supplyEntries q (es.map (rereadEntry r))) := by
  have hoffers : (es.map (rereadEntry r)).Pairwise fun e e' => ¬ SameKey e.1 e'.1 :=
    List.pairwise_map.mpr hd
  have hkeys : (supplyEntries q (es.map (rereadEntry r))).value.2.map (·.1) = es.map (·.1) := by
    rw [keys_supplyEntries, List.map_map]
    rfl
  have hmem : ∀ e ∈ m.store.entries, rereadEntry r e ∈ es.map (rereadEntry r) :=
    fun e he => List.mem_map_of_mem (hes.mem_iff.mpr he)
  constructor
  case laidOut => exact (Store.LaidOut.empty a).insertAll _
  case keys_perm =>
    have hold := hes.map Prod.fst
    rw [← hkeys] at hold
    have hperm := Store.entries_ofEntries_perm (distinct_supplyEntries hoffers q) a
    exact (hperm.map Prod.fst).trans hold
  case keys_arrival =>
    rintro rfl
    refine Eq.trans ?_ hkeys
    exact congrArg (List.map Prod.fst)
      ((Store.NewIn.empty (distinct_supplyEntries hoffers q)).insertAll_eq rfl)
  case policy_eq =>
    rw [← policy_supplyEntries, ← comp_map]
    rfl
  case get?_eq =>
    intro before e behind hsplit
    have hoffered : es.map (rereadEntry r) =
        before.map (rereadEntry r) ++ rereadEntry r e :: behind.map (rereadEntry r) := by
      rw [hsplit, List.map_append, List.map_cons]
    exact get?_supplyEntries hoffers hoffered a q
  case memoryless =>
    intro hq e he
    exact get?_supplyEntries_uniform hoffers (hmem e he)
      (fun p hp => hq.sequence_supplyAll hp [] _) a
  case get?_spared =>
    intro hq e he
    have hspares : ∀ p, Becomes Float q p → Spares Float p := fun p hp _ hr => hq (hp.trans hr)
    rw [← reduceOption_reread]
    exact get?_supplyEntries_uniform hoffers (hmem e he)
      (fun p hp => ((hspares p hp).supplyAll [] _).1) a
  case events_dropped =>
    intro hq
    rw [Logged.events_map, events_supplyEntries (g := fun e =>
      (absencesAmong 0 e.2).map fun a => .dropped a.1 a.2) fun p hp e _ => ?_, List.flatMap_map]
    · simp only [rereadEntry, absencesAmong_reread, List.map_map]
      rfl
    · rw [hq.eq_of_becomes hp, hq.supplyAll_eq]
      rfl
  case get?_marked =>
    intro back front hq e he
    have hmarks : ∀ p, Becomes Float q p → Marks p back front :=
      fun p hp _ hr => hq (hp.trans hr)
    rw [← map_getD_reread]
    exact get?_supplyEntries_uniform hoffers (hmem e he)
      (fun p hp => ((hmarks p hp).sequence_supplyAll [] _).trans (List.nil_append _)) a
  case events_quiet =>
    intro hq
    have hquiet : ∀ p, Becomes Float q p → Quiet Float p := fun p hp _ hr => hq (hp.trans hr)
    rw [Logged.events_map,
      events_supplyEntries fun p hp e _ => (hquiet p hp).events_supplyAll [] e.2]
    simp

/-- **Doubles that are not finite pass through the text of a map as absent values**, in whatever
order its entries are written, over any arrangement and under any policy. -/
theorem doubles_read_again (hm : Reachable m)
    (hr : ∀ e ∈ m.store.entries, ∀ x ∈ e.2, x.isFinite = true → reread? x = some (r x))
    (a : Arrangement) (q : Q) :
    m.toJson? = some (doublesText m.listing) ∧ m.listing.Perm m.store.entries ∧
      ∀ es : List (Entry String Float), es.Perm m.store.entries →
        ∃ x, ofJson a q (doublesText es) = Except.ok <$> x ∧ ReadAgain r m es a q x := by
  refine ⟨toJson?_doubles m, m.listing_perm, fun es hes => ?_⟩
  have hd : es.Pairwise fun e e' => ¬ SameKey e.1 e'.1 :=
    Store.distinct_of_perm hes hm.wellFormed.distinct
  exact ⟨_, ofJson_doublesText hd (fun e he => hr e (hes.mem_iff.mp he)) a q,
    readAgain_supplyEntries hes hd a q⟩

/-- One key has no finite value. Absent values are dropped, or a zero stands for them. -/
theorem doubles_read_again_nan :
    let m : Multimap String Float (Policy Float) :=
      (empty .arrival .drop).insertAll [("a", [1.5, 0 / 0, 2]), ("b", [1 / 0])]
    Reachable m ∧
      (∃ x, ofJson .sorted (Policy.drop : Policy Float) (doublesText m.listing) = Except.ok <$> x ∧
        x.value.get? "a" = some [1.5, 2] ∧ x.value.get? "b" = some [] ∧
        x.events = [.dropped .back 1, .dropped .back 0]) ∧
      ∃ x, ofJson .unordered (Policy.sentinel 0 : Policy Float) (doublesText m.listing) =
          Except.ok <$> x ∧
        x.value.get? "a" = some [1.5, 0, 2] ∧ x.value.get? "b" = some [0] ∧ x.events = [] := by
  intro m
  have hm : Reachable m := .literal Policy.drop _
  have hentries : m.store.entries = [("a", [1.5, 0 / 0, 2]), ("b", [1 / 0])] := by decide +kernel
  have hr : ∀ e ∈ m.store.entries, ∀ x ∈ e.2, x.isFinite = true → reread? x = some (id x) := by
    rw [hentries]
    decide +kernel
  obtain ⟨-, hlisting, hdrop⟩ := doubles_read_again hm hr .sorted (Policy.drop : Policy Float)
  obtain ⟨-, -, hmark⟩ := doubles_read_again hm hr .unordered (Policy.sentinel 0 : Policy Float)
  obtain ⟨x, hx, hdropped⟩ := hdrop _ hlisting
  obtain ⟨y, hy, hmarked⟩ := hmark _ hlisting
  have ha : ("a", [1.5, 0 / 0, 2]) ∈ m.store.entries := hentries ▸ List.mem_cons_self
  have hb : ("b", [1 / 0]) ∈ m.store.entries := hentries ▸ List.mem_cons_of_mem _ List.mem_cons_self
  have hmarks : Marks (.sentinel 0 : Policy Float) (0 : Float) 0 := Policy.marks_sentinel 0
  refine ⟨hm, ⟨x, hx, ?_, ?_, ?_⟩, y, hy, ?_, ?_, hmarked.events_quiet (Policy.quiet nofun)⟩
  · exact (hdropped.get?_spared Policy.drops.spares _ ha).trans (by decide +kernel)
  · exact (hdropped.get?_spared Policy.drops.spares _ hb).trans (by decide +kernel)
  · exact (hdropped.events_dropped Policy.drops).trans (by decide +kernel)
  · exact (hmarked.get?_marked 0 0 hmarks _ ha).trans (by decide +kernel)
  · exact (hmarked.get?_marked 0 0 hmarks _ hb).trans (by decide +kernel)

end Multimap
