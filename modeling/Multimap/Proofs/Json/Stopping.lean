import Multimap.Proofs.Json.Decoding

/-!
# Items up to one at which reading stops

Items between brackets are taken one after the other. If reading stops behind some of them then what
has been logged is what is logged about those, provided that whatever stops it has logged nothing
itself.

* `Reader.Silent.sequence`: arrays of values of which nothing is logged.
* `Reader.Silent.bind_clean`: a reader that logs nothing if it fails.
* `foldItems_lead`: items that are taken, and what is behind them.
* **`foldItems_stops`**: items that are taken, and then reading stops.
-/

namespace Multimap.Json

variable {α β σ : Type} {text rest left more : List Char} {c : Char}

/-! ## Readers that log nothing -/

/-- The reader logs nothing. -/
def Reader.Silent (read : Reader α) : Prop := ∀ text, (read text).run.events = []

/-- The reader logs nothing if it fails. -/
def Reader.Clean (read : Reader α) : Prop :=
  ∀ ⦃text : List Char⦄ ⦃f : Fault⦄, (read text).run.value = .error f → read text = throw f

theorem events_bind_eq_nil {ε : Type} {x : ExceptT ε Logged α} {f : α → ExceptT ε Logged β}
    (hx : x.run.events = []) (hf : ∀ a, (f a).run.events = []) : (x >>= f).run.events = [] := by
  obtain ⟨e | a, es⟩ := x
  · exact (List.append_nil _).trans hx
  · show es ++ (f a).run.events = []
    rw [hf a, List.append_nil]
    exact hx

namespace Reader.Silent

variable {read : Reader α}

theorem pure (a : α) : Silent (Pure.pure a : Reader α) := fun _ => rfl

theorem ofScan (scan : Scan α) : (ofScan scan).Silent := fun _ => rfl

theorem bind {next : α → Reader β} (h : read.Silent) (hnext : ∀ a, (next a).Silent) :
    (read >>= next).Silent := fun text =>
  events_bind_eq_nil (h text) fun r => hnext r.1 r.2

theorem map (f : α → β) (h : read.Silent) : (f <$> read).Silent := by
  rw [← bind_pure_comp]
  exact h.bind fun a => .pure (f a)

theorem foldItems {close : Char} {item : σ → Reader σ} (hitem : ∀ acc, (item acc).Silent)
    (first : Bool) (acc : σ) : (foldItems close item first acc).Silent := by
  intro text
  induction hn : text.length using Nat.strongRecOn generalizing text first acc with
  | ind n ih =>
    rw [Reader.foldItems]
    split
    · rfl
    split
    · rfl
    refine events_bind_eq_nil rfl fun ⟨_, start⟩ => ?_
    refine events_bind_eq_nil (hitem acc start) fun ⟨acc', left⟩ => ?_
    dsimp only
    split
    · next hlt => exact ih left.length (hn ▸ hlt) false acc' left rfl
    · rfl

theorem optional (h : read.Silent) : (optional read).Silent := by
  intro text
  unfold Reader.optional
  split
  · exact ((ofScan _).bind fun _ => .pure none) _
  · exact h.map some _

theorem sequence (h : read.Silent) : (sequence read).Silent := by
  intro text
  unfold Reader.sequence
  split
  · exact foldItems (fun acc => h.optional.bind fun v => .pure (acc ++ [v])) true [] _
  · rfl

theorem clean (h : read.Silent) : read.Clean := fun text _ hf => Logged.ext hf (h text)

/-- Whatever comes first logs nothing, and what comes then is clean. -/
theorem bind_clean {next : α → Reader β} (h : read.Silent) (hnext : ∀ a, (next a).Clean) :
    (read >>= next).Clean := by
  intro text f hf
  have hread := h text
  show read text >>= (fun r => next r.1 r.2) = _
  change (read text >>= fun r => next r.1 r.2).run.value = _ at hf
  generalize read text = x at hread hf ⊢
  obtain ⟨e | r, es⟩ := x
  all_goals obtain rfl : es = [] := hread
  · cases hf
    rfl
  · exact hnext r.1 hf

end Reader.Silent

theorem Reader.clean_ofLogged (x : Logged α) : (ofLogged x).Clean := by
  intro text f hf
  cases hf

/-! ## Items up to a bad one -/

section Items

variable {ι : Type} {close : Char} {first : Bool} {item : σ → Reader σ} {step : σ → ι → Logged σ}
  {texts : ι → List Char} {is : List ι} {acc : σ}

/-- The text behind items, with a comma in front if there are any. -/
def glue (is : List ι) (behind : List Char) : List Char :=
  if is.isEmpty then behind else ',' :: behind

theorem separated_append (is : List ι) (j : ι) (js : List ι) :
    separated texts (is ++ j :: js) =
      separated texts is ++ glue is (texts j ++ js.flatMap fun k => ',' :: texts k) := by
  cases is with
  | nil => rfl
  | cons i is => simp [separated, glue]

theorem glue_append (is : List ι) (text more : List Char) :
    glue is text ++ more = glue is (text ++ more) := by
  cases is <;> rfl

/-- A part of the text behind items is none of it, or a part of what stands behind the comma. -/
theorem exists_of_glue {behind : List Char} (h : text ++ rest = glue is behind) :
    text = [] ∨ ∃ start, text = glue is start ∧ start ++ rest = behind := by
  cases is with
  | nil => exact .inr ⟨text, rfl, h⟩
  | cons i is =>
    cases text with
    | nil => exact .inl rfl
    | cons c text =>
      obtain ⟨rfl, hbehind⟩ := List.cons.inj h
      exact .inr ⟨text, rfl, hbehind⟩

theorem ends_glue (h : is ≠ []) : Ends (glue is text) := by
  cases is with
  | nil => exact absurd rfl h
  | cons i is => exact .cons rfl (by decide) (by decide) (by decide)

/-- One item that is taken, and what is behind it. -/
theorem foldItems_item {start behind : List Char} {y : Logged σ}
    (hskip : skipBlank text = c :: left) (hc : c ≠ close)
    (hstart : (if first then pure () else Reader.skipComma close : Scan Unit) (c :: left) =
      .ok ((), start))
    (hitem : item acc start = Decoded.leaving (ExceptT.lift y) behind)
    (hlength : behind.length < text.length) :
    Reader.foldItems close item first acc text =
      ExceptT.lift y >>= fun acc => Reader.foldItems close item false acc behind := by
  rw [Reader.foldItems, hskip]
  show (if c = close then _ else _) = _
  rw [if_neg hc, Reader.ofScan_ok hstart]
  show item acc start >>= _ = _
  rw [hitem]
  refine Logged.ext ?_ ?_
  · show Logged.value (if behind.length < text.length then _ else _) = _
    rw [if_pos hlength]
    rfl
  · show ((y.events ++ []) ++ []) ++ Logged.events (if behind.length < text.length then _ else _) =
      (y.events ++ []) ++ _
    rw [if_pos hlength, List.append_nil]
    rfl

theorem lift_bind_bind {ε γ : Type} (x : Logged α) (f : α → Logged β) (g : β → ExceptT ε Logged γ) :
    ExceptT.lift (x >>= f) >>= g = ExceptT.lift x >>= fun a => ExceptT.lift (f a) >>= g := by
  refine Logged.ext rfl ?_
  show ((x.events ++ (f x.value).events) ++ []) ++ _ =
    (x.events ++ []) ++ (((f x.value).events ++ []) ++ _)
  simp only [List.append_nil, List.append_assoc]
  rfl

/-- What comes of a computation that goes on without logging. -/
theorem lift_bind_of_value {ε : Type} {x : Logged α} {f : α → ExceptT ε Logged β} {r : Except ε β}
    (h : f x.value = ⟨r, []⟩) : ExceptT.lift x >>= f = ⟨r, x.events⟩ := by
  refine Logged.ext ?_ ?_
  · show Logged.value (f x.value) = _
    rw [h]
  · show (x.events ++ []) ++ Logged.events (f x.value) = _
    rw [h, List.append_nil]
    exact List.append_nil _

theorem ends_flatMap (texts : ι → List Char) (is : List ι) {behind : List Char} (h : Ends behind) :
    Ends ((is.flatMap fun i => ',' :: texts i) ++ behind) := by
  cases is with
  | nil => exact h
  | cons i is => exact .cons rfl (by decide) (by decide) (by decide)

/-- Items of which each has a comma in front, and what is behind them. -/
theorem foldItems_lead_behind (hclose : close = ']' ∨ close = '}')
    (his : ∀ i ∈ is, Item item texts (fun acc i => ExceptT.lift (step acc i)) i) (acc : σ)
    {behind : List Char} (hbehind : Ends behind) :
    Reader.foldItems close item false acc ((is.flatMap fun i => ',' :: texts i) ++ behind) =
      ExceptT.lift (is.foldlM step acc) >>= fun acc =>
        Reader.foldItems close item false acc behind := by
  induction is generalizing acc with
  | nil => rfl
  | cons i is ih =>
    obtain ⟨hi, his⟩ := List.forall_mem_cons.mp his
    obtain ⟨c, t, ht, hopens⟩ := hi.opens
    have hitem := hi.yields acc (ends_flatMap texts is hbehind)
    rw [List.flatMap_cons, List.cons_append, List.cons_append, List.append_assoc, List.foldlM_cons,
      lift_bind_bind]
    rw [ht, List.cons_append] at hitem ⊢
    refine Eq.trans ?_ (bind_congr fun acc => ih his acc)
    refine foldItems_item (skipBlank_cons rfl) ?_ (skipComma_cons hopens hclose) hitem ?_
    · rcases hclose with rfl | rfl <;> decide
    · simp only [List.length_cons, List.length_append]
      omega

/-- **Items that are taken**, and what is behind them. -/
theorem foldItems_lead (hclose : close = ']' ∨ close = '}')
    (his : ∀ i ∈ is, Item item texts (fun acc i => ExceptT.lift (step acc i)) i) (acc : σ)
    {behind : List Char} (hbehind : is ≠ [] → Ends behind) :
    Reader.foldItems close item true acc (separated texts is ++ behind) =
      ExceptT.lift (is.foldlM step acc) >>= fun acc =>
        Reader.foldItems close item is.isEmpty acc behind := by
  cases is with
  | nil => rfl
  | cons i is =>
    obtain ⟨hi, his⟩ := List.forall_mem_cons.mp his
    obtain ⟨c, t, ht, hopens⟩ := hi.opens
    have hends := hbehind (List.cons_ne_nil i is)
    have hitem := hi.yields acc (ends_flatMap texts is hends)
    rw [separated, List.append_assoc, List.foldlM_cons, lift_bind_bind]
    rw [ht, List.cons_append] at hitem ⊢
    refine Eq.trans ?_ (bind_congr fun acc => foldItems_lead_behind hclose his acc hends)
    refine foldItems_item (skipBlank_cons hopens.isBlank_eq) (hopens.ne_close hclose) rfl hitem ?_
    simp only [List.length_cons, List.length_append]
    omega

/-- An item that fails, behind others or not, and nothing of it is logged. -/
theorem foldItems_throw (hclose : close = ']' ∨ close = '}') {f : Fault} (is : List ι)
    (hc : Opens c) (hitem : item acc (c :: text) = throw f) :
    Reader.foldItems close item is.isEmpty acc (glue is (c :: text)) = throw f := by
  cases is with
  | nil =>
    show Reader.foldItems close item true acc (c :: text) = _
    rw [Reader.foldItems, skipBlank_cons hc.isBlank_eq]
    show (if c = close then _ else _) = _
    rw [if_neg (hc.ne_close hclose)]
    show item acc (c :: text) >>= _ = _
    rw [hitem]
    rfl
  | cons i is =>
    have hcomma : ',' ≠ close := by rcases hclose with rfl | rfl <;> decide
    show Reader.foldItems close item false acc (',' :: c :: text) = _
    rw [Reader.foldItems, skipBlank_cons rfl]
    show (if ',' = close then _ else Reader.ofScan (Reader.skipComma close) _ >>= _) = _
    rw [if_neg hcomma, Reader.ofScan_ok (skipComma_cons hc hclose)]
    show item acc (c :: text) >>= _ = _
    rw [hitem]
    rfl

/-- The text ends where a comma is due, or an item. -/
theorem foldItems_ended (hclose : close = ']' ∨ close = '}') (is : List ι) {behind : List Char}
    (h : behind = [] ∨ behind = glue is []) :
    Reader.foldItems close item is.isEmpty acc behind = throw .ended := by
  have hnothing : ∀ first, Reader.foldItems close item first acc [] = throw .ended := by
    intro first
    rw [Reader.foldItems]
    rfl
  rcases h with rfl | rfl
  · exact hnothing _
  · cases is with
    | nil => exact hnothing _
    | cons i is =>
      have hcomma : ',' ≠ close := by rcases hclose with rfl | rfl <;> decide
      show Reader.foldItems close item false acc [','] = _
      rw [Reader.foldItems, skipBlank_cons rfl]
      exact if_neg hcomma

/-- **Items that are taken, and then reading stops**: what has been logged is about them. -/
theorem foldItems_stops (hclose : close = ']' ∨ close = '}')
    (his : ∀ i ∈ is, Item item texts (fun acc i => ExceptT.lift (step acc i)) i) (acc : σ)
    {behind : List Char} (hbehind : is ≠ [] → Ends behind) {f : Fault}
    (hstop : Reader.foldItems close item is.isEmpty (is.foldlM step acc).value behind = throw f) :
    Reader.foldItems close item true acc (separated texts is ++ behind) =
      ⟨.error f, (is.foldlM step acc).events⟩ := by
  rw [foldItems_lead hclose his acc hbehind]
  exact lift_bind_of_value hstop

end Items

end Multimap.Json
