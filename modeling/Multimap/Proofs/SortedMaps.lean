import Multimap.Proofs.Equality

/-!
# Equal sorted maps cannot be told apart

Equality looks the keys of one map up in the other, while iteration, hashing and writing go through
the entries in the order of the store. Of sorted maps there is nothing in that order but the keys:
equal sorted maps have the same keys with equal sequences, place by place, whatever has been done to
them before.

* `permBy_entries`: equal maps have entries that match, in some order.
* `forall₂_entries`: those of equal sorted maps match place by place, because they ascend.
* `hashItems_eq_of_forall₂`: what matches is hashed the same, if the same keys and equal values are.
* **`sorted_indistinguishable`**: equal sorted maps match place by place and are hashed the same; if
  matching is being equal they have the same texts.
-/

namespace Multimap

variable {K V P Q : Type}

/-! ## Entries that match -/

/-- The same key, in whatever spelling, with sequences that are equal value by value. -/
structure SameEntry [Ord K] [BEq V] (e f : Entry K V) : Prop where
  key : SameKey e.1 f.1
  values : ValueByValue e.2 f.2

section

variable [Ord K] [Std.TransOrd K] {es fs : List (Entry K V)}

/-- Where the keys are the same, they ascend alike. -/
theorem ascending_of_forall₂ (h : List.Forall₂ (fun e f : Entry K V => SameKey e.1 f.1) es fs)
    (hes : es.Pairwise fun e e' => compare e.1 e'.1 = .lt) :
    fs.Pairwise fun f f' => compare f.1 f'.1 = .lt := by
  induction h with
  | nil => exact .nil
  | @cons e f es fs hef hrest ih =>
    obtain ⟨hlt, hes⟩ := List.pairwise_cons.mp hes
    refine List.pairwise_cons.mpr ⟨fun f' hf' => ?_, ih hes⟩
    obtain ⟨e', he', hsame⟩ := exists_of_forall₂ hrest.flip hf'
    rw [← hef.compare_left, ← SameKey.compare_right hsame]
    exact hlt e' he'

variable [BEq V] {m : Multimap K V P} {n : Multimap K V Q}

/-- The entries of equal maps match in some order. -/
theorem permBy_entries (hm : m.store.WellFormed) (hn : n.store.WellFormed)
    (h : m.equal n = true) : PermBy SameEntry m.store.entries n.store.entries := by
  rw [equal_iff hm hn] at h
  refine .of_distinct ?_ ?_ (h.flip.size_le hn)
  · exact hm.distinct_partners.imp fun hne x he he' => hne x he.key he'.key
  · intro e he
    have hget : m.get? e.1 = some e.2 := hm.get?_eq_some_iff.mpr ⟨e, he, SameKey.refl e.1, rfl⟩
    obtain ⟨ws, hws, hvalues⟩ := h.exists_of_get? hget
    obtain ⟨f, hf, hsame, rfl⟩ := hn.get?_eq_some_iff.mp hws
    exact ⟨f, hf, hsame, hvalues⟩

/-- Those of equal sorted maps match place by place. -/
theorem forall₂_entries (hm : m.store.LaidOut .sorted) (hn : n.store.LaidOut .sorted)
    (h : m.equal n = true) : List.Forall₂ SameEntry m.store.entries n.store.entries := by
  obtain ⟨fs, hfs, hperm⟩ := permBy_entries hm.toWellFormed hn.toWellFormed h
  have hascending := ascending_of_forall₂ (hfs.imp fun _ _ => SameEntry.key)
    (hm.ascending hm.arrangement_eq)
  rw [← Store.eq_of_ascending hperm hascending (hn.ascending hn.arrangement_eq)]
  exact hfs

end

/-! ## What is fed to a hasher -/

/-- Keys that are the same feed a hasher the same. -/
class LawfulHashKey (K : Type) [Ord K] [HashInput K] : Prop where
  hashItems_eq {j k : K} : SameKey j k → hashItems j = hashItems k

/-- Values that are equal feed a hasher the same. -/
class LawfulHashValue (V : Type) [BEq V] [HashInput V] : Prop where
  hashItems_eq {v w : V} : (v == w) = true → hashItems v = hashItems w

/-- Keys of which no two are the same, such as strings, integers, bytes and pairs of integers. -/
instance [Ord K] [Std.LawfulEqOrd K] [HashInput K] : LawfulHashKey K :=
  ⟨fun h => congrArg hashItems (Std.LawfulEqOrd.eq_of_compare h)⟩

/-- Of a caseless text, what is hashed does not show the spelling. -/
instance : LawfulHashKey CaselessText :=
  ⟨fun h => congrArg (fun s => [HashItem.text s]) (CaselessText.sameKey_iff.mp h)⟩

/-- Values of which no two are equal, such as strings, integers and bytes. -/
instance [BEq V] [LawfulBEq V] [HashInput V] : LawfulHashValue V :=
  ⟨fun h => congrArg hashItems (eq_of_beq h)⟩

theorem flatMap_eq_of_forall₂ {α β γ : Type} {R : α → β → Prop} {f : α → List γ} {g : β → List γ}
    {as : List α} {bs : List β} (h : List.Forall₂ R as bs) (hfg : ∀ a b, R a b → f a = g b) :
    as.flatMap f = bs.flatMap g := by
  induction h with
  | nil => rfl
  | cons hab _ ih => rw [List.flatMap_cons, List.flatMap_cons, hfg _ _ hab, ih]

theorem ValueByValue.hashItems_eq [BEq V] [HashInput V] [LawfulHashValue V] {vs ws : List V}
    (h : ValueByValue vs ws) : hashItems vs = hashItems ws := by
  have hvalues := flatMap_eq_of_forall₂ h fun _ _ => LawfulHashValue.hashItems_eq
  show HashItem.length vs.length :: _ = HashItem.length ws.length :: _
  rw [h.length_eq, hvalues]

section

variable [Ord K] [BEq V] {m : Multimap K V P} {n : Multimap K V Q}

/-- Entries that match place by place are hashed the same. -/
theorem hashItems_eq_of_forall₂ [HashInput K] [HashInput V] [LawfulHashKey K] [LawfulHashValue V]
    (h : List.Forall₂ SameEntry m.store.entries n.store.entries) : hashItems m = hashItems n := by
  have hentries := flatMap_eq_of_forall₂
    (f := fun e => hashItems e.1 ++ hashItems e.2) (g := fun f => hashItems f.1 ++ hashItems f.2) h
    fun e f hef => by rw [LawfulHashKey.hashItems_eq hef.key, hef.values.hashItems_eq]
  show HashItem.length m.store.entries.length :: _ = HashItem.length n.store.entries.length :: _
  rw [h.length_eq, hentries]

/-! ## What is the same to the letter -/

theorem SameEntry.eq [Std.LawfulEqOrd K] [LawfulBEq V] {e f : Entry K V} (h : SameEntry e f) :
    e = f := by
  have hvalues : e.2 = f.2 := List.forall₂_eq_eq_eq ▸ h.values.imp fun _ _ => eq_of_beq
  exact Prod.ext (Std.LawfulEqOrd.eq_of_compare h.key) hvalues

/-- There is nothing by which the maps can be told apart, but their policies and, if there are
different spellings of a key or different forms of a value, those. -/
structure Indistinguishable (m : Multimap K V P) (n : Multimap K V Q) : Prop where
  /-- The same keys with equal sequences, place by place. -/
  entries : List.Forall₂ SameEntry m.store.entries n.store.entries
  keys : List.Forall₂ SameKey m.store.keys n.store.keys
  sequences : List.Forall₂ ValueByValue m.store.sequences n.store.sequences
  hashItems_eq [HashInput K] [HashInput V] [LawfulHashKey K] [LawfulHashValue V] :
    hashItems m = hashItems n
  plain_eq [Std.LawfulEqOrd K] [LawfulBEq V] [Plain K] [Plain V] : plain m = plain n
  line_eq [Std.LawfulEqOrd K] [LawfulBEq V] [InspectKey K] [Inspect V] :
    (inspect m).line = (inspect n).line
  block_eq [Std.LawfulEqOrd K] [LawfulBEq V] [InspectKey K] [Inspect V] (depth : Nat) :
    (inspect m).block depth = (inspect n).block depth
  toJson?_eq [Std.LawfulEqOrd K] [LawfulBEq V] [MemberName K] [JsonValue V] :
    m.toJson? = n.toJson?

theorem Indistinguishable.of_forall₂ (ha : m.store.arrangement = n.store.arrangement)
    (h : List.Forall₂ SameEntry m.store.entries n.store.entries) : Indistinguishable m n := by
  have hlisting [Std.LawfulEqOrd K] [LawfulBEq V] : m.listing = n.listing := by
    have hentries : m.store.entries = n.store.entries :=
      List.forall₂_eq_eq_eq ▸ h.imp fun _ _ => SameEntry.eq
    exact congrArg Store.listing (Store.eq_of_entries ha hentries)
  have hinspect [Std.LawfulEqOrd K] [LawfulBEq V] [InspectKey K] [Inspect V] :
      inspect m = inspect n := by
    show Inspection.mapping (m.listing.map _) = Inspection.mapping (n.listing.map _)
    rw [hlisting]
  constructor
  case entries => exact h
  case keys =>
    unfold Store.keys
    rw [List.forall₂_map_left_iff, List.forall₂_map_right_iff]
    exact h.imp fun _ _ => SameEntry.key
  case sequences =>
    unfold Store.sequences
    rw [List.forall₂_map_left_iff, List.forall₂_map_right_iff]
    exact h.imp fun _ _ => SameEntry.values
  case hashItems_eq => exact hashItems_eq_of_forall₂ h
  case plain_eq => exact congrArg plainEntries hlisting
  case line_eq => exact congrArg Inspection.line hinspect
  case block_eq => exact fun depth => congrArg (Inspection.block depth) hinspect
  case toJson?_eq =>
    intro _ _ _ _
    unfold toJson? document?
    rw [hlisting]

/-- **Equal sorted maps cannot be told apart**, whatever their policies and whatever has been done
to them. They have the same keys with equal sequences, place by place; a hasher is fed the same by
both, if it is by keys that are the same and by equal values; and they have the same texts, if no
two keys are the same and no two values equal. -/
theorem sorted_indistinguishable [Std.TransOrd K] (hm : Reachable m) (hn : Reachable n)
    (hmsorted : m.store.arrangement = .sorted) (hnsorted : n.store.arrangement = .sorted)
    (h : m.equal n = true) : Indistinguishable m n :=
  .of_forall₂ (hmsorted.trans hnsorted.symm)
    (forall₂_entries ⟨hm.wellFormed, hmsorted⟩ ⟨hn.wellFormed, hnsorted⟩ h)

end

/-- Two maps under different policies, of which one has its key in another spelling and has held
other values under it. -/
theorem sorted_indistinguishable_caseless :
    let m : Multimap CaselessText Int64 (Policy Int64) :=
      ((Operation.insert ⟨"A"⟩ [1, 2]).run (empty .sorted (.counting []))).value.2
    let n : Multimap CaselessText Int64 DropAbsent :=
      ((Operation.insertAll [(⟨"a"⟩, [7]), (⟨"a"⟩, [1, 2])]).run (empty .sorted ⟨⟩)).value.2
    Reachable m ∧ Reachable n ∧ m.store.arrangement = .sorted ∧ n.store.arrangement = .sorted ∧
      m.equal n = true ∧ Indistinguishable m n ∧ hashItems m = hashItems n ∧
      m.store.keys = [⟨"A"⟩] ∧ n.store.keys = [⟨"a"⟩] := by
  intro m n
  have hm : Reachable m := (Reachable.empty .sorted (Policy.counting [])).operate _
  have hn : Reachable n := (Reachable.empty .sorted DropAbsent.mk).operate _
  have hmstore : m.store = ⟨.sorted, [(⟨"A"⟩, [1, 2])]⟩ := rfl
  have hnstore : n.store = ⟨.sorted, [(⟨"a"⟩, [1, 2])]⟩ := by
    simp [n, Operation.run, insertAll, insert, empty, Store.empty, Store.insert, Store.contains,
      Store.get?, Store.find?, Store.modify, Arrangement.place]
  have hsame : SameKey (CaselessText.mk "A") ⟨"a"⟩ :=
    CaselessText.sameKey_iff_letters.mpr (by decide)
  have hequal : m.equal n = true := by
    simp [equal, matchesBy, size, get?, hmstore, hnstore, hsame, Store.size, Store.get?,
      Store.find?]
  have hmsorted : m.store.arrangement = .sorted := by rw [hmstore]
  have hnsorted : n.store.arrangement = .sorted := by rw [hnstore]
  have halike := sorted_indistinguishable hm hn hmsorted hnsorted hequal
  exact ⟨hm, hn, hmsorted, hnsorted, hequal, halike, halike.hashItems_eq,
    by rw [hmstore]; rfl, by rw [hnstore]; rfl⟩

end Multimap
