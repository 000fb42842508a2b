import Multimap.Basic
import Multimap.Decimal.Style
import Multimap.Text.Quoted

/-!
# Inspection

The inspection of a value shows what it is made of: a tree with texts at its leaves, sequences and
mappings. It is written on one line (`Inspection.line`) or with every item on a line of its own
(`Inspection.block`), each level indented by four blanks.
-/

namespace Multimap

/-- What a value is made of. -/
inductive Inspection
  | atom (text : List Char)
  | sequence (items : List Inspection)
  | mapping (entries : List (List Char × Inspection))

namespace Inspection

mutual

/-- The inspection on one line. -/
def line : Inspection → List Char
  | atom text => text
  | sequence items => '[' :: lineItems items ++ [']']
  | mapping entries => '{' :: lineEntries entries ++ ['}']

/-- Items with commas between them. -/
def lineItems : List Inspection → List Char
  | [] => []
  | [i] => i.line
  | i :: j :: rest => i.line ++ ',' :: ' ' :: lineItems (j :: rest)

/-- Entries with commas between them. -/
def lineEntries : List (List Char × Inspection) → List Char
  | [] => []
  | [(k, i)] => k ++ ':' :: ' ' :: i.line
  | (k, i) :: j :: rest => k ++ ':' :: ' ' :: i.line ++ ',' :: ' ' :: lineEntries (j :: rest)

end

/-- A new line, indented to the given depth. -/
def newLine (depth : Nat) : List Char := '\n' :: List.replicate (4 * depth) ' '

mutual

/-- The inspection with every item on a line of its own and a comma behind every item. -/
def block (depth : Nat) : Inspection → List Char
  | atom text => text
  | sequence [] => ['[', ']']
  | sequence items => '[' :: blockItems (depth + 1) items ++ newLine depth ++ [']']
  | mapping [] => ['{', '}']
  | mapping entries => '{' :: blockEntries (depth + 1) entries ++ newLine depth ++ ['}']

def blockItems (depth : Nat) : List Inspection → List Char
  | [] => []
  | i :: rest => newLine depth ++ i.block depth ++ ',' :: blockItems depth rest

def blockEntries (depth : Nat) : List (List Char × Inspection) → List Char
  | [] => []
  | (k, i) :: rest =>
    newLine depth ++ k ++ ':' :: ' ' :: i.block depth ++ ',' :: blockEntries depth rest

end

end Inspection

/-! ## What can be inspected -/

/-- Types of keys, which are inspected as one text. -/
class InspectKey (α : Type) where
  inspectKey : α → List Char

export InspectKey (inspectKey)

instance : InspectKey String := ⟨fun s => Text.quote s.toList⟩

instance : InspectKey Int64 := ⟨fun n => Decimal.ofInt n.toInt⟩

instance : InspectKey UInt8 := ⟨fun n => Decimal.ofNat n.toNat⟩

instance : InspectKey CaselessText := ⟨fun t => Text.quote t.spelling.toList⟩

instance : InspectKey IntPair :=
  ⟨fun p => '<' :: Decimal.ofInt p.first.toInt ++ ':' :: Decimal.ofInt p.second.toInt ++ ['>']⟩

/-- Types of values. -/
class Inspect (α : Type) where
  inspect : α → Inspection

export Inspect (inspect)

instance : Inspect String := ⟨fun s => .atom (inspectKey s)⟩

instance : Inspect Int64 := ⟨fun n => .atom (inspectKey n)⟩

instance : Inspect UInt8 := ⟨fun n => .atom (inspectKey n)⟩

instance : Inspect Float := ⟨fun x => .atom (Decimal.Style.inspected.write x)⟩

/-- A map is inspected as a mapping to sequences, in the order of its listing. -/
instance {K V P : Type} [Ord K] [InspectKey K] [Inspect V] : Inspect (Multimap K V P) :=
  ⟨fun m => .mapping (m.listing.map fun e => (inspectKey e.1, .sequence (e.2.map inspect)))⟩

end Multimap
