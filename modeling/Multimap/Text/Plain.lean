import Multimap.Basic
import Multimap.Decimal.Style

/-!
# Plain text

The plain text of a key or a value is what a reader expects to see of it, without quotes. A map is
written with its entries in braces, `key=[value, value]`, in the order of its listing.
-/

namespace Multimap

/-- Types with a plain text. -/
class Plain (α : Type) where
  plain : α → List Char

export Plain (plain)

instance : Plain String := ⟨String.toList⟩

instance : Plain Int64 := ⟨fun n => Decimal.ofInt n.toInt⟩

instance : Plain UInt8 := ⟨fun n => Decimal.ofNat n.toNat⟩

instance : Plain Float := ⟨Decimal.Style.plain.write⟩

instance : Plain CaselessText := ⟨fun t => t.spelling.toList⟩

instance : Plain IntPair := ⟨fun p => plain p.first ++ ':' :: plain p.second⟩

variable {K V P : Type} [Plain K] [Plain V]

/-- The items with commas and blanks between them. -/
def commaSeparated (items : List (List Char)) : List Char := [',', ' '].intercalate items

/-- An entry: the key, an equals sign and the values in brackets. -/
def plainEntry (e : Entry K V) : List Char :=
  plain e.1 ++ '=' :: '[' :: commaSeparated (e.2.map plain) ++ [']']

/-- The entries in braces. -/
def plainEntries (es : List (Entry K V)) : List Char :=
  '{' :: commaSeparated (es.map plainEntry) ++ ['}']

instance [Ord K] : Plain (Multimap K V P) := ⟨fun m => plainEntries m.listing⟩

end Multimap
