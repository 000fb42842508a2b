import Multimap.Decimal.Integer
import Multimap.Json.Fault

/-!
# Words, strings and numerals in JSON text

A `Scan` takes something from the start of a text and leaves the rest. What is scanned here has no
blanks in front; `skipBlank` takes those away.
-/

namespace Multimap.Json

/-- Takes an `α` from the start of a text. -/
abbrev Scan (α : Type) := StateT (List Char) (Except Fault) α

def isBlank (c : Char) : Bool := c = ' ' || c = '\n' || c = '\t' || c = '\r'

/-- The text from its first character on that is not blank. -/
def skipBlank (text : List Char) : List Char := text.dropWhile isBlank

/-- The fault of a text that does not go on as it must. -/
def Fault.stuck : List Char → Fault
  | [] => .ended
  | _ :: _ => .malformed

/-- Takes the given characters. -/
def scanWord : List Char → Scan Unit
  | [], text => pure ((), text)
  | _ :: _, [] => throw .ended
  | c :: word, d :: rest => if c = d then scanWord word rest else throw .malformed

/-! ## Strings -/

def hexDigit? (c : Char) : Option Nat :=
  if c.isDigit then some (c.toNat - '0'.toNat)
  else if 'a' ≤ c ∧ c ≤ 'f' then some (c.toNat - 'a'.toNat + 10)
  else if 'A' ≤ c ∧ c ≤ 'F' then some (c.toNat - 'A'.toNat + 10)
  else none

/-- Number of bytes of the text in UTF-8. -/
def utf8Size (text : List Char) : Nat := text.foldr (fun c n => c.utf8Size + n) 0

/-- Takes four hexadecimal digits. A text of less than four bytes has stopped. -/
def scanHex4 : Scan Nat := fun text =>
  match (text.take 4).mapM hexDigit? with
  | some [a, b, c, d] => pure (((a * 16 + b) * 16 + c) * 16 + d, text.drop 4)
  | _ => throw (if utf8Size text < 4 then .ended else .malformed)

/-- The first of two escapes that stand for one character together. -/
def isLeading (n : Nat) : Bool := 0xD800 ≤ n ∧ n < 0xDC00

/-- The second of two escapes that stand for one character together. -/
def isTrailing (n : Nat) : Bool := 0xDC00 ≤ n ∧ n < 0xE000

/-- Takes the character whose code stands behind `\u`. One beyond four digits is written as two
escapes, of which neither may stand alone. -/
def scanCodePoint : Scan Char := fun text => do
  let (n, rest) ← scanHex4 text
  if isTrailing n then throw .malformed
  else if isLeading n then
    let (_, rest) ← scanWord ['\\', 'u'] rest
    let (trailing, rest) ← scanHex4 rest
    if isTrailing trailing then
      return (Char.ofNat (0x10000 + (n - 0xD800) * 0x400 + (trailing - 0xDC00)), rest)
    else throw .malformed
  else return (Char.ofNat n, rest)

/-- The character that a single one behind a backslash means. -/
def shortEscape? : Char → Option Char
  | '"' => some '"'
  | '\\' => some '\\'
  | '/' => some '/'
  | 'b' => some '\x08'
  | 'f' => some '\x0c'
  | 'n' => some '\n'
  | 'r' => some '\r'
  | 't' => some '\t'
  | _ => none

/-- Takes what stands behind a backslash: the character that is meant. -/
def scanEscape : Scan Char
  | [] => throw .ended
  | c :: rest =>
    if c = 'u' then scanCodePoint rest
    else match shortEscape? c with
      | some d => pure (d, rest)
      | none => throw .malformed

/-! An escape takes at least one character, so that the characters of a string come to an end. -/

theorem length_scanWord {word text rest : List Char} (h : scanWord word text = .ok ((), rest)) :
    rest.length + word.length = text.length := by
  induction word generalizing text with
  | nil => cases h; rfl
  | cons c word ih =>
    cases text with
    | nil => cases h
    | cons d text =>
      simp only [scanWord] at h
      split at h
      · simp [← ih h, Nat.add_assoc]
      · cases h

theorem length_scanHex4 {text rest : List Char} {n : Nat} (h : scanHex4 text = .ok (n, rest)) :
    rest.length ≤ text.length := by
  simp only [scanHex4] at h
  split at h
  · cases h; simp
  · cases h

theorem length_scanCodePoint {text rest : List Char} {c : Char}
    (h : scanCodePoint text = .ok (c, rest)) : rest.length ≤ text.length := by
  rcases h₁ : scanHex4 text with _ | ⟨n, left⟩
  · simp [scanCodePoint, h₁, bind, Except.bind] at h
  have hleft := length_scanHex4 h₁
  simp only [scanCodePoint, h₁, bind, Except.bind] at h
  split at h
  · cases h
  split at h
  · rcases h₂ : scanWord ['\\', 'u'] left with _ | ⟨⟨⟩, left₂⟩
    · simp [h₂] at h
    have hleft₂ := length_scanWord h₂
    simp only [h₂] at h
    rcases h₃ : scanHex4 left₂ with _ | ⟨trailing, left₃⟩
    · simp [h₃] at h
    have hleft₃ := length_scanHex4 h₃
    simp only [h₃] at h
    split at h
    · simp only [pure, Except.pure, Except.ok.injEq, Prod.mk.injEq] at h
      simp_all; omega
    · cases h
  · cases h; exact hleft

theorem length_scanEscape {text rest : List Char} {c : Char} (h : scanEscape text = .ok (c, rest)) :
    rest.length < text.length := by
  cases text with
  | nil => cases h
  | cons d left =>
    refine Nat.lt_succ_of_le ?_
    simp only [scanEscape] at h
    split at h
    · exact length_scanCodePoint h
    split at h
    · cases h; exact Nat.le_refl _
    · cases h

/-- Takes the characters of a string and its closing quotation mark. -/
def scanString (text : List Char) : Except Fault (List Char × List Char) :=
  match text with
  | [] => throw .ended
  | c :: rest =>
    if c = '"' then pure ([], rest)
    else if c = '\\' then
      match _h : scanEscape rest with
      | .error e => throw e
      | .ok (d, left) => do
        let (characters, left) ← scanString left
        return (d :: characters, left)
    else if c.toNat < 0x20 then throw .malformed
    else do
      let (characters, left) ← scanString rest
      return (c :: characters, left)
termination_by text.length
decreasing_by
  · exact Nat.lt_succ_of_lt (length_scanEscape _h)
  · exact Nat.lt_succ_self _

/-! ## Numerals -/

/-- A number as it is written, without a value yet. -/
structure Numeral where
  negative : Bool
  whole : List Char
  /-- The digits behind the point, of which there are none only if there is no point. -/
  fraction : List Char
  exponent : Option Int
  deriving DecidableEq, Repr

/-- Takes one digit or more. -/
def scanDigits : Scan (List Char) := fun text =>
  match text.takeWhile Char.isDigit with
  | [] => throw (.stuck text)
  | digits => pure (digits, text.dropWhile Char.isDigit)

/-- Takes the sign of a number, if there is one: whether it is a minus. -/
def scanMinus : Scan Bool
  | '-' :: rest => pure (true, rest)
  | text => pure (false, text)

/-- Takes a point and the digits behind it, if there is one. -/
def scanFraction : Scan (List Char)
  | '.' :: rest => scanDigits rest
  | text => pure ([], text)

/-- Takes the sign of an exponent, if there is one: whether it is a minus. -/
def scanSign : Scan Bool
  | '+' :: rest => pure (false, rest)
  | text => scanMinus text

/-- Takes an exponent, if there is one. -/
def scanExponent : Scan (Option Int) := fun text =>
  if text.head? = some 'e' ∨ text.head? = some 'E' then do
    let (negative, rest) ← scanSign text.tail
    let (digits, rest) ← scanDigits rest
    let n : Int := Decimal.value digits
    return (some (if negative then -n else n), rest)
  else pure (none, text)

/-- Takes a number. Its whole part has no leading zeros. -/
def scanNumeral : Scan Numeral := do
  let negative ← scanMinus
  let whole ← scanDigits
  if whole.head? = some '0' ∧ whole ≠ ['0'] then throw .malformed
  let fraction ← scanFraction
  let exponent ← scanExponent
  return { negative, whole, fraction, exponent }

end Multimap.Json
