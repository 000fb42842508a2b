import Multimap.Json.Number
import Multimap.Log

/-!
# Readers of JSON text

A reader takes a value from the start of a text, may log while it does, and either leaves the rest
of the text or stops with a fault; the first fault met is the one reported, and what was logged
before it stays logged. Blanks in front of a value are skipped.

`foldItems` goes through the items of an array or the members of an object. What a reader wants and
does not find is named by `refuse`.
-/

namespace Multimap.Json

/-- Takes an `α` from the start of a text and may log. -/
abbrev Reader (α : Type) := StateT (List Char) (ExceptT Fault Logged) α

namespace Reader

variable {α σ : Type}

/-- The reader that takes what a scan takes and logs nothing. -/
def ofScan (scan : Scan α) : Reader α := fun text => ExceptT.mk (pure (scan text))

/-- The reader that takes nothing and logs what `x` logs. -/
def ofLogged (x : Logged α) : Reader α := fun text => ExceptT.lift ((·, text) <$> x)

/-! ## Items between brackets -/

/-- Skips the comma that is due at the start of the text, and the blanks behind it; a further item
is then due as well. -/
def skipComma (close : Char) : Scan Unit
  | ',' :: rest =>
    match skipBlank rest with
    | [] => throw .ended
    | c :: rest => if c = close then throw .malformed else pure ((), c :: rest)
  | text => throw (.stuck text)

/-- Skips the colon behind the name of a member. -/
def skipColon : Scan Unit := fun text => scanWord [':'] (skipBlank text)

/-- Goes through items up to the bracket `close`, with what has come of them so far. Items are
separated by commas, of which none stands before the first. Every item takes some of the text, or
there would be no end to them. -/
def foldItems (close : Char) (item : σ → Reader σ) (first : Bool) (acc : σ) :
    Reader σ := fun text =>
  match skipBlank text with
  | [] => throw .ended
  | c :: rest =>
    if c = close then pure (acc, rest)
    else do
      let (_, start) ← ofScan (if first then pure () else skipComma close) (c :: rest)
      let (acc, left) ← item acc start
      if left.length < text.length then foldItems close item false acc left
      else throw .malformed
termination_by text => text.length
decreasing_by assumption

/-! ## Kinds of values -/

/-- Whether a number may start with the character. -/
def startsNumber (c : Char) : Bool := c = '-' || c.isDigit

/-- Takes a value of whatever kind: numbers, strings and words as a whole, of arrays and objects
only the bracket. -/
def scanFound : Scan Found
  | [] => throw .ended
  | c :: rest =>
    match c with
    | 'n' => do return (.null, (← scanWord "ull".toList rest).2)
    | 't' => do return (.boolean true, (← scanWord "rue".toList rest).2)
    | 'f' => do return (.boolean false, (← scanWord "alse".toList rest).2)
    | '[' => pure (.sequence, rest)
    | '{' => pure (.map, rest)
    | '"' => do
      let (characters, rest) ← scanString rest
      return (.string (String.ofList characters), rest)
    | _ =>
      if startsNumber c then do
        let (n, rest) ← scanNumber (c :: rest)
        match n with
        | .integer n => return (.integer n, rest)
        | .real x => return (.real x, rest)
      else throw .malformed

/-- Stops because what is there is not what is wanted. -/
def refuse (expected : Expected) : Scan α := do
  throw (.mismatch (.kind (← scanFound) expected))

/-- Takes a string. -/
def string : Scan String := fun text =>
  match skipBlank text with
  | '"' :: rest => do
    let (characters, rest) ← scanString rest
    return (String.ofList characters, rest)
  | text => refuse .string text

/-- Takes a number. -/
def number (expected : Expected) : Scan Number := fun text =>
  let text := skipBlank text
  if text.head?.any startsNumber then scanNumber text else refuse expected text

/-- Takes an integer of the given range. -/
def integer (expected : Expected) (least greatest : Int) : Scan Int := do
  (← number expected).toRange expected least greatest

/-- Takes `null`, which is an absent value, or a value. -/
def optional (value : Reader α) : Reader (Option α) := fun text =>
  match skipBlank text with
  | 'n' :: rest => (ofScan (scanWord "ull".toList) >>= fun _ => pure none) rest
  | text => (some <$> value) text

/-- Takes an array of values that may be absent. -/
def sequence (value : Reader α) : Reader (List (Option α)) := fun text =>
  match skipBlank text with
  | '[' :: rest => foldItems ']' (fun acc => return acc ++ [← optional value]) true [] rest
  | text => ofScan (refuse .sequence) text

/-- Takes an object; `member` takes one of its members, from the quotation mark of its name on. -/
def object (member : σ → Reader σ) (start : σ) : Reader σ := fun text =>
  match skipBlank text with
  | '{' :: rest => foldItems '}' member true start rest
  | text => ofScan (refuse .map) text

/-- Takes a whole text, of which only blanks are left. -/
def whole (reader : Reader α) (text : List Char) : Logged (Except Fault α) := do
  match ← reader text with
  | .ok (a, rest) => return if skipBlank rest = [] then .ok a else .error .malformed
  | .error e => return .error e

end Reader

end Multimap.Json
