import Regimen.Document.Value
import Regimen.Text

/-!
# Reading documents

A document is read in one pass over its characters. Two machines stand one behind the other. The
first gathers characters into marks: punctuation, texts and plain values. The second nests the marks:
it keeps the lists and objects that are still open, innermost first, and knows what may come next.
Both are steps folded over the text, so every text is read to its end or refused.

What is refused: raw control characters, unknown escapes and unpaired surrogates in a text, numbers
that exceed the greatest binary64 number, nesting deeper than `maxDepth`, and anything after the
document but blanks.
-/

namespace Regimen

/-- How deep lists and objects may be nested. -/
def maxDepth : Nat := 127

/-! ### Numbers -/

namespace Number

/-- The binary64 number nearest to `mantissa * 10 ^ exponent`, unless it exceeds the greatest. The
first two tests only keep the powers of ten small: beyond them the number is certainly too great, or
certainly rounds to zero. -/
def scaled? (mantissa : Nat) (exponent : Int) : Option Float :=
  let magnitude := (Nat.toDigits 10 mantissa).length + exponent
  if mantissa = 0 ∨ magnitude < -400 then some 0.0
  else if 400 < magnitude then none
  else
    let x := Float.ofScientific mantissa (exponent < 0) exponent.natAbs
    if x.isFinite then some x else none

/-- The digits before the point: a zero alone, or a run that does not start with one. -/
def whole? (cs : List Char) : Option (List Char × List Char) :=
  match cs.span Char.isDigit with
  | ([], _) => none
  | ('0' :: _ :: _, _) => none
  | parts => some parts

/-- The digits after the point, none when there is no point. -/
def fraction? : List Char → Option (List Char × List Char)
  | '.' :: cs => match cs.span Char.isDigit with
    | ([], _) => none
    | parts => some parts
  | cs => some ([], cs)

/-- The digits of an exponent, to the end. -/
def exponentDigits? (cs : List Char) : Option Nat :=
  if Text.IsDigits cs then some (Text.ofDigits cs) else none

/-- The exponent, to the end; none when there is no mark of one. -/
def exponent? : List Char → Option (Option Int)
  | [] => some none
  | e :: cs => if e = 'e' ∨ e = 'E' then
      match cs with
      | '+' :: ds => (exponentDigits? ds).map fun n => some (n : Int)
      | '-' :: ds => (exponentDigits? ds).map fun n => some (-n : Int)
      | ds => (exponentDigits? ds).map fun n => some (n : Int)
    else none

/-- The magnitude with its sign. -/
def decimalOf (negative : Bool) (magnitude : Float) : Number :=
  .decimal (if negative then -magnitude else magnitude)

/-- The number that a run of characters writes. Without a fraction and an exponent it is an integer
if it lies between `-2 ^ 63` and `2 ^ 64 - 1`, except that the negative zero is none. -/
def ofLexeme? (lexeme : List Char) : Option Number := do
  let (negative, cs) := match lexeme with
    | '-' :: cs => (true, cs)
    | cs => (false, cs)
  let (whole, cs) ← whole? cs
  let (fraction, cs) ← fraction? cs
  let exponent ← exponent? cs
  let mantissa := Text.ofDigits (whole ++ fraction)
  if fraction = [] ∧ exponent = none ∧ ¬(negative ∧ mantissa = 0)
      ∧ mantissa ≤ (if negative then Nat.pow 2 63 else maxCount) then
    return .integer (if negative then -mantissa else mantissa)
  else
    return decimalOf negative (← scaled? mantissa (exponent.getD 0 - fraction.length))

end Number

/-! ### Marks -/

/-- What the characters of a document are gathered into. -/
inductive Mark where
  /-- A list starts. -/
  | openList
  /-- A list ends. -/
  | closeList
  /-- An object starts. -/
  | openObject
  /-- An object ends. -/
  | closeObject
  /-- Another item or entry follows. -/
  | comma
  /-- The value of a key follows. -/
  | colon
  /-- A text, which is a value or a key. -/
  | text (s : String)
  /-- A value that is neither a text nor nested. -/
  | plain (v : Value)

namespace Mark

/-- The value that a run of characters outside of quotes writes. -/
def ofBare? (cs : List Char) : Option Value :=
  if cs = "true".toList then some (.boolean true)
  else if cs = "false".toList then some (.boolean false)
  else if cs = "null".toList then some .null
  else (Number.ofLexeme? cs).map .number

/-- The mark that a character makes by itself. -/
def ofChar? : Char → Option Mark
  | '[' => some .openList
  | ']' => some .closeList
  | '\x7b' => some .openObject
  | '\x7d' => some .closeObject
  | ',' => some .comma
  | ':' => some .colon
  | _ => none

end Mark

/-! ### Nesting -/

/-- A list or an object that is still open and waits for a value. -/
inductive Frame where
  /-- The items of a list so far. -/
  | list (items : List Value)
  /-- The entries of an object so far and the key of the value that comes. -/
  | object (entries : Entries) (key : String)

/-- What may come next, with the open lists and objects, innermost first. -/
inductive Nesting where
  /-- A value. -/
  | value (stack : List Frame)
  /-- A value, or the end of the list that has just started. -/
  | firstItem (stack : List Frame)
  /-- A key, or the end of the object that has just started. -/
  | firstKey (stack : List Frame)
  /-- A key of an object that holds entries already. -/
  | key (entries : Entries) (stack : List Frame)
  /-- The colon after a key. -/
  | colon (entries : Entries) (key : String) (stack : List Frame)
  /-- A comma or an end: a value is complete. -/
  | after (v : Value) (stack : List Frame)

namespace Nesting

/-- A mark where a value is expected. -/
def start? (stack : List Frame) : Mark → Option Nesting
  | .plain v => some (.after v stack)
  | .text s => some (.after (.text s) stack)
  | .openList => if stack.length < maxDepth then some (.firstItem stack) else none
  | .openObject => if stack.length < maxDepth then some (.firstKey stack) else none
  | _ => none

/-- One mark more. -/
def step? : Nesting → Mark → Option Nesting
  | .value stack, m => start? stack m
  | .firstItem stack, .closeList => some (.after (.list []) stack)
  | .firstItem stack, m => start? (.list [] :: stack) m
  | .firstKey stack, .closeObject => some (.after (.object []) stack)
  | .firstKey stack, .text s => some (.colon [] s stack)
  | .key entries stack, .text s => some (.colon entries s stack)
  | .colon entries k stack, .colon => some (.value (.object entries k :: stack))
  | .after v (.list items :: stack), .comma => some (.value (.list (items ++ [v]) :: stack))
  | .after v (.list items :: stack), .closeList => some (.after (.list (items ++ [v])) stack)
  | .after v (.object entries k :: stack), .comma => some (.key (entries.put k v) stack)
  | .after v (.object entries k :: stack), .closeObject =>
    some (.after (.object (entries.put k v)) stack)
  | _, _ => none

/-- The document, once it is complete. -/
def value? : Nesting → Option Value
  | .after v [] => some v
  | _ => none

end Nesting

/-! ### Characters -/

/-- The mark that the characters are being gathered into; gathered characters stand last first. -/
inductive Pending where
  /-- None. -/
  | idle
  /-- A value outside of quotes. -/
  | bare (cs : List Char)
  /-- A text between quotes. -/
  | text (cs : List Char)
  /-- A text after a backslash. -/
  | escape (cs : List Char)
  /-- A text within the four digits of an escaped code unit; `high` is the leading surrogate that
  stands before it. -/
  | unit (cs : List Char) (high : Option Nat) (digits : List Nat)
  /-- A text after a leading surrogate; a backslash has to follow. -/
  | pair (cs : List Char) (high : Nat)
  /-- A text after a leading surrogate and a backslash; the mark of a code unit has to follow. -/
  | pairEscape (cs : List Char) (high : Nat)

/-- The characters that separate marks. -/
def isSeparator (c : Char) : Bool := c = ' ' || c = '\t' || c = '\n' || c = '\r'

/-- The characters that values outside of quotes are made of. -/
def isBare (c : Char) : Bool := c.isAlphanum || c = '+' || c = '-' || c = '.'

/-- The value of a hexadecimal digit. -/
def hexValue? (c : Char) : Option Nat :=
  if c.isDigit then some (c.toNat - '0'.toNat)
  else if 'a' ≤ c ∧ c ≤ 'f' then some (c.toNat - 'a'.toNat + 10)
  else if 'A' ≤ c ∧ c ≤ 'F' then some (c.toNat - 'A'.toNat + 10)
  else none

/-- The character that an escape of one letter stands for. -/
def unescape? : Char → Option Char
  | '"' => some '"'
  | '\\' => some '\\'
  | '/' => some '/'
  | 'b' => some '\x08'
  | 'f' => some '\x0c'
  | 'n' => some '\n'
  | 'r' => some '\r'
  | 't' => some '\t'
  | _ => none

/-- A text that continues after a code unit. A leading surrogate waits for its partner; each of the
two is refused without the other. -/
def Pending.afterUnit? (cs : List Char) (high : Option Nat) (code : Nat) : Option Pending :=
  let leading := 0xD800 ≤ code ∧ code < 0xDC00
  let trailing := 0xDC00 ≤ code ∧ code < 0xE000
  match high with
  | none =>
    if leading then some (.pair cs code)
    else if trailing then none
    else some (.text (Char.ofNat code :: cs))
  | some h =>
    if trailing then
      some (.text (Char.ofNat (0x10000 + (h - 0xD800) * 0x400 + (code - 0xDC00)) :: cs))
    else none

/-- A document that is read in part. -/
structure Reader where
  /-- The mark that is being gathered. -/
  pending : Pending
  /-- The nesting of the marks that are complete. -/
  nesting : Nesting

namespace Reader

/-- Nothing is read yet. -/
def start : Reader := ⟨.idle, .value []⟩

/-- A mark is complete. -/
def mark? (r : Reader) (m : Mark) : Option Reader :=
  (r.nesting.step? m).map fun nesting => ⟨.idle, nesting⟩

/-- A value outside of quotes is complete. -/
def bare? (r : Reader) (cs : List Char) : Option Reader := do
  r.mark? (.plain (← Mark.ofBare? cs.reverse))

/-- A character between marks. -/
def between? (r : Reader) (c : Char) : Option Reader :=
  if isSeparator c then some { r with pending := .idle }
  else if c = '"' then some { r with pending := .text [] }
  else if isBare c then some { r with pending := .bare [c] }
  else (Mark.ofChar? c).bind r.mark?

/-- One character more. -/
def step? (r : Reader) (c : Char) : Option Reader :=
  match r.pending with
  | .idle => r.between? c
  | .bare cs =>
    if isBare c then some { r with pending := .bare (c :: cs) }
    else (r.bare? cs).bind (·.between? c)
  | .text cs =>
    if c = '"' then r.mark? (.text (String.ofList cs.reverse))
    else if c = '\\' then some { r with pending := .escape cs }
    else if c.toNat < 32 then none
    else some { r with pending := .text (c :: cs) }
  | .escape cs =>
    if c = 'u' then some { r with pending := .unit cs none [] }
    else (unescape? c).map fun e => { r with pending := .text (e :: cs) }
  | .unit cs high digits => do
    let digits := digits ++ [← hexValue? c]
    if digits.length < 4 then
      return { r with pending := .unit cs high digits }
    else
      return { r with pending := ← Pending.afterUnit? cs high (digits.foldl (16 * · + ·) 0) }
  | .pair cs high => if c = '\\' then some { r with pending := .pairEscape cs high } else none
  | .pairEscape cs high =>
    if c = 'u' then some { r with pending := .unit cs (some high) [] } else none

/-- The document, once the text has ended. -/
def finish? (r : Reader) : Option Value :=
  match r.pending with
  | .idle => r.nesting.value?
  | .bare cs => do (← r.bare? cs).nesting.value?
  | _ => none

end Reader

/-- The document that a text holds. -/
def Value.ofText? (text : String) : Option Value := do
  (← text.toList.foldlM Reader.step? Reader.start).finish?

end Regimen
