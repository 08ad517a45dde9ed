import Regimen.Decimal.Layout
import Regimen.Document.Value

/-!
# Values as text

The compact text of a value: no blanks, entries in their order, integers as digits, other numbers in
the compact layout of decimals. In a text only the quote, the backslash and the control characters
below the blank are escaped.
-/

namespace Regimen

/-- A hexadecimal digit, in lower case. -/
def hexDigit (n : Nat) : Char := (Nat.digitChar n)

/-- The characters that stand for one character between quotes. -/
def escaped (c : Char) : List Char :=
  match c with
  | '"' => ['\\', '"']
  | '\\' => ['\\', '\\']
  | '\x08' => ['\\', 'b']
  | '\x0c' => ['\\', 'f']
  | '\n' => ['\\', 'n']
  | '\r' => ['\\', 'r']
  | '\t' => ['\\', 't']
  | c => if c.toNat < 32 then ['\\', 'u', '0', '0', hexDigit (c.toNat / 16), hexDigit (c.toNat % 16)]
    else [c]

/-- A text between quotes. -/
def quoted (s : String) : String := "\"" ++ String.ofList (s.toList.flatMap escaped) ++ "\""

/-- The text of a number. -/
def Number.compact : Number → String
  | .integer n => toString n
  | .decimal x => Decimal.compact x

mutual

/-- The compact text of a value. -/
def Value.compact : Value → String
  | .null => "null"
  | .boolean b => if b then "true" else "false"
  | .number n => n.compact
  | .text s => quoted s
  | .list items => "[" ++ ",".intercalate (compactItems items) ++ "]"
  | .object entries => "\x7b" ++ ",".intercalate (compactEntries entries) ++ "\x7d"

/-- The texts of the values of a list. -/
def compactItems : List Value → List String
  | [] => []
  | v :: rest => v.compact :: compactItems rest

/-- The texts of the entries of an object. -/
def compactEntries : List (String × Value) → List String
  | [] => []
  | (k, v) :: rest => (quoted k ++ ":" ++ v.compact) :: compactEntries rest

end

end Regimen
