import QueryFilter.Data
import QueryFilter.Binary64.Layout

/-!
# JSON texts

Two ways to print structured data as JSON: `Json.compact`, without a blank, and `Json.indented`,
with one item or field on each line, two spaces deeper than the brackets around it. Fields keep
their order. A double which is infinite or no number has no JSON text and is printed as `null`.
-/

namespace QueryFilter.Json

/-! ### Scalars -/

/-- The hexadecimal digit of a number below sixteen, in lower case. -/
def hexDigit (n : Nat) : Char := Nat.digitChar n

/-- A character inside quotes. The quote and the backslash get a backslash before them; control
characters are written by a letter if they have one, and by four hexadecimal digits otherwise. -/
def escape (c : Char) : List Char :=
  if c = '\x22' then ['\\', '\x22']
  else if c = '\\' then ['\\', '\\']
  else if c = '\x08' then ['\\', 'b']
  else if c = '\x0c' then ['\\', 'f']
  else if c = '\n' then ['\\', 'n']
  else if c = '\r' then ['\\', 'r']
  else if c = '\t' then ['\\', 't']
  else if c.toNat < 0x20 then
    ['\\', 'u', '0', '0', hexDigit (c.toNat / 16), hexDigit (c.toNat % 16)]
  else [c]

/-- A text between quotes. -/
def quote (cs : List Char) : List Char := '\x22' :: cs.flatMap escape ++ ['\x22']

/-- A truth value. -/
def writeBoolean (b : Bool) : List Char := if b then "true".toList else "false".toList

/-- A double. -/
def writeDecimal : Binary64 → List Char
  | .finite x => Layout.json.write x
  | _ => "null".toList

/-! ### Compact texts -/

mutual

/-- A value without any blank between its parts. -/
def writeCompact : Data → List Char
  | .null => "null".toList
  | .boolean b => writeBoolean b
  | .integer n => Numeral.writeSigned n
  | .decimal x => writeDecimal x
  | .text s => quote s.toList
  | .list [] => ['[', ']']
  | .list (item :: items) => '[' :: writeCompact item ++ writeItems items
  | .record [] => ['{', '}']
  | .record ((name, value) :: fields) =>
    '{' :: quote name.toList ++ ':' :: writeCompact value ++ writeFields fields

/-- The items after the first one, and the closing bracket. -/
def writeItems : List Data → List Char
  | [] => [']']
  | item :: items => ',' :: writeCompact item ++ writeItems items

/-- The fields after the first one, and the closing brace. -/
def writeFields : List (String × Data) → List Char
  | [] => ['}']
  | (name, value) :: fields =>
    ',' :: quote name.toList ++ ':' :: writeCompact value ++ writeFields fields

end

/-- The compact text of a value. -/
def compact (d : Data) : String := String.ofList (writeCompact d)

/-! ### Indented texts -/

/-- The start of a line at a depth. -/
def newLine (depth : Nat) : List Char := '\n' :: List.replicate (2 * depth) ' '

mutual

/-- A value which starts at a depth, with each of its parts on a line one deeper. -/
def writeIndented (depth : Nat) : Data → List Char
  | .null => "null".toList
  | .boolean b => writeBoolean b
  | .integer n => Numeral.writeSigned n
  | .decimal x => writeDecimal x
  | .text s => quote s.toList
  | .list [] => ['[', ']']
  | .list (item :: items) =>
    '[' :: newLine (depth + 1) ++ writeIndented (depth + 1) item ++ indentItems depth items
  | .record [] => ['{', '}']
  | .record ((name, value) :: fields) =>
    '{' :: newLine (depth + 1) ++ quote name.toList ++ ':' :: ' ' ::
      writeIndented (depth + 1) value ++ indentFields depth fields

/-- The items after the first one, each on its line, and the closing bracket. -/
def indentItems (depth : Nat) : List Data → List Char
  | [] => newLine depth ++ [']']
  | item :: items =>
    ',' :: newLine (depth + 1) ++ writeIndented (depth + 1) item ++ indentItems depth items

/-- The fields after the first one, each on its line, and the closing brace. -/
def indentFields (depth : Nat) : List (String × Data) → List Char
  | [] => newLine depth ++ ['}']
  | (name, value) :: fields =>
    ',' :: newLine (depth + 1) ++ quote name.toList ++ ':' :: ' ' ::
      writeIndented (depth + 1) value ++ indentFields depth fields

end

/-- The indented text of a value. -/
def indented (d : Data) : String := String.ofList (writeIndented 0 d)

end QueryFilter.Json
