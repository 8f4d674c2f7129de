import QueryFilter.Toml.Scanner

/-!
# Blanks, strings and keys

The lexical level of TOML 1.0: blanks, line ends and comments; the four kinds of strings; and keys,
which are bare words or strings, joined by points.
-/

namespace QueryFilter.Toml

open Scanner

/-! ### Blanks -/

/-- Whether a character is a blank within a line. -/
def isSpace (c : Char) : Bool := c = ' ' || c = '\t'

/-- Whether a character is a tab, or printable, or outside the ASCII range. -/
def isPrintable (c : Char) : Bool :=
  c = '\t' || (decide (0x20 ≤ c.toNat) && c.toNat != 0x7F)

/-- The blanks at the front. -/
def spaces : Scanner Unit := do
  let _ ← run isSpace

/-- A line end: a line feed, which a carriage return may precede. -/
def newLine : Scanner Unit := token ['\n'] <|> token ['\r', '\n']

/-- A comment, up to the end of its line. -/
def comment : Scanner Unit := do
  token ['#']
  let _ ← run isPrintable

/-- A line end, or the end of the text. -/
def lineEnd : Scanner Unit := newLine <|> finish

/-- What may follow on a line after its content. -/
def restOfLine : Scanner Unit := do
  spaces
  let _ ← optional? comment
  lineEnd

/-- Blanks, comments and line ends, where a value may be spread over lines. -/
def blankLines : Scanner Unit := do
  let _ ← many ((do let _ ← run1 isSpace) <|> newLine <|> (do comment; newLine))

/-! ### Strings -/

/-- Whether a character stands for itself between quotes. -/
def isBasic (c : Char) : Bool := isPrintable c && c != '\x22' && c != '\\'

/-- Whether a character stands for itself between apostrophes. -/
def isLiteral (c : Char) : Bool := isPrintable c && c != '\x27'

/-- Whether a character is a hexadecimal digit. -/
def isHexDigit (c : Char) : Bool :=
  c.isDigit || (decide ('a' ≤ c) && decide (c ≤ 'f')) || (decide ('A' ≤ c) && decide (c ≤ 'F'))

/-- The number which a hexadecimal digit stands for. -/
def hexValue (c : Char) : Nat :=
  if c.isDigit then c.toNat - '0'.toNat
  else if 'a' ≤ c then c.toNat - 'a'.toNat + 10
  else c.toNat - 'A'.toNat + 10

/-- The number which a run of digits writes in a base. -/
def numberIn (base : Nat) (digits : List Char) : Nat :=
  digits.foldl (fun n c => base * n + hexValue c) 0

/-- The character whose code point is given by `n` hexadecimal digits. -/
def codePoint (n : Nat) : Scanner Char := do
  let code := numberIn 16 (← exactly n isHexDigit)
  if code.isValidChar then return Char.ofNat code else failure

/-- The character which stands behind a backslash. -/
def escapeCode : Scanner Char := do
  match ← character fun _ => true with
  | 'b' => return '\x08'
  | 'f' => return '\x0c'
  | 'n' => return '\n'
  | 'r' => return '\r'
  | 't' => return '\t'
  | '\\' => return '\\'
  | '\x22' => return '\x22'
  | 'u' => codePoint 4
  | 'U' => codePoint 8
  | _ => failure

/-- A character written by a backslash and a code. -/
def escaped : Scanner (List Char) := do
  token ['\\']
  return [← escapeCode]

/-- A string between quotes. -/
def basicString : Scanner (List Char) := do
  token ['\x22']
  let parts ← many (run1 isBasic <|> escaped)
  token ['\x22']
  return parts.flatten

/-- A string between apostrophes. -/
def literalString : Scanner (List Char) := do
  token ['\x27']
  let cs ← run isLiteral
  token ['\x27']
  return cs

/-- A backslash at the end of a line, with the blanks and line ends behind it; it stands for
nothing. -/
def continuation : Scanner (List Char) := do
  token ['\\']
  spaces
  newLine
  let _ ← many ((do let _ ← run1 isSpace) <|> newLine)
  return []

/-- A line end within a string, which stands for a line feed. -/
def lineFeed : Scanner (List Char) := do
  newLine
  return ['\n']

/-- One or two delimiters, with something behind them. -/
def fewDelimiters (delimiter : Char) (next : Scanner Unit) : Scanner (List Char) :=
  (do token [delimiter, delimiter]; ahead next; return [delimiter, delimiter])
    <|> (do token [delimiter]; ahead next; return [delimiter])

/-- A string between triple delimiters. A line end right after the first ones is left out. One or
two delimiters may stand within the string, also at its end. -/
def tripleString (delimiter : Char) (content : Scanner (List Char)) : Scanner (List Char) := do
  let triple := [delimiter, delimiter, delimiter]
  let other : Scanner Unit := do let _ ← character (· != delimiter)
  token triple
  let _ ← optional? newLine
  let first ← many content
  let more ← many do
    let delimiters ← fewDelimiters delimiter other
    let part ← content
    return delimiters ++ part ++ (← many content).flatten
  let last ← optional? (fewDelimiters delimiter (token triple))
  token triple
  return first.flatten ++ more.flatten ++ last.getD []

/-- A string of any kind. -/
def string : Scanner (List Char) :=
  tripleString '\x22' (run1 isBasic <|> continuation <|> escaped <|> lineFeed)
    <|> basicString
    <|> tripleString '\x27' (run1 isLiteral <|> lineFeed)
    <|> literalString

/-! ### Keys -/

/-- Whether a character may stand in a bare key. -/
def isBare (c : Char) : Bool := c.isAlphanum || c = '-' || c = '_'

/-- One part of a key. -/
def keyPart : Scanner String := do
  spaces
  let cs ← basicString <|> literalString <|> run1 isBare
  spaces
  return String.ofList cs

/-- The depth at which keys and values are refused. -/
def depthLimit : Nat := 80

/-- The parts of a key, with points between them. -/
def key : Scanner (List String) :=
  filtered (separated1 keyPart (token ['.'])) fun parts => decide (parts.length < depthLimit)

end QueryFilter.Toml
