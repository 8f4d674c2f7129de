import QueryFilter.Toml.Scalar
import QueryFilter.Toml.Tree

/-!
# TOML documents

A document is a list of statements, one on a line or more: pairs, headers of tables, and headers of
elements of arrays. The pairs before the first header belong to the root table, and those behind a
header to its table. `Toml.read?` gives the document as a record, or nothing if the text is none.
-/

namespace QueryFilter.Toml

open Scanner

/-! ### Values -/

/-- An array of values, which may be spread over lines and may end in a comma. -/
def array (value : Scanner Data) : Scanner Data := do
  token ['[']
  let items ← separated (do blankLines; let d ← value; blankLines; return d) (token [','])
  if items ≠ [] then
    let _ ← optional? (token [','])
  blankLines
  token [']']
  return .list items

/-- A key and what it stands for, split into the path and the name. -/
def pairOf (parts : List String) (d : Data) : Scanner Pair :=
  match parts.getLast? with
  | some name => return ⟨parts.dropLast, name, d⟩
  | none => failure

/-- A table on one line. -/
def inlineTable (value : Scanner Data) : Scanner Data := do
  token ['{']
  let pairs ← separated (do
    let parts ← key
    token ['=']
    spaces
    let d ← value
    spaces
    pairOf parts d) (token [','])
  spaces
  token ['}']
  let entries ← ofOption (addPairs [] pairs)
  return .record (fieldsOf entries)

/-- A value with at most the given depth of arrays and tables. -/
def value : Nat → Scanner Data
  | 0 => scalar
  | depth + 1 => scalar <|> array (value depth) <|> inlineTable (value depth)

/-! ### Statements -/

/-- A statement of a document. -/
inductive Statement where
  | pair (p : Pair)
  | table (path : List String) (name : String)
  | element (path : List String) (name : String)

/-- A pair, up to the end of its last line. -/
def pair : Scanner Statement := do
  let parts ← key
  token ['=']
  spaces
  let d ← value (depthLimit - 1)
  restOfLine
  return .pair (← pairOf parts d)

/-- A header between brackets, up to the end of its line. -/
def header (opening closing : List Char) (make : List String → String → Statement) :
    Scanner Statement := do
  token opening
  let parts ← key
  token closing
  restOfLine
  match parts.getLast? with
  | some name => return make parts.dropLast name
  | none => failure

/-- A statement, or an empty line. -/
def statement : Scanner (Option Statement) := do
  let s ← (do comment; lineEnd; return none)
    <|> (do newLine; return none)
    <|> (some <$> header ['[', '['] [']', ']'] .element)
    <|> (some <$> header ['['] [']'] .table)
    <|> (some <$> pair)
  spaces
  return s

/-- All statements of a text. A byte order mark may stand in front. -/
def statements : Scanner (List Statement) := do
  let _ ← optional? (token ['\ufeff'])
  spaces
  let ss ← many statement
  finish
  return ss.filterMap id

/-! ### Documents -/

/-- A header with the pairs behind it, as a change of the root table. -/
abbrev Section := Entries → Option Entries

/-- The pairs before the first header, and the sections. -/
def sections : List Statement → List Pair × List Section
  | [] => ([], [])
  | s :: rest =>
    let (pairs, headed) := sections rest
    match s with
    | .pair p => (p :: pairs, headed)
    | .table path name => ([], addTable pairs path name :: headed)
    | .element path name => ([], addElement pairs path name :: headed)

/-- The root table which statements make, or nothing if two of them contradict each other. -/
def build (ss : List Statement) : Option Entries := do
  let (pairs, headed) := sections ss
  let root ← addPairs [] pairs
  headed.foldlM (fun entries add => add entries) root

/-- The record which a text writes. -/
def read? (text : String) : Option Data := do
  let (ss, _) ← statements text.toList
  let entries ← build ss
  return .record (fieldsOf entries)

end QueryFilter.Toml
