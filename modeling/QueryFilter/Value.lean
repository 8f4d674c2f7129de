import QueryFilter.Data
import QueryFilter.Date
import QueryFilter.Binary64.Layout

/-!
# Types and values

The types which a schema gives to its attributes, the values which inhabit them, and how a literal
of a request is read at a type. A literal is taken as it stands: no type trims blanks or ignores the
case of letters.
-/

namespace QueryFilter

/-- The kinds of types, which is what a message says of a type. -/
inductive Kind where
  | text
  | integer
  | decimal
  | boolean
  | date
  | enumeration
  | identifier
deriving DecidableEq

/-- The name of a kind. -/
def Kind.name : Kind → String
  | text => "text"
  | integer => "integer"
  | decimal => "decimal"
  | boolean => "boolean"
  | date => "date"
  | enumeration => "enumeration"
  | identifier => "identifier"

/-- The type of an attribute. Enumerations list their members; identifiers are integers if they are
numeric and texts otherwise. -/
inductive ValueType where
  | text
  | integer
  | decimal
  | boolean
  | date
  | enumeration (members : List String)
  | identifier (numeric : Bool)
deriving DecidableEq

/-- The kind of a type. -/
def ValueType.kind : ValueType → Kind
  | text => .text
  | integer => .integer
  | decimal => .decimal
  | boolean => .boolean
  | date => .date
  | enumeration _ => .enumeration
  | identifier _ => .identifier

/-- A typed value. -/
inductive Value where
  | text (s : String)
  | integer (n : Int)
  | decimal (x : Binary64)
  | boolean (b : Bool)
  | date (d : Date)
  | member (s : String)
deriving DecidableEq

namespace Value

/-- The text of a value for people. -/
def display : Value → String
  | text s => s
  | integer n => String.ofList (Numeral.writeSigned n)
  | decimal x => x.display
  | boolean b => if b then "true" else "false"
  | date d => d.display
  | member s => s

/-- A value as structured data: a tag and the content. -/
def toData : Value → Data
  | text s => .record [("t", .text "Text"), ("v", .text s)]
  | integer n => .record [("t", .text "Int"), ("v", .integer n)]
  | decimal x => .record [("t", .text "Float"), ("v", .decimal x)]
  | boolean b => .record [("t", .text "Bool"), ("v", .boolean b)]
  | date d => .record [("t", .text "Date"), ("v", .text d.display)]
  | member s => .record [("t", .text "Enum"), ("v", .text s)]

end Value

/-! ### Literals -/

/-- The truth value named by a literal. -/
def readBoolean? (literal : String) : Option Bool :=
  if literal = "true" then some true
  else if literal = "false" then some false
  else none

/-- The value of a type which a literal writes. -/
def ValueType.read? (type : ValueType) (literal : String) : Option Value :=
  match type with
  | text => some (.text literal)
  | integer => (Numeral.readInteger? literal.toList).map .integer
  | decimal => (Binary64.readFinite? literal.toList).map fun x => .decimal (.finite x)
  | boolean => (readBoolean? literal).map .boolean
  | date => (Date.read? literal.toList).map .date
  | enumeration members => if literal ∈ members then some (.member literal) else none
  | identifier true => (Numeral.readInteger? literal.toList).map .integer
  | identifier false => some (.text literal)

end QueryFilter
