import QueryFilter.Data

/-!
# Conditions

A raw value of a request is a comparison and the literal to compare with, written one after the
other: `>=10` asks for at least ten. A value which starts with no comparison is compared for
equality as a whole. Three comparisons are markers, which ask about presence and take no literal.
-/

namespace QueryFilter

/-- How an attribute is compared. -/
inductive Comparison where
  | equal
  | equalIgnoringCase
  | notEqual
  | greater
  | greaterOrEqual
  | less
  | lessOrEqual
  | present
  | notNull
  | null
  | oneOf
deriving DecidableEq

namespace Comparison

/-- The written form of a comparison. -/
def symbol : Comparison → String
  | equal => "=="
  | equalIgnoringCase => "=*"
  | notEqual => "<>"
  | greater => ">"
  | greaterOrEqual => ">="
  | less => "<"
  | lessOrEqual => "<="
  | present => "∃"
  | notNull => "!∅"
  | null => "∅"
  | oneOf => "*"

/-- Whether a comparison takes no literal. -/
def isUnary : Comparison → Bool
  | present | notNull | null => true
  | _ => false

/-- A comparison as structured data. -/
def toData (c : Comparison) : Data := .text c.symbol

/-- The tokens which may start a value. A token stands before every token which it extends. -/
def tokens : List (String × Comparison) :=
  [("<=", lessOrEqual), (">=", greaterOrEqual), ("<>", notEqual), ("=*", equalIgnoringCase),
   ("==", equal), ("=", equal), ("<", less), (">", greater), ("∃", present), ("!∅", notNull),
   ("∅", null)]

end Comparison

/-- A comparison with the literal to compare with, if it takes one. -/
structure Condition where
  comparison : Comparison
  literal : Option String
deriving DecidableEq

namespace Condition

/-- The condition which a token makes with the text behind it. -/
def ofToken (c : Comparison) (rest : List Char) : Condition :=
  ⟨c, if c.isUnary then none else some (String.ofList rest)⟩

/-- The condition which a raw value writes: that of the first token which the value starts with. -/
def read (raw : String) : Condition :=
  let first? := Comparison.tokens.findSome? fun (token, c) =>
    (token.toList.isPrefixOf? raw.toList).map (ofToken c)
  first?.getD ⟨.equal, some raw⟩

end Condition

end QueryFilter
