import QueryFilter.Command.Invocation
import QueryFilter.Json
import QueryFilter.Query

/-!
# Reports

What a command answers, in both formats: as lines for people, whose parts may be coloured, and as
structured data. On lines, a title stands alone and everything under it is set in by two blanks.
-/

namespace QueryFilter.Command

/-! ### Colours -/

/-- The codes with which the parts of a line are coloured. -/
structure Palette where
  title : String
  key : String
  value : String
  accent : String
  muted : String

/-- Bright colours, for a dark background. -/
def Palette.dark : Palette := ⟨"1;36", "94", "37", "1;33", "90"⟩

/-- Dark colours, for a light background. -/
def Palette.light : Palette := ⟨"1;34", "35", "30", "1;31", "90"⟩

/-- The palette of a theme; none if the output is no terminal or is to stay plain. -/
def Theme.palette? (terminal : Bool) (t : Theme) : Option Palette :=
  match t with
  | plain => none
  | light => if terminal then some .light else none
  | dark | auto => if terminal then some .dark else none

/-- A text in the colour which a palette gives to it. -/
def paint (palette : Option Palette) (part : Palette → String) (s : String) : String :=
  match palette with
  | none => s
  | some p => s!"\x1b[{part p}m" ++ s ++ "\x1b[0m"

/-! ### Lines -/

/-- A line of a report. -/
inductive Line where
  | title (s : String)
  | row (key value : String)
  | comparison (key symbol operand : String)
  | nothing (what : String)
deriving DecidableEq

/-- The text of a line, with the line feed behind it. -/
def Line.write (palette : Option Palette) : Line → String
  | title s => paint palette Palette.title s ++ "\n"
  | row k v => "  " ++ paint palette Palette.key k ++ " " ++ paint palette Palette.value v ++ "\n"
  | comparison k s o =>
    "  " ++ paint palette Palette.key k ++ " " ++ paint palette Palette.accent s ++ " "
      ++ paint palette Palette.value o ++ "\n"
  | nothing what => paint palette Palette.muted s!"  (no {what})" ++ "\n"

/-- Lines, or one which says that there are none. -/
def orNothing (what : String) (lines : List Line) : List Line :=
  if lines = [] then [.nothing what] else lines

/-! ### Reports -/

/-- An answer in both formats. -/
structure Report where
  lines : List Line
  data : Data

/-- The text of a report. -/
def Report.write (format : Format) (palette : Option Palette) (r : Report) : String :=
  match format with
  | .text => String.join (r.lines.map (Line.write palette))
  | .json => Json.indented r.data ++ "\n"

/-- The line of a predicate. -/
def predicateLine (p : Predicate) : Line :=
  .comparison p.chain.path p.comparison.symbol p.operand.display

/-- The line of an order. -/
def orderLine (o : SortOrder) : Line := .row o.chain.path o.direction.display

/-- The report on a query. -/
def Report.ofQuery (q : Query) : Report where
  lines :=
    .title "Predicates" :: orNothing "predicates" (q.predicates.map predicateLine)
      ++ .title "Orders" :: orNothing "orders" (q.orders.map orderLine)
  data := q.toData

/-- The report on a predicate. -/
def Report.ofPredicate (p : Predicate) : Report where
  lines := [predicateLine p]
  data := p.toData

/-- The report on a condition. -/
def Report.ofCondition (c : Condition) : Report where
  lines := [.row "comparator" c.comparison.symbol, .row "literal" (c.literal.getD "(none)")]
  data := .record [("comparator", .text c.comparison.symbol),
    ("literal", match c.literal with
      | some s => .text s
      | none => .null)]

/-- The line of an attribute: its kind, and where it leads if it is a relation. -/
def attributeLine (a : Attribute) : Line :=
  .row a.name (match a.target with
    | some target => s!"{a.type.kind.name} -> {target}"
    | none => a.type.kind.name)

/-- An attribute as structured data. Targets and members are left out where there are none. -/
def attributeData (a : Attribute) : Data :=
  let relation := match a.target with
    | some target => [("relation", Data.text target)]
    | none => []
  let members := match a.type with
    | .enumeration [] => []
    | .enumeration ms => [("members", Data.list (ms.map .text))]
    | _ => []
  .record ([("name", .text a.name), ("kind", .text a.type.kind.name)] ++ relation ++ members)

/-- The report on schemas with their names. -/
def Report.ofSchemas (schemas : List (String × Schema)) : Report where
  lines := schemas.flatMap fun (name, s) =>
    .title name :: orNothing "attributes" (s.toList.map attributeLine)
  data := .list (schemas.map fun (name, s) =>
    .record [("name", .text name), ("attributes", .list (s.toList.map attributeData))])

end QueryFilter.Command
