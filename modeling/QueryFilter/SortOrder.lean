import QueryFilter.Path

/-!
# Sort orders

The order of results is asked for by two lists, one of paths and one of directions. The directions
repeat when there are fewer of them than paths, and without any all orders ascend.
-/

namespace QueryFilter

/-- Which way an order goes. -/
inductive Direction where
  | ascending
  | descending
deriving DecidableEq

namespace Direction

/-- The direction which a token names, whatever the case of its ASCII letters. -/
def read? (token : String) : Option Direction :=
  match String.ofList (token.toList.map Char.toLower) with
  | "asc" => some ascending
  | "desc" => some descending
  | _ => none

/-- The text of a direction for people. -/
def display : Direction → String
  | ascending => "ASC"
  | descending => "DESC"

/-- A direction as structured data. -/
def toData : Direction → Data
  | ascending => .text "asc"
  | descending => .text "desc"

end Direction

/-- An order by the attribute at the end of a chain. -/
structure SortOrder where
  chain : Chain
  direction : Direction
deriving DecidableEq

namespace SortOrder

/-- The text of an order for people. -/
def display (o : SortOrder) : String := s!"{o.chain.path} {o.direction.display}"

/-- An order as structured data. -/
def toData (o : SortOrder) : Data :=
  .record [("attributes", o.chain.toData), ("direction", o.direction.toData)]

/-! ### From raw values -/

/-- The items of raw values: the values themselves, or their pieces if there is a separator. -/
def items (separator : Option Char) (raws : List String) : List String :=
  match separator with
  | none => raws
  | some c => raws.flatMap (Text.split c)

@[simp] theorem items_none (raws : List String) : items none raws = raws := rfl

@[simp] theorem items_some (c : Char) (raws : List String) :
    items (some c) raws = raws.flatMap (Text.split c) := rfl

/-- The direction which an item names, or the fault that it names none. -/
def readDirection (item : String) : Except QueryFault Direction :=
  match Direction.read? item with
  | some d => .ok d
  | none => .error (.invalidDirection item)

/-- The direction at an index, with the list of directions repeated as often as needed. -/
def directionAt (directions : List Direction) (index : Nat) : Direction :=
  (directions[index % directions.length]?).getD .ascending

/-- The orders which raw sort values and raw directions make. The directions are checked first, all
of them and also the empty ones. Empty sort items are passed over and take no direction. -/
def ofRaws (lookup : Lookup) (root : String) (separator : Option Char)
    (sort directions : List String) : Except QueryFault (List SortOrder) := do
  let ds ← (items separator directions).mapM readDirection
  let fields := (items separator sort).filter (· ≠ "")
  let chains ← fields.mapM (Path.resolve lookup root)
  return chains.mapIdx fun i chain => ⟨chain, directionAt ds i⟩

end SortOrder

end QueryFilter
