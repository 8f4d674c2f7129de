import QueryFilter.Data

/-!
# Conventions

Which parameters of a request are not filters: those which ask for an order, and those which are
passed over, such as pagination. Conventions also say whether several sort fields may be joined in
one value, and by which separator.
-/

namespace QueryFilter

/-- The names of the reserved parameters, and the separator of joined values. -/
structure Conventions where
  sortKey : String := "sort"
  directionKey : String := "direction"
  ignoredKeys : List String := ["page", "per_page"]
  listSeparator : Option Char := some ','
deriving DecidableEq

namespace Conventions

/-- Whether a parameter of this name is no filter. -/
def isReserved (c : Conventions) (name : String) : Bool :=
  name = c.sortKey || name = c.directionKey || c.ignoredKeys.contains name

/-- The conventions as structured data. -/
def toData (c : Conventions) : Data :=
  .record [("sort_key", .text c.sortKey), ("direction_key", .text c.directionKey),
    ("ignored_keys", .list (c.ignoredKeys.map .text)),
    ("list_separator", match c.listSeparator with
      | some sep => .text (String.singleton sep)
      | none => .null)]

/-! ### From structured data -/

/-- The character of a text which is a single one. -/
def character? (d : Data) : Option Char :=
  match d.text?.map String.toList with
  | some [c] => some c
  | _ => none

/-- The separator which a value names: a single character, or none. -/
def separator? : Data → Option (Option Char)
  | .null => some none
  | d => (character? d).map some

/-- What a field says, or the default of a field which is not there; none if the field has the wrong
shape. -/
def fieldOr {α : Type} (default : α) (read? : Data → Option α) : Option Data → Option α
  | none => some default
  | some d => read? d

/-- The conventions which structured data states. Fields which are not there take their defaults,
and unknown ones are passed over. -/
def ofData? (d : Data) : Option Conventions := do
  let fields ← d.fields? ["sort_key", "direction_key", "ignored_keys", "list_separator"]
  let usual : Conventions := {}
  match fields with
  | [sort, dir, ignored, separator] =>
    return {
      sortKey := ← fieldOr usual.sortKey Data.text? sort
      directionKey := ← fieldOr usual.directionKey Data.text? dir
      ignoredKeys := ← fieldOr usual.ignoredKeys Data.texts? ignored
      listSeparator := ← fieldOr usual.listSeparator separator? separator }
  | _ => none

end Conventions

end QueryFilter
