import QueryFilter.Catalog
import QueryFilter.Fault

/-!
# Valid catalogs

A catalog is valid if every attribute can be addressed by a path, every enumeration has a member and
every relation leads to a declared schema. Of several faults the first one counts: schemas in the
order of their names, attributes in the order of the schema, and for one attribute its name before
its members before its target.
-/

namespace QueryFilter

/-- A name by which a path can reach an attribute: it is not empty, has no point, which would end a
segment, and does not end in brackets, which would belong to the key. -/
structure Addressable (name : String) : Prop where
  ne_empty : name ≠ ""
  point_not_mem : '.' ∉ name.toList
  ne_brackets : ∀ path, name ≠ path ++ "[]"

/-- Whether a name is addressable. -/
def isAddressable (name : String) : Bool :=
  name != "" && !name.toList.contains '.' && !(['[', ']'].isSuffixOf name.toList)

namespace Catalog

/-- The fault of an attribute in a catalog, on the schema of this name. -/
def attributeFault? (c : Catalog) (schema : String) (a : Attribute) : Option SchemaFault :=
  if !isAddressable a.name then some (.invalidAttributeName schema a.name)
  else if a.type = .enumeration [] then some (.emptyEnumeration schema a.name)
  else
    match a.target with
    | some target =>
      if (c.schema? target).isNone then some (.unknownRelationTarget schema a.name target) else none
    | none => none

/-- The first fault of a catalog. -/
def fault? (c : Catalog) : Option SchemaFault :=
  c.toList.findSome? fun (name, schema) => schema.toList.findSome? (c.attributeFault? name)

/-- Accepts the valid catalogs and reports the first fault of the others. -/
def validate (c : Catalog) : Except SchemaFault Unit :=
  match c.fault? with
  | none => .ok ()
  | some f => .error f

end Catalog

end QueryFilter
