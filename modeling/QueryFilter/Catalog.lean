import QueryFilter.Value
import Std.Data.TreeMap

/-!
# Catalogs of schemas

A catalog holds schemas by name, and a schema lists attributes. An attribute which points at another
schema is a relation, and a path of a request may go on behind it. A schema keeps its attributes in
the order in which their names first came, and finds them through an index from names to positions.
Requests see a catalog only as a `Lookup`: which attribute has this name on that schema?
-/

namespace QueryFilter

/-- An attribute of a schema. The target of a relation is the name of the schema behind it. -/
structure Attribute where
  name : String
  type : ValueType
  target : Option String
deriving DecidableEq

/-- Whether an attribute points at another schema. -/
def Attribute.isRelation (a : Attribute) : Bool := a.target.isSome

/-- How attributes are found: by the name of the schema and the name of the attribute. -/
abbrev Lookup := String → String → Option Attribute

/-- The attributes of one schema, with an index from names to positions. -/
structure Schema where
  attributes : Array Attribute := #[]
  positions : Std.TreeMap String Nat := {}

namespace Schema

/-- A schema with one more attribute. An attribute of the same name is replaced in its place. -/
def insert (s : Schema) (a : Attribute) : Schema :=
  match s.positions[a.name]? with
  | some i => { s with attributes := s.attributes.setIfInBounds i a }
  | none => ⟨s.attributes.push a, s.positions.insert a.name s.attributes.size⟩

/-- The attribute of a name. -/
def get? (s : Schema) (name : String) : Option Attribute :=
  s.positions[name]?.bind fun i => s.attributes[i]?

/-- The attributes in their order. -/
def toList (s : Schema) : List Attribute := s.attributes.toList

end Schema

/-- Schemas by name, in the order of their names. -/
structure Catalog where
  schemas : Std.TreeMap String Schema := {}

namespace Catalog

/-- The catalog without schemas. -/
def empty : Catalog := {}

/-- The schema of a name. -/
def schema? (c : Catalog) (name : String) : Option Schema := c.schemas[name]?

/-- A catalog in which a schema of this name is declared; one which is there stays as it is. -/
def declare (c : Catalog) (name : String) : Catalog :=
  ⟨c.schemas.insertIfNew name {}⟩

/-- A catalog with one more attribute on a schema, which is declared if need be. -/
def insert (c : Catalog) (schema : String) (a : Attribute) : Catalog :=
  ⟨c.schemas.insert schema (((c.schema? schema).getD {}).insert a)⟩

/-- The attribute of a name on a schema. -/
def resolve (c : Catalog) : Lookup := fun schema name =>
  (c.schema? schema).bind fun s => s.get? name

/-- The names of the schemas, in the order of their code points. -/
def names (c : Catalog) : List String := c.schemas.keys

/-- The schemas with their names. -/
def toList (c : Catalog) : List (String × Schema) := c.schemas.toList

end Catalog

end QueryFilter
