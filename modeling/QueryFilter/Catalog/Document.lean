import QueryFilter.Catalog.Validity
import QueryFilter.Text.Blank
import QueryFilter.Toml.Document

/-!
# Schema documents

A catalog is written as a TOML document with one table `schemas`, which holds a table for each
schema, which holds an entry for each attribute. An entry is the name of a type, or a table with the
name of the type, the target of a relation, the members of an enumeration and whether an identifier
is numeric. Schemas and attributes are taken in the order of their names, wherever they stand in the
document. The types of all attributes are read before the catalog as a whole is validated.
-/

namespace QueryFilter

/-- An attribute as a document declares it. -/
structure Declaration where
  type : String
  target : Option String := none
  members : List String := []
  numeric : Option Bool := none
deriving DecidableEq

namespace Declaration

/-- The name of a type as it is looked up: without blanks around it, in lower case. -/
def normalName (s : String) : String :=
  String.ofList ((Text.trim s.toList).map Char.toLower)

/-- The type which a declaration names. -/
def type? (d : Declaration) : Option ValueType :=
  match normalName d.type with
  | "text" | "string" => some .text
  | "integer" | "int" | "long" => some .integer
  | "decimal" | "float" | "double" => some .decimal
  | "boolean" | "bool" => some .boolean
  | "date" => some .date
  | "enumeration" | "enum" => some (.enumeration d.members)
  | "identifier" | "id" => some (.identifier (d.numeric.getD true))
  | _ => none

/-- The attribute which a declaration makes, on the schema of this name. -/
def toAttribute (schema name : String) (d : Declaration) : Except SchemaFault Attribute :=
  match d.type? with
  | some type => .ok ⟨name, type, d.target⟩
  | none => .error (.unsupportedType schema name d.type)

/-- What an optional field says; none if the field is there and has the wrong shape. -/
def optionalField? {α : Type} (read? : Data → Option α) : Option Data → Option (Option α)
  | none => some none
  | some d => (read? d).map some

/-- The declaration which a value of the document states. -/
def ofData? : Data → Option Declaration
  | .text type => some ⟨type, none, [], none⟩
  | .record fields => do
    let type ← (fields.lookup "type").bind Data.text?
    let target ← optionalField? Data.text? (fields.lookup "relation")
    let members ← optionalField? Data.texts? (fields.lookup "members")
    let numeric ← optionalField? Data.boolean? (fields.lookup "numeric")
    return ⟨type, target, members.getD [], numeric⟩
  | _ => none

end Declaration

namespace Catalog

/-- The declarations of a document, by schema and attribute, both in the order of their names. -/
abbrev Declarations := Std.TreeMap String (Std.TreeMap String Declaration)

/-- The fields of a record as a map, with each value read. -/
def fieldMap? {α : Type} (read? : Data → Option α) (d : Data) : Option (Std.TreeMap String α) := do
  let fields ← d.record?
  let pairs ← fields.mapM fun (name, value) => (read? value).map fun a => (name, a)
  return Std.TreeMap.ofList pairs

/-- The declarations which a document states. -/
def declarations? (d : Data) : Option Declarations := do
  let fields ← d.record?
  match fields.lookup "schemas" with
  | none => return {}
  | some schemas => fieldMap? (fieldMap? Declaration.ofData?) schemas

/-- A catalog with a schema of this name and the attributes which declarations make. -/
def addSchema (c : Catalog) (schema : String) (declared : List (String × Declaration)) :
    Except SchemaFault Catalog :=
  declared.foldlM (fun c (name, d) => return c.insert schema (← d.toAttribute schema name))
    (c.declare schema)

/-- The valid catalog which declarations make, or its first fault; an unknown type comes before all
other faults. -/
def ofDeclarations (ds : Declarations) : Except SchemaFault Catalog := do
  let c ← ds.toList.foldlM (fun c (schema, declared) => c.addSchema schema declared.toList) empty
  c.validate
  return c

/-- The catalog which a text writes. -/
def ofDocument (text : String) : Except SchemaFault Catalog :=
  match (Toml.read? text).bind declarations? with
  | some ds => ofDeclarations ds
  | none => .error .malformedDocument

end Catalog

end QueryFilter
