import QueryFilter.Value

/-!
# Faults

The causes for which a request or a schema is refused, and their wording. A fault carries the parts
of the input which it is about, and the message shows them as they were written.
-/

namespace QueryFilter

/-- Why a path is malformed. -/
inductive PathFault where
  /-- Two points stand together, or one stands at an end. -/
  | emptySegment
  /-- The path goes on behind an attribute which leads to no schema. -/
  | notTraversable (name : String)
  /-- The path ends at a relation which cannot be compared by itself. -/
  | needsSubAttribute (name : String)
  /-- There is no attribute to compare. -/
  | noAttribute
  /-- A reason given in words. -/
  | stated (reason : String)
deriving DecidableEq

/-- The wording of a path fault. -/
def PathFault.reason : PathFault → String
  | emptySegment => "empty path segment"
  | notTraversable name => s!"'{name}' is not a relation and cannot be traversed"
  | needsSubAttribute name => s!"relation '{name}' needs a sub-attribute"
  | noAttribute => "path resolves to no attribute"
  | stated reason => reason

/-- Why a request is refused. -/
inductive QueryFault where
  | unknownAttribute (segment schema : String)
  | coercion (literal : String) (kind : Kind)
  | invalidDirection (token : String)
  | malformedPath (path : String) (fault : PathFault)
deriving DecidableEq

namespace QueryFault

/-- A short name of the cause, the same for all faults of one kind. -/
def code : QueryFault → String
  | unknownAttribute .. => "UnknownAttribute"
  | coercion .. => "CoercionError"
  | invalidDirection .. => "InvalidDirection"
  | malformedPath .. => "MalformedPath"

/-- The wording of a fault. -/
def message : QueryFault → String
  | unknownAttribute segment schema => s!"unknown attribute '{segment}' on schema '{schema}'"
  | coercion literal kind => s!"cannot coerce '{literal}' to {kind.name}"
  | invalidDirection token => s!"direction '{token}' must be 'asc' or 'desc'"
  | malformedPath path fault => s!"malformed path '{path}': {fault.reason}"

/-- The wording with its code in front. -/
def coded (f : QueryFault) : String := s!"[{f.code}] {f.message}"

end QueryFault

/-- Why a schema document or a catalog is refused. -/
inductive SchemaFault where
  | unsupportedType (schema name type : String)
  | unknownRelationTarget (schema name target : String)
  | emptyEnumeration (schema name : String)
  | invalidAttributeName (schema name : String)
  /-- The text is no document, or no document of schemas. -/
  | malformedDocument
deriving DecidableEq

/-- The wording of a schema fault. -/
def SchemaFault.message : SchemaFault → String
  | unsupportedType schema name type =>
    s!"attribute '{schema}.{name}' has unsupported type '{type}'"
  | unknownRelationTarget schema name target =>
    s!"relation '{schema}.{name}' targets unknown schema '{target}'"
  | emptyEnumeration schema name => s!"enumeration '{schema}.{name}' declares no members"
  | invalidAttributeName schema name =>
    s!"attribute name '{name}' on schema '{schema}' is not addressable"
  | malformedDocument => "failed to parse schema document: TOML parse error"

/-- The value of a type which a literal writes, or the fault that it writes none. -/
def ValueType.coerce (type : ValueType) (literal : String) : Except QueryFault Value :=
  match type.read? literal with
  | some v => .ok v
  | none => .error (.coercion literal type.kind)

/-- The values of a type which several literals write, or the fault of the first one which writes
none. -/
def ValueType.coerceAll (type : ValueType) (literals : List String) :
    Except QueryFault (List Value) :=
  literals.mapM type.coerce

end QueryFilter
