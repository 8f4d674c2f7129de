import QueryFilter.Catalog
import QueryFilter.Fault
import QueryFilter.Text.Pieces

/-!
# Paths

A path such as `application.name` names an attribute by walking through schemas: its segments are
the texts between the points, and each segment but the last has to be a relation, whose target is
the schema of the next one. A path resolves to the chain of the attributes on the way. A path may
end at a relation only if that relation can be compared by itself, as an identifier.
-/

namespace QueryFilter

/-- The attributes on the way from a root schema to an attribute. -/
abbrev Chain := List Attribute

namespace Chain

/-- The names on the way. -/
def names (chain : Chain) : List String := chain.map Attribute.name

@[simp] theorem names_nil : names [] = [] := rfl

@[simp] theorem names_cons (a : Attribute) (chain : Chain) :
    names (a :: chain) = a.name :: names chain := rfl

@[simp] theorem length_names (chain : Chain) : chain.names.length = chain.length := by
  simp [names]

@[simp] theorem names_eq_nil_iff {chain : Chain} : chain.names = [] ↔ chain = [] := by
  simp [names]

@[simp] theorem mem_names {chain : Chain} {name : String} :
    name ∈ chain.names ↔ ∃ a ∈ chain, a.name = name := by
  simp [names]

/-- The path which walks along a chain. -/
def path (chain : Chain) : String := ".".intercalate chain.names

/-- A chain as structured data: its names. -/
def toData (chain : Chain) : Data := .list (chain.names.map .text)

/-- The attribute at the end of a chain. -/
def terminal? (chain : Chain) : Option Attribute := chain.getLast?

end Chain

namespace Path

/-- The segments of a path. -/
def segments (path : String) : List String := Text.split '.' path

/-- Where a walk stands: inside a schema, or behind an attribute which leads to none. -/
inductive Place where
  | inside (schema : String)
  | behind (name : String)

/-- The place behind an attribute. -/
def Place.after (a : Attribute) : Place :=
  match a.target with
  | some schema => .inside schema
  | none => .behind a.name

/-- The attribute which a segment names from a place. -/
def step (lookup : Lookup) (path : String) (place : Place) (segment : String) :
    Except QueryFault Attribute :=
  if segment = "" then .error (.malformedPath path .emptySegment)
  else
    match place with
    | .behind name => .error (.malformedPath path (.notTraversable name))
    | .inside schema =>
      match lookup schema segment with
      | none => .error (.unknownAttribute segment schema)
      | some a => .ok a

/-- The chain which segments name from a place, or the fault of the first one which names
nothing. -/
def walk (lookup : Lookup) (path : String) : Place → List String → Except QueryFault Chain
  | _, [] => .ok []
  | place, segment :: rest => do
    let a ← step lookup path place segment
    let chain ← walk lookup path (.after a) rest
    return a :: chain

/-- Whether a chain may end at an attribute. -/
def isComparable (a : Attribute) : Bool := !a.isRelation || a.type.kind = .identifier

/-- The chain which a path names from the root schema. -/
def resolve (lookup : Lookup) (root path : String) : Except QueryFault Chain := do
  let chain ← walk lookup path (.inside root) (segments path)
  match chain.terminal? with
  | some last =>
    if isComparable last then return chain
    else throw (.malformedPath path (.needsSubAttribute last.name))
  | none => return chain

end Path

/-! ### Keys of filters -/

/-- The key of a filter: a path, and whether each of its values is a filter of its own. -/
structure FilterKey where
  path : String
  independent : Bool
deriving DecidableEq

/-- The key which a parameter name writes. Brackets at the end, `[]`, make the values independent
and are no part of the path; only one pair is taken off. -/
def FilterKey.read (name : String) : FilterKey :=
  match ['[', ']'].isSuffixOf? name.toList with
  | some path => ⟨String.ofList path, true⟩
  | none => ⟨name, false⟩

end QueryFilter
