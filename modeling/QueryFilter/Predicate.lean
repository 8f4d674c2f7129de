import QueryFilter.Condition
import QueryFilter.Path

/-!
# Predicates

A predicate compares the attribute at the end of a chain with an operand. It comes from a parameter
of a request: one value makes one condition, several values under one key make one test for
membership, and a key in brackets makes one condition of each value.
-/

namespace QueryFilter

/-- What an attribute is compared with. -/
inductive Operand where
  | absent
  | single (v : Value)
  | many (vs : List Value)
deriving DecidableEq

namespace Operand

/-- The text of an operand for people. -/
def display : Operand → String
  | absent => ""
  | single v => v.display
  | many vs => "[" ++ ", ".intercalate (vs.map Value.display) ++ "]"

/-- An operand as structured data. -/
def toData : Operand → Data
  | absent => .null
  | single v => v.toData
  | many vs => .list (vs.map Value.toData)

end Operand

/-- A comparison of the attribute at the end of a chain with an operand. -/
structure Predicate where
  chain : Chain
  comparison : Comparison
  operand : Operand
deriving DecidableEq

namespace Predicate

/-- The attribute which a predicate is about, at the end of its chain. A predicate about the empty
chain is about none. -/
def attribute? (p : Predicate) : Option Attribute := p.chain.terminal?

/-- The text of a predicate for people: path, symbol, and the operand if there is one. -/
def display (p : Predicate) : String :=
  match p.operand with
  | .absent => s!"{p.chain.path} {p.comparison.symbol}"
  | operand => s!"{p.chain.path} {p.comparison.symbol} {operand.display}"

/-- A predicate as structured data. -/
def toData (p : Predicate) : Data :=
  .record [("attributes", p.chain.toData), ("comparator", p.comparison.toData),
    ("value", p.operand.toData)]

/-! ### From raw values -/

/-- The attribute at the end of a chain, or the fault that there is none. -/
def terminal (chain : Chain) : Except QueryFault Attribute :=
  match chain.terminal? with
  | some a => .ok a
  | none => .error (.malformedPath chain.path .noAttribute)

/-- The operand which a condition gives to the attribute at the end of a chain. A marker takes none
and asks nothing of the chain. -/
def operandOf (chain : Chain) (condition : Condition) : Except QueryFault Operand :=
  match condition.literal with
  | none => .ok .absent
  | some literal => do
    let last ← terminal chain
    let v ← last.type.coerce literal
    return .single v

/-- The predicate which a raw value makes about a chain. -/
def ofRaw (chain : Chain) (raw : String) : Except QueryFault Predicate := do
  let condition := Condition.read raw
  let operand ← operandOf chain condition
  return ⟨chain, condition.comparison, operand⟩

/-- The literal of a raw value which is to be a member. A marker has none, and is a literal of no
type. -/
def memberLiteral (kind : Kind) (raw : String) : Except QueryFault String :=
  match (Condition.read raw).literal with
  | some literal => .ok literal
  | none => .error (.coercion raw kind)

/-- The test for membership in the literals of several raw values. The comparisons before the
literals do not matter, and every value has to have a literal before the first one is coerced. -/
def ofMembers (chain : Chain) (raws : List String) : Except QueryFault Predicate := do
  let last ← terminal chain
  let literals ← raws.mapM (memberLiteral last.type.kind)
  let members ← last.type.coerceAll literals
  return ⟨chain, .oneOf, .many members⟩

/-- The predicates which one parameter makes: none without values, and otherwise as the key and the
number of values say. -/
def ofParameter (lookup : Lookup) (root name : String) (raws : List String) :
    Except QueryFault (List Predicate) :=
  if raws = [] then .ok []
  else do
    let key := FilterKey.read name
    let chain ← Path.resolve lookup root key.path
    if key.independent then raws.mapM (ofRaw chain)
    else
      match raws with
      | [raw] => return [← ofRaw chain raw]
      | _ => return [← ofMembers chain raws]

/-- A list of predicates with those of one more parameter behind it, and the fault if the parameter
makes none; the list is then as before. -/
def push (lookup : Lookup) (root : String) (out : List Predicate) (name : String)
    (raws : List String) : List Predicate × Except QueryFault Unit :=
  match ofParameter lookup root name raws with
  | .ok ps => (out ++ ps, .ok ())
  | .error f => (out, .error f)

/-- The predicates of several parameters in their order, or the fault of the first one which makes
none. -/
def ofParameters (lookup : Lookup) (root : String) (entries : List (String × List String)) :
    Except QueryFault (List Predicate) := do
  let groups ← entries.mapM fun (name, raws) => ofParameter lookup root name raws
  return groups.flatten

end Predicate

end QueryFilter
