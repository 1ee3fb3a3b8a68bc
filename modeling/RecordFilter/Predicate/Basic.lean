import RecordFilter.Identifier
import RecordFilter.Record.Attribute

/-! # Predicates

A level is a sequence of predicates, each but the last linked to the next one. A predicate is a
condition or a group, which is a level in itself. Trees built by hand can hold foreign values in
place of a node or of a whole predicate. -/

namespace RecordFilter

/-- A comparison of the field at a path with a literal. -/
structure Condition where
  identifier : String
  comparison : Comparison
  literal : Literal

mutual

/-- What a predicate asks. -/
inductive Node where
  | condition (c : Condition)
  | group (members : List Predicate)
  /-- A value that is no node. -/
  | foreign (v : Value)

/-- A node with its link to the next predicate of its level. -/
inductive Predicate where
  | linked (node : Node) (link : Option Connective)
  /-- A value that is no predicate. -/
  | foreign (v : Value)

end

instance : Inhabited Node := ⟨.foreign .null⟩
instance : Inhabited Predicate := ⟨.foreign .null⟩

/-- What links an element of a level to the next one. -/
inductive Link where
  | none
  | connective (c : Connective)
  /-- A foreign element can be linked by a value of any kind. -/
  | foreign (v : Value)

namespace Condition

/-- The condition with an operator given as text and a plain value. -/
def ofText (identifier operator : String) (v : Value) : Except Failure Condition :=
  match Comparison.ofText? operator with
  | some comparison => do return ⟨identifier, comparison, ← Literal.ofValue v⟩
  | none => .error (.query (.unsupportedOperator operator) none)

def path (c : Condition) : List String := Identifier.path c.identifier

end Condition

namespace Link

def ofOption : Option Connective → Link
  | some c => connective c
  | .none => none

/-- The text of a link that leads nowhere, as far as it has one. -/
def danglingText : Link → Except Failure String
  | none => .ok ""
  | connective c => .ok c.text
  | foreign v => do (← v.readAttribute "value").plain

end Link

namespace Predicate

/-- The link of an element: that of a predicate, or what a foreign element gives as its own. -/
def readLink : Predicate → Except Failure Link
  | linked _ link => .ok (.ofOption link)
  | foreign v => do
    match ← v.readAttribute "forward_operator" with
    | .null => return .none
    | other => return .foreign other

/-- The failure of a level that is not well chained. -/
def chainFailure {α : Type} (fault : ChainFault) : Except Failure α :=
  .error (.query (.chain fault) none)

/-- Checks that a level has predicates and that all of them but the last are linked onward. -/
def checkChain : List Predicate → Except Failure Unit
  | [] => chainFailure .emptyLevel
  | [last] => do
    match ← last.readLink with
    | .none => return
    | link => chainFailure (.danglingConnective (← link.danglingText))
  | p :: rest => do
    match ← p.readLink with
    | .none => chainFailure .missingConnective
    | _ => checkChain rest

end Predicate

namespace Node

/-- The group of a level, which has to be well chained. -/
def ofLevel (members : List Predicate) : Except Failure Node := do
  Predicate.checkChain members
  return group members

/-- The node that a foreign element gives as its own is none. -/
def readForeign (v : Value) : Except Failure Value := v.readAttribute "node"

end Node

mutual

/-- The conditions of a node in text order. -/
def Node.conditions : Node → List Condition
  | .condition c => [c]
  | .group members => conditionsOf members
  | .foreign _ => []

def Predicate.conditions : Predicate → List Condition
  | .linked node _ => node.conditions
  | .foreign _ => []

def conditionsOf : List Predicate → List Condition
  | [] => []
  | p :: rest => p.conditions ++ conditionsOf rest

end
end RecordFilter
