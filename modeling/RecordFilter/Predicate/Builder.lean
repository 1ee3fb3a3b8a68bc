import RecordFilter.Predicate.Basic
import RecordFilter.Stateful

/-! # Building levels step by step

A builder takes nodes and connectives in turn. It refuses a node that nothing links to the one
before and a connective that has no node to link. A call that fails may have changed the builder
before it did. -/

namespace RecordFilter

/-- A level under construction: the nodes, and for each of them what links it to the next one, if
anything does yet. -/
structure Builder where
  nodes : List Node
  operators : List (Option Connective)

namespace Builder

def empty : Builder := ⟨[], []⟩

/-- The nodes so far with what links them. -/
def entries (b : Builder) : List (Node × Option Connective) := b.nodes.zip b.operators

/-- The predicates added so far, whether or not they make up a level. -/
def predicates (b : Builder) : List Predicate :=
  b.entries.map fun (node, link) => .linked node link

/-- The last of the operators. -/
def lastOperator : Stateful Builder (Option Connective) := do
  match (← get).operators.getLast? with
  | some link => return link
  | none => throw .outOfRange

def add (node : Node) : Stateful Builder Unit := do
  if (← get).nodes ≠ [] then
    if (← lastOperator) = none then
      throw (.query (.chain .missingConnective) none)
  modify fun b => { b with nodes := b.nodes ++ [node] }
  modify fun b => { b with operators := b.operators ++ [none] }

def addCondition (identifier operator : String) (v : Value) : Stateful Builder Unit := do
  add (.condition (← Condition.ofText identifier operator v))

def addGroup (members : List Predicate) : Stateful Builder Unit := do
  add (← Node.ofLevel members)

/-- Links the last node, which has to be there and not be linked yet. -/
def link (c : Connective) : Stateful Builder Unit := do
  if (← get).nodes = [] then
    throw (.query (.unprecededConnective c) none)
  if (← lastOperator) ≠ none then
    throw (.query (.unprecededConnective c) none)
  modify fun b => { b with operators := b.operators.dropLast ++ [some c] }

/-- The level, which has to be well chained. -/
def build : Stateful Builder (List Predicate) := do
  let predicates := (← get).predicates
  Predicate.checkChain predicates
  return predicates

end Builder

/-- Builders by name. A builder that has not been named before is empty. -/
abbrev Workbench := List (String × Builder)

/-- What can be asked of one of several builders. -/
inductive BuilderCall where
  | add (node : Node)
  | addCondition (identifier operator : String) (v : Value)
  | link (c : Connective)
  /-- Adds the level that another builder, or the same, has built as a group. -/
  | addGroupOf (source : String)
  | addGroup (members : List Predicate)
  | build

/-- What a call gives: the builder as it is now, or a level. -/
inductive BuilderAnswer where
  | builder (b : Builder)
  | level (predicates : List Predicate)

namespace Workbench

def get (w : Workbench) (name : String) : Builder := (w.lookup name).getD .empty

/-- Works on the builder of a name, which stays as the work leaves it, whatever comes of that. -/
def on {α : Type} (name : String) (work : Stateful Builder α) : Stateful Workbench α :=
  ExceptT.mk fun w =>
    let (result, b) := work.runFrom (w.get name)
    (result, putEntry name b w)

/-- Works on the builder of a name, which is the answer. -/
def change (name : String) (work : Stateful Builder Unit) : Stateful Workbench BuilderAnswer := do
  on name work
  return .builder (Workbench.get (← MonadState.get) name)

/-- Asks something of the builder of a name. -/
def call (name : String) : BuilderCall → Stateful Workbench BuilderAnswer
  | .add node => change name (Builder.add node)
  | .addCondition identifier operator v => change name (Builder.addCondition identifier operator v)
  | .link c => change name (Builder.link c)
  | .addGroupOf source => do
    let members ← on source Builder.build
    change name (Builder.addGroup members)
  | .addGroup members => change name (Builder.addGroup members)
  | .build => do return .level (← on name Builder.build)

end Workbench
end RecordFilter
