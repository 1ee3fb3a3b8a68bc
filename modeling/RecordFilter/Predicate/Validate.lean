import RecordFilter.Predicate.Basic

/-! # Validation

All defects of a tree in the order of its text: at each level first that of its chain, then those of
its predicates. -/

namespace RecordFilter

namespace Literal

mutual

/-- The items at any depth of a list literal that are no literals. -/
def defects : Literal → List Defect
  | foreign v => [.unknownLiteral v.typeName]
  | list items => itemDefects items
  | _ => []

def itemDefects : List Literal → List Defect
  | [] => []
  | l :: rest => l.defects ++ itemDefects rest

end

end Literal

namespace Condition

def identifierDefects (identifier : String) : List Defect :=
  match Identifier.fault? identifier with
  | some fault => [.identifier fault]
  | none =>
    match Identifier.reservedSuffix? identifier with
    | some suffix => [.reservedSuffix identifier suffix]
    | none => []

/-- The defects of a condition: that of its identifier, then those of its literal. -/
def defects (c : Condition) : List Defect := identifierDefects c.identifier ++ c.literal.defects

end Condition

def chainDefects (level : List Predicate) : Except Failure (List Defect) :=
  match Predicate.checkChain level with
  | .ok _ => .ok []
  | .error (.query (.chain fault) _) => .ok [.chain fault]
  | .error failure => .error failure

mutual

def Node.defects : Node → Except Failure (List Defect)
  | .condition c => .ok c.defects
  | .group members => do return (← chainDefects members) ++ (← memberDefects members)
  | .foreign v => .ok [.unknownNode v.typeName]

def Predicate.defects : Predicate → Except Failure (List Defect)
  | .linked node _ => node.defects
  | .foreign v => .ok [.unknownNode v.typeName]

def memberDefects : List Predicate → Except Failure (List Defect)
  | [] => .ok []
  | p :: rest => do return (← p.defects) ++ (← memberDefects rest)

end

/-- All defects of a tree. -/
def levelDefects (level : List Predicate) : Except Failure (List Defect) := do
  return (← chainDefects level) ++ (← memberDefects level)

/-- Refuses a tree with defects. -/
def validate (level : List Predicate) : Except Failure Unit := do
  match ← levelDefects level with
  | [] => return
  | found => .error (.query (.defects found) none)

end RecordFilter
