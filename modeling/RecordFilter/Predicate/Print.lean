import RecordFilter.Literal.Print
import RecordFilter.Predicate.Basic

/-! # Predicates in query text

Parts are separated by single spaces; a group stands in parentheses. -/

namespace RecordFilter

/-- A predicate's text with the connective that follows it. -/
def withLink (text : String) : Option Connective → String
  | some c => text ++ " " ++ c.text
  | none => text

mutual

def Node.queryText : Node → Except Failure String
  | .condition c => do
    return c.identifier ++ " " ++ c.comparison.text ++ " " ++ (← c.literal.queryText)
  | .group members => do return "(" ++ " ".intercalate (← queryTexts members) ++ ")"
  | .foreign v => .error (.unknownNode v.typeName)

def Predicate.queryText : Predicate → Except Failure String
  | .linked node link => do return withLink (← node.queryText) link
  | .foreign v => do .error (.unknownNode (← Node.readForeign v).typeName)

/-- The texts of the elements of a level; the first that fails decides. -/
def queryTexts : List Predicate → Except Failure (List String)
  | [] => .ok []
  | p :: rest => do
    let first ← p.queryText
    return first :: (← queryTexts rest)

end

def serialize (level : List Predicate) : Except Failure String := do
  return " ".intercalate (← queryTexts level)

end RecordFilter
