/-! # Operators

The comparisons that relate a field to a literal, and the connectives that relate a predicate to
the next one. -/

namespace RecordFilter

inductive Comparison where
  | equal
  | notEqual
  | greater
  | greaterOrEqual
  | less
  | lessOrEqual
  /-- The field is one of the items of a list literal. -/
  | memberOf
  /-- The field is a list that holds the literal. -/
  | contains
  /-- The field is a list that does not hold the literal. -/
  | notContains
  deriving DecidableEq

/-- How a predicate is linked to the next one at its level. -/
inductive Connective where
  | and
  | or
  deriving DecidableEq

namespace Comparison

def text : Comparison → String
  | equal => "=="
  | notEqual => "!="
  | greater => ">"
  | greaterOrEqual => ">="
  | less => "<"
  | lessOrEqual => "<="
  | memberOf => "in"
  | contains => "contains"
  | notContains => "not contains"

def all : List Comparison :=
  [equal, notEqual, greater, greaterOrEqual, less, lessOrEqual, memberOf, contains, notContains]

def ofText? (s : String) : Option Comparison := all.find? (·.text == s)

/-- No two comparisons have one text. -/
theorem ofText?_text (c : Comparison) : ofText? c.text = some c := by cases c <;> decide

end Comparison

namespace Connective

def text : Connective → String
  | and => "AND"
  | or => "OR"

def ofText? (s : String) : Option Connective :=
  if s = "AND" then some and else if s = "OR" then some or else none

end Connective
end RecordFilter
