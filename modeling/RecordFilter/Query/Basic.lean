import RecordFilter.Predicate.Compile
import RecordFilter.Predicate.Evaluate
import RecordFilter.Predicate.Print
import RecordFilter.Predicate.Validate
import RecordFilter.Settings.Basic

/-! # Queries

A query is read into a level of predicates, which is evaluated against records and can be written as
a query again. -/

namespace RecordFilter

/-- The level of a query in which groups and lists may be nested `limit` deep. -/
def parseWithin (limit : Nat) (text : String) : Except Failure (List Predicate) := do
  let level ← compileStream (.ok limit) (← StreamItem.ofText limit text)
  validate level
  return level

/-- The level of a query, with the nesting that the settings allow. -/
def parse (settings : Except Failure Settings) (text : String) :
    Except Failure (List Predicate) := do
  parseWithin (← settings).maxNestingDepth text

/-- The level of a query given as a value, which has to be text. -/
def parseValue (settings : Except Failure Settings) : Value → Except Failure (List Predicate)
  | .text text => parse settings text
  | v => .error (.query (.notText v.typeName) none)

/-- A query as text, or as a level that is built already. -/
inductive Query where
  | text (s : String)
  | level (predicates : List Predicate)

/-- What evaluating a query gave: whether the record matched, and why the query did not parse. A
query that does not parse matches no record. -/
structure Outcome where
  matched : Bool
  failure : Option Failure

namespace Query

def predicates (settings : Except Failure Settings) : Query → Except Failure (List Predicate)
  | text s => parse settings s
  | level ps => .ok ps

/-- Evaluates a query. That a query does not parse is part of the outcome; all else that fails is a
failure. -/
def evaluate (settings : Except Failure Settings) (lookup : Lookup) (record : Value) (q : Query) :
    Except Failure Outcome :=
  match q.predicates settings with
  | .ok ps => do return ⟨← evaluateLevel lookup record ps, none⟩
  | .error failure => if failure.isParseFailure then .ok ⟨false, some failure⟩ else .error failure

end Query
end RecordFilter
