import RecordFilter.Literal.Match
import RecordFilter.Predicate.Basic
import RecordFilter.Predicate.Fold
import RecordFilter.Record.Path

/-! # Evaluation

Every condition of a tree is evaluated, in text order and without short cut; the first that fails
decides. What cannot be compared does not hold. Levels are evaluated as deep as they are nested:
that an interpreter may give up at some depth is left out.
-/

namespace RecordFilter

namespace Comparison

/-- Whether a subject equals a literal: dates and times by their order, all else by matching. -/
def equals (subject : Value) (l : Literal) : Except Failure Bool :=
  if l.isTemporal then
    match subject with
    | .null => .ok false
    | _ => do return (← l.order? subject) == some .eq
  else l.matchValue subject

/-- Whether a subject is ordered against a literal as `accepts` wants. Null is not ordered. -/
def ordered (accepts : Ordering → Bool) (subject : Value) (l : Literal) : Except Failure Bool :=
  match subject with
  | .null => .ok false
  | _ => do return (← l.order? subject).any accepts

/-- Whether a value of a list matches a literal; the first match ends the search. -/
def anyMatch (l : Literal) : List Value → Except Failure Bool
  | [] => .ok false
  | v :: rest => do if ← l.matchValue v then return true else anyMatch l rest

/-- Whether a subject stands in this relation to a literal. -/
def holds (op : Comparison) (subject : Value) (l : Literal) : Except Failure Bool :=
  match op with
  | equal => equals subject l
  | notEqual => do return !(← equals subject l)
  | greater => ordered (·.isGT) subject l
  | greaterOrEqual => ordered (·.isGE) subject l
  | less => ordered (·.isLT) subject l
  | lessOrEqual => ordered (·.isLE) subject l
  | memberOf =>
    match l with
    | .list items => Literal.matchAny items subject
    | _ => .ok false
  | contains =>
    match subject.items? with
    | some items => anyMatch l items
    | none => .ok false
  | notContains =>
    match subject.items? with
    | some items => do return !(← anyMatch l items)
    | none => .ok false

end Comparison

section

variable {m : Type → Type} [Monad m] [MonadLiftT (Except Failure) m] [MonadExceptOf Failure m]

/-- Whether a condition holds of a record. The lookup may have effects; it is asked once. -/
def Condition.holds (lookup : LookupM m) (record : Value) (c : Condition) : m Bool := do
  let subject ← lookup record c.path
  liftM (c.comparison.holds subject c.literal)

/-- The failure that a value in the place of a node gives. -/
def failUnknown {α : Type} (v : Value) : Except Failure α := .error (.unknownNode v.typeName)

/-- A foreign element is asked for its link and its node, and then fails: what it has is no node. -/
def failForeign {α : Type} (v : Value) : Except Failure α := do
  let _ ← v.readAttribute "forward_operator"
  failUnknown (← Node.readForeign v)

/-- An operation inside a generator, which passes its failure on in its own way. -/
def inGenerator {α : Type} (x : m α) : m α := tryCatch x fun failure => throw failure.passedOn

mutual

def Node.holds (lookup : LookupM m) (record : Value) : Node → m Bool
  | .condition c => c.holds lookup record
  | .group members => Folding.start.through (resultsOf lookup record members)
  | .foreign v => liftM (failUnknown v)

/-- The link of an element of a level and whether it holds of a record. -/
def Predicate.result (lookup : LookupM m) (record : Value) :
    Predicate → m (Option Connective × Bool)
  | .linked node link => do return (link, ← node.holds lookup record)
  | .foreign v => liftM (failForeign v)

/-- What yields the links and results of the elements of a level, one at each pull. -/
def resultsOf (lookup : LookupM m) (record : Value) :
    List Predicate → List (m (Option Connective × Bool))
  | [] => []
  | p :: rest => inGenerator (p.result lookup record) :: resultsOf lookup record rest

end

def evaluateLevel (lookup : LookupM m) (record : Value) (level : List Predicate) : m Bool :=
  Folding.start.through (resultsOf lookup record level)

end

end RecordFilter
