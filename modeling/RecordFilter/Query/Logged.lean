import RecordFilter.Log.Writer
import RecordFilter.Query.Basic

/-! # Queries with a log

A query that does not parse matches nothing, and is logged if the settings ask for it. -/

namespace RecordFilter

/-- Whether a record matched, and the events that were logged. -/
structure LoggedOutcome where
  matched : Bool
  events : List LogEvent

namespace Query

/-- Evaluates a query and logs that it does not parse. -/
def evaluateLogged (settings : Except Failure Settings) (lookup : Option GivenLookup)
    (record : Value) (q : Query) : Except Failure LoggedOutcome := do
  let outcome ← q.evaluate settings (.orPath lookup) record
  match outcome.failure, q with
  | some failure, text s =>
    let events :=
      if (← settings).logParseFailures then [parseFailureEvent (.text s) failure] else []
    return ⟨outcome.matched, events⟩
  | _, _ => return ⟨outcome.matched, []⟩

end Query
end RecordFilter
