import RecordFilter.Value.Basic

/-! # Log events

An event is a dictionary. Two steps prepare it for writing: one gives it the name of its logger, the
other calls what happened its message. -/

namespace RecordFilter

/-- What is known of an event, by key. -/
abbrev LogEvent := List (String × Value)

namespace LogEvent

/-- The name of loggers that are given none. -/
def standardLogger : String := "predicated"

def without (key : String) (event : LogEvent) : LogEvent := event.filter (·.1 != key)

/-- The value of a key that counts as true. -/
def truthy? (key : String) (event : LogEvent) : Option Value :=
  (event.lookup key).filter (·.isTruthy)

/-- The event with a value under a key, unless it has one already. -/
def putDefault (key : String) (v : Value) (event : LogEvent) : LogEvent :=
  if (event.lookup key).isSome then event else putEntry key v event

/-- Gives the event the name of its logger: the one bound to it under `logger_name`, else that of
the logger that writes it. A name that the event has already stays. -/
def nameLogger (writer : Option String) (event : LogEvent) : LogEvent :=
  let name := (truthy? "logger_name" event).getD (.text (writer.getD standardLogger))
  putDefault "logger" name (without "logger_name" event)

/-- Calls what happened the message. -/
def nameMessage (event : LogEvent) : LogEvent :=
  match event.lookup "event" with
  | some v => putEntry "message" v (without "event" event)
  | none => event

end LogEvent
end RecordFilter
