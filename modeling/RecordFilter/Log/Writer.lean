import RecordFilter.Log.Event
import RecordFilter.Settings.Basic

/-! # Writing log events

A configured log writes to the standard error stream, as JSON outside development if the settings
ask for it. Without configuration events go to the standard output as plain text, filtered by the
level of the settings. -/

namespace RecordFilter

inductive LogStream where
  | standardOutput
  | standardError
  deriving DecidableEq

inductive LogLine where
  | json (stream : LogStream) (event : LogEvent)
  /-- A line for reading, in which what happened is written somewhere. -/
  | plain (stream : LogStream)

structure LogCall where
  level : LogLevel
  /-- What happened; null if nothing is told of it. -/
  event : Value
  logger : Option String
  fields : LogEvent

namespace LogCall

/-- The level of a way to log. Two ways may share a level. -/
def levelOf? (way : String) : Option LogLevel :=
  if ["info", "msg"].contains way then some .info
  else if ["warning", "warn"].contains way then some .warning
  else if ["error", "exception"].contains way then some .error
  else if ["critical", "fatal"].contains way then some .critical
  else if way = "debug" then some .debug
  else none

/-- A call of one of the ways to log. That of exceptions asks for what was raised to be told. -/
def ofWay? (way : String) (event : Value) (logger : Option String) (fields : LogEvent) :
    Option LogCall :=
  (levelOf? way).map fun level =>
    let told :=
      if way = "exception" then LogEvent.putDefault "exc_info" (.bool true) fields else fields
    ⟨level, event, logger, told⟩

/-- The name of the logger of a call; an empty one counts as none. -/
def loggerName (c : LogCall) : String :=
  match c.logger with
  | some name => if name = "" then LogEvent.standardLogger else name
  | none => LogEvent.standardLogger

/-- All that is known of the event of a call, with its level in lower case and the time at which it
is written. -/
def toEvent (time : Value) (c : LogCall) : LogEvent :=
  let bound := c.fields.foldl (fun event (key, v) => putEntry key v event)
    [("logger_name", .text c.loggerName)]
  let described := match c.event with
    | .null => bound
    | event => putEntry "event" event bound
  let leveled := putEntry "level" (.text (Text.lower c.level.name)) described
  let named := LogEvent.nameLogger none leveled
  LogEvent.without "stack_info" (putEntry "timestamp" time named)

end LogCall

def Settings.writesJson (s : Settings) : Bool :=
  s.environment != .development && s.logFormat == .json

/-- What a configured log writes for a call. -/
def configuredLine (settings : Settings) (time : Value) (c : LogCall) : Option LogLine :=
  if c.level.severity < settings.logLevel.severity then none
  else if settings.writesJson then
    some (.json .standardError (LogEvent.nameMessage (c.toEvent time)))
  else some (.plain .standardError)

/-- What is written for a call without configuration. -/
def unconfiguredLine (settings : Settings) (c : LogCall) : Option LogLine :=
  if c.level.severity < settings.logLevel.severity then none else some (.plain .standardOutput)

/-- What a query that does not parse is logged as. -/
def parseFailureEvent (query : Value) (failure : Failure) : LogEvent :=
  [("logger_name", .text "predicated.core.query"),
   ("event", .text "query_parse_failed"),
   ("log_level", .text "warning"),
   ("query", query),
   ("error", ((failure.reason?).map Value.text).getD .null),
   ("position", (failure.position?.map fun p => Value.number (.int p)).getD .null)]

end RecordFilter
