/-! # Settings -/

namespace RecordFilter

inductive Environment where
  | development
  | production
  | testing
  deriving DecidableEq

inductive LogLevel where
  | debug
  | info
  | warning
  | error
  | critical
  deriving DecidableEq

inductive LogFormat where
  | json
  | console
  deriving DecidableEq

/-- What can be set from outside. At least one level of groups is allowed. -/
structure Settings where
  environment : Environment
  logLevel : LogLevel
  logFormat : LogFormat
  /-- Whether a query that does not parse is logged. -/
  logParseFailures : Bool
  /-- How deep groups, and lists in lists, may be nested. -/
  maxNestingDepth : Nat
  one_le_depth : 1 ≤ maxNestingDepth
  deriving DecidableEq

namespace Environment

def name : Environment → String
  | development => "development"
  | production => "production"
  | testing => "testing"

def all : List Environment := [development, production, testing]

end Environment

namespace LogLevel

def name : LogLevel → String
  | debug => "DEBUG"
  | info => "INFO"
  | warning => "WARNING"
  | error => "ERROR"
  | critical => "CRITICAL"

def all : List LogLevel := [debug, info, warning, error, critical]

def severity : LogLevel → Nat
  | debug => 10
  | info => 20
  | warning => 30
  | error => 40
  | critical => 50

end LogLevel

namespace LogFormat

def name : LogFormat → String
  | json => "json"
  | console => "console"

def all : List LogFormat := [json, console]

end LogFormat

namespace Settings

def standard : Settings :=
  ⟨.development, .info, .console, true, 64, by decide⟩

end Settings
end RecordFilter
