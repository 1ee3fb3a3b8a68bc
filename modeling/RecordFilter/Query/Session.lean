import RecordFilter.Query.Logged
import RecordFilter.Settings.Source

/-! # Sessions

Settings are read when they are first needed and kept until they are forgotten; a failed reading is
not kept. -/

namespace RecordFilter

/-- The environment variables in force, and the settings that have been read. -/
structure Session where
  bindings : List (String × String)
  kept : Option Settings

namespace Session

/-- A session in which nothing has been read yet. -/
def start (bindings : List (String × String)) : Session := ⟨bindings, none⟩

def setVariable (name text : String) (s : Session) : Session :=
  { s with bindings := putEntry name text s.bindings }

def unsetVariable (name : String) (s : Session) : Session :=
  { s with bindings := s.bindings.filter (·.1 != name) }

def forget (s : Session) : Session := { s with kept := none }

/-- The settings in force: those that are kept, else those of the variables. -/
def settings (s : Session) : Except Failure Settings :=
  match s.kept with
  | some kept => .ok kept
  | none => SettingSource.read ⟨[], s.bindings⟩

def afterReading (s : Session) : Session :=
  match s.settings with
  | .ok settings => { s with kept := some settings }
  | .error _ => s

/-- The session after a query was evaluated: text is parsed, for which settings are needed. -/
def afterQuery (s : Session) : Query → Session
  | .text _ => s.afterReading
  | .level _ => s

end Session
end RecordFilter
