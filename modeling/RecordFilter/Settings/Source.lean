import RecordFilter.Settings.Conversion

/-! # Where settings come from

Each field is taken from the values given for it, else from the environment variable of its name
after `PREDICATED_`, else it has its standard value. Names are matched in any case. All faults are
reported, in the order of the names of the fields. -/

namespace RecordFilter

open Text

/-- A field that is set, or its standard value. -/
def orStandard {α : Type} (standard : α) (convert : Value → Except SettingProblem α) :
    Option Value → Except SettingProblem α
  | some v => convert v
  | none => .ok standard

/-- The values given for settings and the environment variables in force, in order. -/
structure SettingSource where
  given : List (String × Value)
  bindings : List (String × String)

namespace SettingSource

/-- What the names of environment variables begin with. -/
def variableStem : String := "predicated_"

/-- The last entry of a name, in any case. -/
def lastNamed? {α : Type} (name : String) (entries : List (String × α)) : Option α :=
  (entries.filter fun (key, _) => lower key == name).getLast?.map (·.2)

/-- The value set for a field: the one given, else that of the variable of its name. -/
def find? (source : SettingSource) (field : String) : Option Value :=
  match lastNamed? field source.given with
  | some v => some v
  | none => (lastNamed? (variableStem ++ field) source.bindings).map .text

/-- A field's value, or its fault. -/
def readField {α : Type} (source : SettingSource) (field : String) (standard : α)
    (convert : Value → Except SettingProblem α) : Except SettingFault α :=
  match orStandard standard convert (source.find? field) with
  | .ok a => .ok a
  | .error problem => .error ⟨field, problem⟩

def faultOf {α : Type} : Except SettingFault α → List SettingFault
  | .ok _ => []
  | .error fault => [fault]

def read (source : SettingSource) : Except Failure Settings :=
  let environment :=
    source.readField "environment" .development (choose Environment.name Environment.all)
  let logFormat := source.readField "log_format" .console (choose LogFormat.name LogFormat.all)
  let logLevel := source.readField "log_level" .info chooseLevel
  let logParseFailures := source.readField "log_parse_failures" true truthOf
  let deepest := ⟨Settings.standard.maxNestingDepth, Settings.standard.one_le_depth⟩
  let depth := source.readField "max_nesting_depth" deepest depthOf
  match environment, logFormat, logLevel, logParseFailures, depth with
  | .ok environment, .ok logFormat, .ok logLevel, .ok logParseFailures, .ok depth =>
    .ok ⟨environment, logLevel, logFormat, logParseFailures, depth.1, depth.2⟩
  | environment, logFormat, logLevel, logParseFailures, depth =>
    .error (.settings (faultOf environment ++ faultOf logFormat ++ faultOf logLevel
      ++ faultOf logParseFailures ++ faultOf depth))

end SettingSource
end RecordFilter
