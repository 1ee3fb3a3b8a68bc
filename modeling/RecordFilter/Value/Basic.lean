import RecordFilter.Calendar.DateTime
import RecordFilter.Numeric.Number

/-! # Values and literals

Records are made of values, and queries compare them with literals. A literal is typed: it never
equals a value of another kind. The two depend on each other, since a value can be a literal and a
list literal can hold a value that is none. -/

namespace RecordFilter

/-- Why reading an attribute fails. -/
inductive AttributeFault where
  /-- As if the object had no such attribute. -/
  | missing
  | refused
  deriving DecidableEq

mutual

/-- What a record or one of its fields is. -/
inductive Value where
  | null
  | bool (b : Bool)
  | number (n : Number)
  | complex (re im : Binary64)
  | text (s : String)
  | date (d : Date)
  /-- A wall clock, which may have no zone. -/
  | datetime (clock : WallClock) (zone : Option TimeZone)
  | list (items : List Value)
  | tuple (items : List Value)
  | set (items : List Value)
  | bytes (items : List Nat)
  /-- Keys in the order in which they came, each once. -/
  | dict (entries : List (String × Value))
  /-- An object of a kind of its own, known by its attributes. -/
  | object (kind : String) (attributes : List (String × Attribute))
  | literal (l : Literal)

/-- What reading an attribute of an object gives. -/
inductive Attribute where
  | value (v : Value)
  | raises (fault : AttributeFault)

/-- What stands on the right of a comparison. -/
inductive Literal where
  | null
  | bool (b : Bool)
  | number (n : FiniteNumber)
  | text (s : String)
  | date (d : Date)
  /-- A date literal that holds a time, as nothing keeps it from doing. -/
  | misdated (clock : WallClock) (zone : Option TimeZone)
  | datetime (z : ZonedDateTime)
  | list (items : List Literal)
  /-- A literal without a value, which matches nothing. -/
  | blank
  /-- A value that was put into a list literal as it is. It is no literal, and what is asked of it
  as of a literal fails. -/
  | foreign (v : Value)

end

instance : Inhabited Value := ⟨.null⟩
instance : Inhabited Literal := ⟨.null⟩
instance : Inhabited Attribute := ⟨.raises .missing⟩

/-- `entries` with the value under `key` replaced, or with a new entry at the end. -/
def putEntry {α : Type} (key : String) (v : α) : List (String × α) → List (String × α)
  | [] => [(key, v)]
  | (k, old) :: rest => if k = key then (k, v) :: rest else (k, old) :: putEntry key v rest

/-- Entries in the order of their first keys, each with its last value. -/
def lastEntries {α : Type} (entries : List (String × α)) : List (String × α) :=
  entries.foldl (fun kept (key, v) => putEntry key v kept) []

namespace Failure

def ofAttribute : AttributeFault → Failure
  | .missing => missingAttribute
  | .refused => refused

end Failure

namespace Literal

def typeName : Literal → String
  | null => "NullLiteral"
  | bool _ => "BoolLiteral"
  | number _ => "NumberLiteral"
  | text _ => "StringLiteral"
  | date _ | misdated .. => "DateLiteral"
  | datetime _ => "DateTimeLiteral"
  | list _ => "ListLiteral"
  | blank => "Literal"
  | foreign _ => "foreign"

/-- Dates and times are compared as such, even for equality. -/
def isTemporal : Literal → Bool
  | date _ | misdated .. | datetime _ => true
  | _ => false

end Literal

namespace Value

def typeName : Value → String
  | null => "NoneType"
  | bool _ => "bool"
  | number n => n.typeName
  | complex .. => "complex"
  | text _ => "str"
  | date _ => "date"
  | datetime .. => "datetime"
  | list _ => "list"
  | tuple _ => "tuple"
  | set _ => "set"
  | bytes _ => "bytes"
  | dict _ => "dict"
  | object kind _ => kind
  | literal l => l.typeName

/-- Whether a value counts as true: nothing, zeros and what is empty do not. -/
def isTruthy : Value → Bool
  | null => false
  | bool b => b
  | number n => n.isTruthy
  | complex re im => !re.magnitude.isZero || !im.magnitude.isZero
  | text s => s != ""
  | list items | tuple items | set items => !items.isEmpty
  | bytes items => !items.isEmpty
  | dict entries => !entries.isEmpty
  | date _ | datetime .. | object .. | literal _ => true

def givenAttribute (name : String) : Value → Except Failure Value
  | object _ attributes =>
    match attributes.lookup name with
    | some (.value v) => .ok v
    | some (.raises fault) => .error (.ofAttribute fault)
    | none => .error .missingAttribute
  | _ => .error .missingAttribute

/-- What comes of calling a method on a value that has no methods. -/
def callFailure (name : String) (v : Value) : Failure :=
  match v.givenAttribute name with
  | .ok _ => .notCallable
  | .error failure => failure

/-- What a value holds one after the other: items or members, the characters of a text, bytes as
numbers, or keys. -/
def elements? : Value → Option (List Value)
  | list items | tuple items | set items => some items
  | text s => some (s.toList.map fun c => text c.toString)
  | bytes codes => some (codes.map fun (code : Nat) => number (.int code))
  | dict entries => some (entries.map fun (key, _) => text key)
  | _ => none

def items? : Value → Option (List Value)
  | list items | tuple items => some items
  | _ => none

end Value
end RecordFilter
