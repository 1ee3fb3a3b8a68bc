import RecordFilter.Record.Attribute

/-! # Paths into records

Dictionaries are indexed by key, lists of pairs by the first pair with the key, and objects by
attribute. What is not there reads as null. -/

namespace RecordFilter

/-- Finds the value at a path in a record, possibly with effects. -/
abbrev LookupM (m : Type → Type) := Value → List String → m Value

/-- Finds the value at a path in a record, or fails. -/
abbrev Lookup := LookupM (Except Failure)

namespace Value

/-- An item of an ordered list of keys and values. -/
def pair? : Value → Option (String × Value)
  | tuple [text key, v] => some (key, v)
  | _ => none

/-- The keys and values of a list that holds nothing else. -/
def pairs? (items : List Value) : Option (List (String × Value)) := items.mapM pair?

/-- Names that begin with two underscores are hidden. -/
def isHidden (name : String) : Bool := name.toList.take 2 = ['_', '_']

/-- The field of a value under a name; null if it has none or if reading it fails. -/
def field (name : String) : Value → Value
  | dict entries => (entries.lookup name).getD null
  | list items | tuple items => (((pairs? items).getD []).lookup name).getD null
  | v => if isHidden name then null else (v.readAttribute name).toOption.getD null

def resolve (record : Value) (path : List String) : Value :=
  path.foldl (fun v name => v.field name) record

/-- A path is followed segment by segment. -/
theorem resolve_append (record : Value) (p q : List String) :
    record.resolve (p ++ q) = (record.resolve p).resolve q :=
  List.foldl_append

/-- Looks up an entry of a dictionary; other records have none to look up. -/
def entry (key : String) : Value → Except Failure Value
  | dict entries => .ok ((entries.lookup key).getD null)
  | v => .error (v.callFailure "get")

end Value

/-- A lookup from outside. What is given as one can count as false, as any object can. -/
structure GivenLookup where
  lookup : Lookup
  isTruthy : Bool

namespace Lookup

def path : Lookup := fun record path => .ok (record.resolve path)

/-- Takes the segments joined by a separator as one key. -/
def joinedBy (separator : String) : Lookup := fun record path =>
  record.entry (separator.intercalate path)

def constant (v : Value) : Lookup := fun _ _ => .ok v

def segments : Lookup := fun _ path => .ok (.list (path.map .text))

def refusing : Lookup := fun _ _ => .error .refused

/-- The lookup to use: the given one, unless it counts as false. -/
def orPath : Option GivenLookup → Lookup
  | some given => if given.isTruthy then given.lookup else path
  | none => path

end Lookup
end RecordFilter
