import RecordFilter.Failure
import RecordFilter.Text.Digit

/-! # Dotted identifiers

An identifier names a path of fields. Each segment between its dots has to be a name: an ASCII
letter or an underscore, followed by letters, digits and underscores. -/

namespace RecordFilter

namespace Identifier

open Text

/-- The parts between the dots of an identifier, as characters. -/
def pieces (identifier : String) : List (List Char) := List.splitOn '.' identifier.toList

/-- The path that an identifier names: the parts between its dots. -/
def path (identifier : String) : List String := (pieces identifier).map String.ofList

def startsName (c : Char) : Bool := isLetter c || c == '_'

def isNameChar (c : Char) : Bool := isLetter c || isDigit c || c == '_'

def isName : List Char → Bool
  | [] => false
  | c :: cs => startsName c && cs.all isNameChar

/-- Text without the newline at its end, if there is one. -/
def withoutNewline (cs : List Char) : List Char :=
  if cs.getLast? = some '\n' then cs.dropLast else cs

/-- What can stand between two dots: a name, after which one newline is let pass. -/
def isSegment (cs : List Char) : Bool := isName (withoutNewline cs)

/-- The first segment that is none, if there is one. -/
def firstFault? (identifier : String) : List (List Char) → Option IdentifierFault
  | [] => none
  | segment :: rest =>
    if segment = [] then some (.emptySegment identifier)
    else if isSegment segment then firstFault? identifier rest
    else some (.badSegment identifier (String.ofList segment))

def fault? (identifier : String) : Option IdentifierFault :=
  firstFault? identifier (pieces identifier)

/-- The names of computed properties, which no path may end in. -/
def reservedSuffixes : List String := ["length", "size"]

/-- The reserved suffix that a path of two or more segments ends in, as it is written. -/
def reservedSuffix? (identifier : String) : Option String :=
  let segments := path identifier
  if 1 < segments.length then
    segments.getLast?.filter fun last => reservedSuffixes.contains (lower last)
  else none

end Identifier
end RecordFilter
