import RecordFilter.Calendar.Reading
import RecordFilter.Literal.Basic
import RecordFilter.Token.Scan

/-! # Literals from tokens

What a literal token means. Quoted text can be cast to a date or a time; numbers with a point or an
exponent are floating point, all others are whole; a list literal is split at its own commas, and
each item is read as a token by itself. -/

namespace RecordFilter

namespace Literal

open Text

def failCast {α : Type} (fault : CastFault) (position : Option Int) : Except Failure α :=
  .error (.cast fault position)

def castDate (s : String) (position : Option Int) : Except Failure Literal :=
  match Date.read s with
  | .read d => .ok (date d)
  | .impossible => failCast (.impossibleDate s) position
  | .otherForm => failCast (.badDate s) position

def castDateTime (s : String) (position : Option Int) : Except Failure Literal :=
  match ZonedDateTime.read s with
  | .read z => .ok (datetime z)
  | .impossible => failCast (.impossibleDateTime s) position
  | .otherForm => failCast (.badDateTime s) position

/-- Quoted text with the name of the cast that follows it. -/
def castText (s : String) (cast : Option String) (position : Option Int) :
    Except Failure Literal :=
  match cast with
  | none => .ok (text s)
  | some name =>
    if name = "DATE" then castDate s position
    else if name = "DATETIME" then castDateTime s position
    else failCast (.unsupportedCast name) position

/-- Text that is read as floating point: it holds a point or the mark of an exponent. -/
def isFloatText (s : String) : Bool := s.toList.any fun c => c == '.' || c == 'e' || c == 'E'

def castNumber (s : String) (position : Option Int) : Except Failure Literal :=
  if isFloatText s then
    match Numeral.toBinary64? s with
    | some x =>
      if h : x.isFinite = true then .ok (number ⟨.float x, h⟩)
      else failCast (.numberOutOfRange s) position
    | none => failCast (.badNumber s) position
  else
    match Numeral.toInt? s with
    | some n => .ok (number ⟨.int n, rfl⟩)
    | none => failCast (.badNumber s) position

/-- The text of an item of a list, without the blanks around it, and where it begins. -/
structure Item where
  text : String
  position : Int
  deriving DecidableEq

namespace Item

/-- The items of the pieces between commas, the first of which begins at `position`. -/
def ofPieces (position : Int) : List (List Char) → Except Failure (List Item)
  | [] => .ok []
  | piece :: rest => do
    let blanks := (piece.takeWhile isBlank).length
    if blanks = piece.length then
      failCast .emptyItem (some (position + piece.length))
    else do
      let others ← ofPieces (position + piece.length + 1) rest
      return ⟨String.ofList (trim isBlank piece), position + blanks⟩ :: others

/-- The items between the brackets of a list literal. -/
def ofText (position : Int) (s : String) : Except Failure (List Item) :=
  if allBlank s.toList then .ok [] else ofPieces position (splitItems .start s.toList)

/-- The only token of an item, which has to be a literal. -/
def token (item : Item) : Except Failure Token :=
  let tokens : Except Failure (Token × Token) := do
    let (first, after) ← (Cursor.start item.position item.text).next
    let (second, _) ← after.next
    return (first, second)
  match tokens with
  | .ok (first, second) =>
    if first.kind.isLiteral ∧ second.kind = .finish then .ok first
    else failCast (.badItem item.text none) (some item.position)
  | .error (.query (.lexical fault) position) =>
    failCast (.badItem item.text (some fault)) position
  | .error failure => .error failure

end Item

def innerText (t : Token) : String := String.ofList (t.content.toList.drop 1).dropLast

/-- The literal of a token that is no list. -/
def castScalar (t : Token) : Except Failure Literal :=
  match t.kind with
  | .boolean => .ok (bool (lower t.content == "true"))
  | .null => .ok null
  | .quoted => castText t.content t.cast (some t.position)
  | .number => castNumber t.content (some t.position)
  | _ => .error (.query (.expectedLiteral t.kind) (some t.position))

/-- The literal of a token in which lists may be nested `levels` deep. -/
def castWithin : Nat → Token → Except Failure Literal
  | 0, t => if t.kind = .list then failCast .listTooDeep (some t.position) else castScalar t
  | levels + 1, t =>
    if t.kind = .list then do
      let items ← Item.ofText (t.position + 1) (innerText t)
      return list (← items.mapM fun item => do castWithin levels (← item.token))
    else castScalar t

/-- The literal of a token inside `depth` lists, when lists may be nested as deep as the settings
allow. Only a list asks for the settings. -/
def castToken (limit : Except Failure Int) (depth : Int) (t : Token) : Except Failure Literal :=
  if t.kind = .list then do castWithin ((← limit) - depth).toNat t else castScalar t

end Literal
end RecordFilter
