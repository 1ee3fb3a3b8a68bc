import RecordFilter.Text.Shown
import RecordFilter.Value.Basic

/-! # Values in messages

The text of a value in a message: text in quotes, with escapes for what does not print; lists,
dictionaries and literals with the texts of what they hold. -/

namespace RecordFilter

open Text

/-- Arguments in parentheses after what they are given to. -/
def applied (name : String) (arguments : List String) : String :=
  name ++ "(" ++ ", ".intercalate arguments ++ ")"

namespace Date

def shown (d : Date) : String :=
  applied "datetime.date" [toString d.year, toString d.month, toString d.day]

end Date

namespace Offset

/-- An offset in a message: the days, seconds and microseconds of which there are any. One that is
behind universal time is a day less than none and what is counted from there. -/
def shown (o : Offset) : String :=
  if o = .utc then "datetime.timezone.utc"
  else
    let days := o.microseconds / 86400000000
    let rest := o.microseconds % 86400000000
    let parts := [("days=", days), ("seconds=", rest / 1000000), ("microseconds=", rest % 1000000)]
    let told := parts.filter fun (_, count) => count != 0
    applied "datetime.timezone"
      [applied "datetime.timedelta" (told.map fun (name, count) => name ++ toString count)]

end Offset

namespace TimeZone

/-- What is told of a zone in a message. The second of two times that a clock shows alike is told
first. -/
def shownParts : TimeZone → List String
  | fixed offset => ["tzinfo=" ++ offset.shown]
  | region key _ _ again =>
    (if again then ["fold=1"] else [])
      ++ ["tzinfo=" ++ applied "zoneinfo.ZoneInfo" ["key=" ++ shownText key]]

end TimeZone

namespace WallClock

/-- The parts of a wall clock in a message. Of the seconds and microseconds, zeros at the end are
left out. -/
def shownParts (w : WallClock) : List String :=
  let fine :=
    if w.microsecond = 0 then (if w.second = 0 then [] else [w.second])
    else [w.second, w.microsecond]
  ([w.date.year, w.date.month, w.date.day, w.hour, w.minute] ++ fine).map toString

/-- A wall clock in a message, with its zone if it has one. -/
def shown (w : WallClock) (zone : Option TimeZone) : String :=
  applied "datetime.datetime" (w.shownParts ++ (zone.map TimeZone.shownParts).getD [])

/-- A wall clock for reading: the time follows the date after a space. -/
def plain (w : WallClock) (zone : Option TimeZone) : String :=
  let spaced := w.chars.map fun c => if c = 'T' then ' ' else c
  String.ofList (spaced ++ (zone.map fun z => z.offset.chars).getD [])

end WallClock

namespace Binary64

/-- The text of a value without a fraction that is zero. -/
def briefText (x : Binary64) : String :=
  let cs := x.text.toList
  String.ofList (if cs.drop (cs.length - 2) = ['.', '0'] then cs.take (cs.length - 2) else cs)

/-- The text of a value with a sign in any case. -/
def signedText (x : Binary64) : String :=
  let text := x.briefText
  if text.toList.head? = some '-' then text else "+" ++ text

end Binary64

/-- A complex number in a message. A real part that is zero without a minus is left out. -/
def shownComplex (re im : Binary64) : String :=
  if re = Binary64.zero false then im.briefText ++ "j"
  else "(" ++ re.briefText ++ im.signedText ++ "j)"

def braced (parts : List String) : String := "\x7b" ++ ", ".intercalate parts ++ "\x7d"

/-- The text of a tuple of the items with these texts; a single item is followed by a comma. -/
def shownTuple : List String → String
  | [item] => "(" ++ item ++ ",)"
  | items => "(" ++ ", ".intercalate items ++ ")"

/-- The text of a set of the members with these texts. -/
def shownSet : List String → String
  | [] => "set()"
  | members => braced members

mutual

def Value.shown : Value → Except Failure String
  | .null => .ok "None"
  | .bool b => .ok (if b then "True" else "False")
  | .number n => n.shown
  | .complex re im => .ok (shownComplex re im)
  | .text s => .ok (shownText s)
  | .date d => .ok d.shown
  | .datetime clock zone => .ok (clock.shown zone)
  | .list items => do return "[" ++ ", ".intercalate (← shownItems items) ++ "]"
  | .tuple items => do return shownTuple (← shownItems items)
  | .set members => do return shownSet (← shownItems members)
  | .bytes codes => .ok (shownBytes codes)
  | .dict entries => do return braced (← shownEntries entries)
  | .object kind _ => .ok ("<" ++ kind ++ ">")
  | .literal l => l.shown
termination_by structural x => x

/-- The texts of values in a message; the first that fails decides. -/
def shownItems : List Value → Except Failure (List String)
  | [] => .ok []
  | v :: rest => do
    let first ← v.shown
    return first :: (← shownItems rest)
termination_by structural x => x

def shownEntries : List (String × Value) → Except Failure (List String)
  | [] => .ok []
  | (key, v) :: rest => do
    let first ← v.shown
    return (shownText key ++ ": " ++ first) :: (← shownEntries rest)
termination_by structural x => x

def Literal.shown : Literal → Except Failure String
  | .null => .ok "NullLiteral()"
  | .bool b => .ok (applied "BoolLiteral" ["value=" ++ if b then "True" else "False"])
  | .number n => do return applied "NumberLiteral" ["value=" ++ (← n.number.shown)]
  | .text s => .ok (applied "StringLiteral" ["value=" ++ shownText s])
  | .date d => .ok (applied "DateLiteral" ["value=" ++ d.shown])
  | .misdated clock zone => .ok (applied "DateLiteral" ["value=" ++ clock.shown zone])
  | .datetime z => .ok (applied "DateTimeLiteral" ["value=" ++ z.clock.shown (some z.zone)])
  | .list items => do return applied "ListLiteral" ["items=" ++ shownTuple (← shownLiterals items)]
  | .blank => .ok "Literal()"
  | .foreign v => v.shown
termination_by structural x => x

/-- The texts of literals in a message; the first that fails decides. -/
def shownLiterals : List Literal → Except Failure (List String)
  | [] => .ok []
  | l :: rest => do
    let first ← l.shown
    return first :: (← shownLiterals rest)
termination_by structural x => x

end

namespace Value

/-- The text of a value where it is part of a text itself: text stands as it is, and numbers, dates
and times have their plain texts. -/
def plain : Value → Except Failure String
  | text s => .ok s
  | number n => n.plain
  | date d => .ok d.text
  | datetime clock zone => .ok (clock.plain zone)
  | v => v.shown

end Value
end RecordFilter
