import RecordFilter.Calendar.DateTime

/-! # Reading dates and times

The form of a text and its meaning are told apart: a text may have the form of a date and yet name
no day of the calendar. -/

namespace RecordFilter

open Text

/-- What became of reading a text as a date or a time. -/
inductive Reading (α : Type) where
  /-- The text does not have the form. -/
  | otherForm
  /-- The text has the form and names nothing. -/
  | impossible
  | read (result : α)
  deriving DecidableEq

namespace Reading

/-- The result, if the text names one; a text of the right form that names none is impossible. -/
def ofForm {α : Type} : Option α → Reading α
  | some a => read a
  | none => impossible

end Reading

namespace Calendar

/-- Splits off exactly `count` digits and gives their number. -/
def takeNumber? (count : Nat) (cs : List Char) : Option (Nat × List Char) :=
  let digits := cs.take count
  if digits.length = count ∧ digits.all isDigit then some (natOfDigits digits, cs.drop count)
  else none

/-- Splits off one of the characters that satisfy `p`. -/
def takeMark? (p : Char → Bool) : List Char → Option (List Char)
  | c :: cs => if p c then some cs else none
  | [] => none

/-- The numbers of a date at the start of a text: four, two and two digits with hyphens between. -/
def takeDateNumbers? (cs : List Char) : Option ((Nat × Nat × Nat) × List Char) := do
  let (year, cs) ← takeNumber? 4 cs
  let cs ← takeMark? (· == '-') cs
  let (month, cs) ← takeNumber? 2 cs
  let cs ← takeMark? (· == '-') cs
  let (day, cs) ← takeNumber? 2 cs
  return ((year, month, day), cs)

/-- The numbers of a time of day at the start of a text: three times two digits with colons
between. -/
def takeTimeNumbers? (cs : List Char) : Option ((Nat × Nat × Nat) × List Char) := do
  let (hour, cs) ← takeNumber? 2 cs
  let cs ← takeMark? (· == ':') cs
  let (minute, cs) ← takeNumber? 2 cs
  let cs ← takeMark? (· == ':') cs
  let (second, cs) ← takeNumber? 2 cs
  return ((hour, minute, second), cs)

/-- The microseconds that a fraction of one to six digits spells; without a point there are
none. -/
def takeMicroseconds? : List Char → Option (Nat × List Char)
  | '.' :: cs =>
    let digits := cs.takeWhile isDigit
    if 1 ≤ digits.length ∧ digits.length ≤ 6 then
      some (natOfDigits digits * Nat.pow 10 (6 - digits.length), cs.dropWhile isDigit)
    else none
  | cs => some (0, cs)

/-- The seconds of an offset at the start of a text: `Z` in either case, or a sign, hours and
minutes with or without a colon between. Minutes above 59 are carried. -/
def takeOffsetSeconds? : List Char → Option (Int × List Char)
  | [] => none
  | c :: cs =>
    if c = 'Z' ∨ c = 'z' then some (0, cs)
    else if c = '+' ∨ c = '-' then do
      let (hours, cs) ← takeNumber? 2 cs
      let (minutes, cs) ← takeNumber? 2 ((takeMark? (· == ':') cs).getD cs)
      let seconds : Int := 3600 * hours + 60 * minutes
      return (if c = '-' then -seconds else seconds, cs)
    else none

/-- The numbers of a date and time as they were written. -/
structure DateTimeNumbers where
  date : Nat × Nat × Nat
  time : Nat × Nat × Nat
  microsecond : Nat
  offsetSeconds : Int

/-- The numbers of a date and time at the start of a text, with `T` or a space between the two. -/
def takeDateTimeNumbers? (cs : List Char) : Option (DateTimeNumbers × List Char) := do
  let (date, cs) ← takeDateNumbers? cs
  let cs ← takeMark? (fun c => c == 'T' || c == ' ') cs
  let (time, cs) ← takeTimeNumbers? cs
  let (microsecond, cs) ← takeMicroseconds? cs
  let (offsetSeconds, cs) ← takeOffsetSeconds? cs
  return (⟨date, time, microsecond, offsetSeconds⟩, cs)

namespace DateTimeNumbers

/-- What the numbers name, if the calendar, the clock and the offset all exist. -/
def dateTime? (n : DateTimeNumbers) : Option ZonedDateTime := do
  let (year, month, day) := n.date
  let (hour, minute, second) := n.time
  let date ← Date.ofParts? year month day
  let clock ← WallClock.ofParts? date hour minute second n.microsecond
  let offset ← Offset.ofSeconds? n.offsetSeconds
  return ⟨clock, .fixed offset⟩

end DateTimeNumbers

end Calendar

/-- Reads a date. A newline after the date leaves its form intact, but such a text names no
date. -/
def Date.read (text : String) : Reading Date :=
  match Calendar.takeDateNumbers? text.toList with
  | some ((year, month, day), []) => .ofForm (Date.ofParts? year month day)
  | some (_, ['\n']) => .impossible
  | _ => .otherForm

/-- Reads a date and time with its offset. A newline at the end leaves the form intact, but such a
text names no instant. -/
def ZonedDateTime.read (text : String) : Reading ZonedDateTime :=
  match Calendar.takeDateTimeNumbers? text.toList with
  | some (numbers, []) => .ofForm numbers.dateTime?
  | some (_, ['\n']) => .impossible
  | _ => .otherForm

end RecordFilter
