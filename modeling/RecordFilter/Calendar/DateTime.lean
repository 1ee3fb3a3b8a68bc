import RecordFilter.Calendar.Date

/-! # Wall clocks, zones and instants

A wall clock is a date and a time of day. With an offset from universal time it names an instant,
which is counted exactly in microseconds; instants need no calendar, so those of the years 1 and
9999 are as exact as any other. Clocks of one region are compared by what they show, whatever their
offsets, and a time that its region shows twice or leaves out is at no instant of another zone. -/

namespace RecordFilter

/-- A date and a time of day, to the microsecond. -/
structure WallClock where
  date : Date
  hour : Nat
  minute : Nat
  second : Nat
  microsecond : Nat
  in_day : hour < 24 ∧ minute < 60 ∧ second < 60 ∧ microsecond < 1000000
  deriving DecidableEq

/-- How far a clock is ahead of universal time, in microseconds: less than a day either way. -/
@[ext]
structure Offset where
  microseconds : Int
  under_day : -86400000000 < microseconds ∧ microseconds < 86400000000
  deriving DecidableEq

/-- What a wall clock goes by. -/
inductive TimeZone where
  /-- The offset is the same at all times. -/
  | fixed (offset : Offset)
  /-- A region, known by its key, with what its rules say of the time that the clock shows. A time
  that is shown twice has its first and its second offset, and `again` tells which is meant; so it
  is with a time that is left out, and at all other times the two are one. -/
  | region (key : String) (first second : Offset) (again : Bool)
  deriving DecidableEq

/-- A wall clock with its zone. -/
structure ZonedDateTime where
  clock : WallClock
  zone : TimeZone
  deriving DecidableEq

namespace WallClock

/-- The wall clock with these parts, if a day has such a time. -/
def ofParts? (date : Date) (hour minute second microsecond : Nat) : Option WallClock :=
  if h : hour < 24 ∧ minute < 60 ∧ second < 60 ∧ microsecond < 1000000 then
    some ⟨date, hour, minute, second, microsecond, h⟩
  else none

/-- Seconds since the start of the day. -/
def secondOfDay (w : WallClock) : Nat := 3600 * w.hour + 60 * w.minute + w.second

/-- Microseconds since the start of the year 1, a day before which is day 0. -/
def microseconds (w : WallClock) : Nat :=
  1000000 * (86400 * w.date.dayNumber + w.secondOfDay) + w.microsecond

/-- The text of a wall clock; the microseconds are written, with six digits, only if there are
any. -/
def chars (w : WallClock) : List Char :=
  w.date.chars ++ 'T' :: Text.paddedDigits 2 w.hour ++ ':' :: Text.paddedDigits 2 w.minute
    ++ ':' :: Text.paddedDigits 2 w.second
    ++ (if w.microsecond = 0 then [] else '.' :: Text.paddedDigits 6 w.microsecond)

end WallClock

namespace Offset

def utc : Offset := ⟨0, by decide⟩

/-- The offset of this many seconds, if it is less than a day. -/
def ofSeconds? (seconds : Int) : Option Offset :=
  if h : -86400 < seconds ∧ seconds < 86400 then some ⟨1000000 * seconds, by omega⟩ else none

/-- A sign, hours and minutes; the seconds are written only if there is anything beyond minutes, and
microseconds only if there are any. -/
def chars (o : Offset) : List Char :=
  let total := o.microseconds.natAbs
  let microsecond := total % 1000000
  (if o.microseconds < 0 then '-' else '+') :: Text.paddedDigits 2 (total / 3600000000)
    ++ ':' :: Text.paddedDigits 2 (total / 60000000 % 60)
    ++ (if total % 60000000 = 0 then []
      else ':' :: Text.paddedDigits 2 (total / 1000000 % 60)
        ++ (if microsecond = 0 then [] else '.' :: Text.paddedDigits 6 microsecond))

end Offset

namespace TimeZone

def utc : TimeZone := fixed .utc

def offset : TimeZone → Offset
  | fixed offset => offset
  | region _ first second again => if again then second else first

/-- The clock shows its time once. -/
def isSettled : TimeZone → Bool
  | fixed _ => true
  | region _ first second _ => first == second

def sameRegion : TimeZone → TimeZone → Bool
  | region key .., region other .. => key == other
  | _, _ => false

end TimeZone

/-- The text of a wall clock, followed by its offset if it has a zone. -/
def WallClock.text (w : WallClock) (zone : Option TimeZone) : String :=
  String.ofList (w.chars ++ (zone.map fun z => z.offset.chars).getD [])

namespace ZonedDateTime

def offset (z : ZonedDateTime) : Offset := z.zone.offset

/-- The instant, in microseconds of universal time. -/
def instant (z : ZonedDateTime) : Int := (z.clock.microseconds : Int) - z.offset.microseconds

/-- How two times are ordered, if they are. Times of one region are ordered by what their clocks
show, others by their instants. Two that are at one instant are in no order unless both clocks show
their times once. -/
def order? (a b : ZonedDateTime) : Option Ordering :=
  if a.zone.sameRegion b.zone then some (compare a.clock.microseconds b.clock.microseconds)
  else
    match compare a.instant b.instant with
    | .eq => if a.zone.isSettled && b.zone.isSettled then some .eq else none
    | apart => some apart

def same (a b : ZonedDateTime) : Bool := a.order? b == some .eq

/-- The time of a clock; one without a zone is taken as universal time. -/
def ofClock (clock : WallClock) (zone : Option TimeZone) : ZonedDateTime := ⟨clock, zone.getD .utc⟩

/-- The wall clock followed by its offset, with `Z` in place of a zero offset. -/
def shortText (z : ZonedDateTime) : String :=
  String.ofList (z.clock.chars ++ if z.offset = .utc then ['Z'] else z.offset.chars)

end ZonedDateTime
end RecordFilter
