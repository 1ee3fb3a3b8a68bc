import RecordFilter.Text.Digit

/-! # Calendar dates

Dates of the Gregorian calendar, carried back before its introduction, in the years 1 to 9999. -/

namespace RecordFilter

/-- A year with 29 days in February: one in four, but of the full centuries only one in four. -/
def isLeapYear (year : Nat) : Bool := year % 4 == 0 && (year % 100 != 0 || year % 400 == 0)

/-- How many days a month has; a number that names no month has none. -/
def daysInMonth (year month : Nat) : Nat :=
  match month with
  | 1 | 3 | 5 | 7 | 8 | 10 | 12 => 31
  | 4 | 6 | 9 | 11 => 30
  | 2 => if isLeapYear year then 29 else 28
  | _ => 0

/-- The three numbers name a day of the calendar. -/
def IsCalendarDay (year month day : Nat) : Prop :=
  1 ≤ year ∧ year ≤ 9999 ∧ 1 ≤ day ∧ day ≤ daysInMonth year month

instance (year month day : Nat) : Decidable (IsCalendarDay year month day) :=
  inferInstanceAs (Decidable (_ ∧ _ ∧ _ ∧ _))

/-- A day of the calendar. -/
structure Date where
  year : Nat
  month : Nat
  day : Nat
  exists_day : IsCalendarDay year month day
  deriving DecidableEq

namespace Date

/-- The date with these parts, if the calendar has it. -/
def ofParts? (year month day : Nat) : Option Date :=
  if h : IsCalendarDay year month day then some ⟨year, month, day, h⟩ else none

/-- Days of the year before a month. -/
def daysBeforeMonth (year month : Nat) : Nat :=
  ((List.range month).map (daysInMonth year)).foldl (· + ·) 0

/-- Days before the first of January of a year, counted from the year 1. -/
def daysBeforeYear (year : Nat) : Nat :=
  let past := year - 1
  365 * past + past / 4 - past / 100 + past / 400

/-- The number of the day, the first of January of the year 1 being day 1. -/
def dayNumber (d : Date) : Nat := daysBeforeYear d.year + daysBeforeMonth d.year d.month + d.day

def order (a b : Date) : Ordering := compare a.dayNumber b.dayNumber

/-- Four digits of the year, two of the month and two of the day, with hyphens between. -/
def chars (d : Date) : List Char :=
  Text.paddedDigits 4 d.year ++ '-' :: Text.paddedDigits 2 d.month
    ++ '-' :: Text.paddedDigits 2 d.day

def text (d : Date) : String := String.ofList d.chars

end Date
end RecordFilter
