import RecordFilter.Proofs.Calendar.Zone

/-! # Written times

A text that is read as a date and time has a fixed form: digits in fixed places, a mark between the
day and the hour, a fraction of a second if there is one, and an offset. What is read is the time
whose parts are the numbers that stand there. The form leaves the parts free; whether there is such
a day, such an hour and such an offset is another question.
-/

namespace RecordFilter

open Text

/-- A fixed number of digits. -/
structure DigitText (count : Nat) where
  chars : List Char
  length_eq : chars.length = count
  digits : AllDigits chars

/-- The digits of a fraction of a second. -/
structure FractionText where
  chars : List Char
  some_digit : 1 ≤ chars.length
  few : chars.length ≤ 6
  digits : AllDigits chars

/-- An offset is a mark for universal time, or a sign with hours and minutes. -/
inductive WrittenOffset where
  | universal (mark : Char) (is_mark : mark = 'Z' ∨ mark = 'z')
  | shifted (sign : Char) (is_sign : sign = '+' ∨ sign = '-') (hours : DigitText 2) (colon : Bool)
      (minutes : DigitText 2)

/-- A date and time in the form in which it is read. -/
structure WrittenTime where
  year : DigitText 4
  month : DigitText 2
  day : DigitText 2
  separator : Char
  separates : separator = 'T' ∨ separator = ' '
  hour : DigitText 2
  minute : DigitText 2
  second : DigitText 2
  fraction : Option FractionText
  offset : WrittenOffset

def DigitText.number {count : Nat} (d : DigitText count) : Nat := natOfDigits d.chars

namespace FractionText

/-- The point and the digits of the fraction, if there is one. -/
def charsOf : Option FractionText → List Char
  | none => []
  | some f => '.' :: f.chars

/-- The six digits that come of writing zeros behind the fraction are its microseconds. -/
def microsecondsOf : Option FractionText → Nat
  | none => 0
  | some f => natOfDigits (f.chars ++ List.replicate (6 - f.chars.length) '0')

end FractionText

namespace WrittenOffset

def chars : WrittenOffset → List Char
  | universal mark _ => [mark]
  | shifted sign _ hours colon minutes =>
    sign :: (hours.chars ++ ((if colon then [':'] else []) ++ minutes.chars))

/-- Minutes count sixty seconds each, however many there are. -/
def seconds : WrittenOffset → Int
  | universal _ _ => 0
  | shifted sign _ hours _ minutes =>
    if sign = '-' then -(3600 * hours.number + 60 * minutes.number : Int)
    else 3600 * hours.number + 60 * minutes.number

end WrittenOffset

namespace WrittenTime

def chars (w : WrittenTime) : List Char :=
  w.year.chars ++ '-' :: (w.month.chars ++ '-' :: (w.day.chars ++ w.separator ::
    (w.hour.chars ++ ':' :: (w.minute.chars ++ ':' :: (w.second.chars ++
      (FractionText.charsOf w.fraction ++ w.offset.chars))))))

/-- The numbers from the year down to the microseconds. -/
def parts (w : WrittenTime) : List Nat :=
  [w.year.number, w.month.number, w.day.number, w.hour.number, w.minute.number, w.second.number,
    FractionText.microsecondsOf w.fraction]

end WrittenTime

namespace Calendar

variable {count n : Nat} {cs rest : List Char}

theorem takeNumber?_eq_some_iff : takeNumber? count cs = some (n, rest) ↔
    ∃ d : DigitText count, cs = d.chars ++ rest ∧ d.number = n := by
  rw [takeNumber?]
  constructor
  · intro h
    split at h
    · next taken =>
        cases h
        exact ⟨⟨cs.take count, taken.1, List.all_eq_true.mp taken.2⟩,
          (List.take_append_drop count cs).symm, rfl⟩
    · cases h
  · rintro ⟨d, rfl, rfl⟩
    rw [List.take_left' d.length_eq, List.drop_left' d.length_eq]
    exact if_pos ⟨d.length_eq, List.all_eq_true.mpr d.digits⟩

theorem takeMark?_eq_some_iff {p : Char → Bool} :
    takeMark? p cs = some rest ↔ ∃ c, p c = true ∧ cs = c :: rest := by
  cases cs with
  | nil => simp [takeMark?]
  | cons c cs =>
      rw [takeMark?]
      split
      · next marks =>
          simp only [Option.some.injEq, List.cons.injEq]
          constructor
          · rintro rfl
            exact ⟨c, marks, rfl, rfl⟩
          · rintro ⟨_, _, rfl, rfl⟩
            rfl
      · next other =>
          refine iff_of_false nofun ?_
          rintro ⟨_, marks, same⟩
          cases same
          exact other marks

theorem takeMark?_beq_iff {c : Char} : takeMark? (· == c) cs = some rest ↔ cs = c :: rest := by
  simp only [takeMark?_eq_some_iff, beq_iff_eq, exists_eq_left]

theorem takeDateNumbers?_eq_some_iff {year month day : Nat} :
    takeDateNumbers? cs = some ((year, month, day), rest) ↔
      ∃ (y : DigitText 4) (m d : DigitText 2),
        cs = y.chars ++ '-' :: (m.chars ++ '-' :: (d.chars ++ rest)) ∧
        y.number = year ∧ m.number = month ∧ d.number = day := by
  simp only [takeDateNumbers?, Option.bind_eq_bind, Option.bind_eq_some_iff, Option.pure_def,
    Option.some.injEq, Prod.mk.injEq, Prod.exists, takeNumber?_eq_some_iff, takeMark?_beq_iff]
  constructor
  · rintro ⟨_, _, ⟨y, rfl, rfl⟩, _, rfl, _, _, ⟨m, rfl, rfl⟩, _, rfl, _, _, ⟨d, rfl, rfl⟩,
      ⟨rfl, rfl, rfl⟩, rfl⟩
    exact ⟨y, m, d, rfl, rfl, rfl, rfl⟩
  · rintro ⟨y, m, d, rfl, rfl, rfl, rfl⟩
    exact ⟨_, _, ⟨y, rfl, rfl⟩, _, rfl, _, _, ⟨m, rfl, rfl⟩, _, rfl, _, _, ⟨d, rfl, rfl⟩,
      ⟨rfl, rfl, rfl⟩, rfl⟩

theorem takeTimeNumbers?_eq_some_iff {hour minute second : Nat} :
    takeTimeNumbers? cs = some ((hour, minute, second), rest) ↔
      ∃ h m s : DigitText 2, cs = h.chars ++ ':' :: (m.chars ++ ':' :: (s.chars ++ rest)) ∧
        h.number = hour ∧ m.number = minute ∧ s.number = second := by
  simp only [takeTimeNumbers?, Option.bind_eq_bind, Option.bind_eq_some_iff, Option.pure_def,
    Option.some.injEq, Prod.mk.injEq, Prod.exists, takeNumber?_eq_some_iff, takeMark?_beq_iff]
  constructor
  · rintro ⟨_, _, ⟨h, rfl, rfl⟩, _, rfl, _, _, ⟨m, rfl, rfl⟩, _, rfl, _, _, ⟨s, rfl, rfl⟩,
      ⟨rfl, rfl, rfl⟩, rfl⟩
    exact ⟨h, m, s, rfl, rfl, rfl, rfl⟩
  · rintro ⟨h, m, s, rfl, rfl, rfl, rfl⟩
    exact ⟨_, _, ⟨h, rfl, rfl⟩, _, rfl, _, _, ⟨m, rfl, rfl⟩, _, rfl, _, _, ⟨s, rfl, rfl⟩,
      ⟨rfl, rfl, rfl⟩, rfl⟩

private theorem exists_fraction_of_takeMicroseconds? (h : takeMicroseconds? cs = some (n, rest)) :
    ∃ f, cs = FractionText.charsOf f ++ rest ∧ FractionText.microsecondsOf f = n := by
  unfold takeMicroseconds? at h
  split at h
  · next cs =>
      simp only at h
      split at h
      · next length =>
          cases h
          refine ⟨some ⟨cs.takeWhile isDigit, length.1, length.2, ?_⟩, ?_, ?_⟩
          · exact List.all_eq_true.mp List.all_takeWhile
          · rw [FractionText.charsOf, List.cons_append, List.takeWhile_append_dropWhile]
          · exact natOfDigits_append_zeros _ _
      · cases h
  · cases h
    exact ⟨none, rfl, rfl⟩

private theorem takeMicroseconds?_fraction (f : Option FractionText) (digit : Stops isDigit rest)
    (point : rest.head? ≠ some '.') :
    takeMicroseconds? (FractionText.charsOf f ++ rest) =
      some (FractionText.microsecondsOf f, rest) := by
  cases f with
  | none =>
      rw [FractionText.charsOf, List.nil_append]
      unfold takeMicroseconds?
      split
      · exact absurd rfl point
      · rfl
  | some f =>
      rw [FractionText.charsOf, List.cons_append, takeMicroseconds?]
      simp only [takeWhile_append_of_stops f.digits digit,
        dropWhile_append_of_stops f.digits digit, FractionText.microsecondsOf,
        natOfDigits_append_zeros]
      exact if_pos ⟨f.some_digit, f.few⟩

private theorem exists_offset_of_takeOffsetSeconds? {seconds : Int}
    (h : takeOffsetSeconds? cs = some (seconds, rest)) :
    ∃ o : WrittenOffset, cs = o.chars ++ rest ∧ o.seconds = seconds := by
  cases cs with
  | nil => cases h
  | cons c cs =>
      rw [takeOffsetSeconds?] at h
      split at h
      · next mark =>
          cases h
          exact ⟨.universal c mark, rfl, rfl⟩
      · split at h
        · next sign =>
            simp only [Option.bind_eq_bind, Option.bind_eq_some_iff, Option.pure_def,
              Option.some.injEq, Prod.mk.injEq, Prod.exists, takeNumber?_eq_some_iff] at h
            obtain ⟨_, after, ⟨hours, rfl, rfl⟩, _, _, ⟨minutes, left, rfl⟩, rfl, rfl⟩ := h
            cases marked : takeMark? (· == ':') after with
            | none =>
                rw [marked, Option.getD_none] at left
                refine ⟨.shifted c sign hours false minutes, ?_, rfl⟩
                simp [WrittenOffset.chars, left]
            | some more =>
                rw [marked, Option.getD_some] at left
                refine ⟨.shifted c sign hours true minutes, ?_, rfl⟩
                simp [WrittenOffset.chars, takeMark?_beq_iff.mp marked, left]
        · cases h

private theorem takeMark?_colon_digits (d : DigitText 2) (rest : List Char) :
    takeMark? (· == ':') (d.chars ++ rest) = none := by
  obtain ⟨chars, length, digits⟩ := d
  cases chars with
  | nil => cases length
  | cons c chars =>
      have digit := digits c List.mem_cons_self
      refine if_neg ?_
      rw [beq_iff_eq]
      rintro rfl
      cases digit

private theorem takeOffsetSeconds?_written (o : WrittenOffset) (rest : List Char) :
    takeOffsetSeconds? (o.chars ++ rest) = some (o.seconds, rest) := by
  cases o with
  | universal mark is_mark => exact if_pos is_mark
  | shifted sign is_sign hours colon minutes =>
      have no_mark : ¬(sign = 'Z' ∨ sign = 'z') := by
        rcases is_sign with rfl | rfl <;> decide
      have number (d : DigitText 2) (rest : List Char) :
          takeNumber? 2 (d.chars ++ rest) = some (d.number, rest) :=
        takeNumber?_eq_some_iff.mpr ⟨d, rfl, rfl⟩
      rw [WrittenOffset.chars, List.cons_append, takeOffsetSeconds?, if_neg no_mark, if_pos is_sign]
      cases colon with
      | false =>
          simp only [List.append_assoc, number, takeMark?_colon_digits, Option.bind_eq_bind,
            Option.bind_some, Bool.false_eq_true, if_false, List.nil_append, Option.getD_none]
          rfl
      | true =>
          simp only [List.append_assoc, number, takeMark?_cons, Option.bind_eq_bind,
            Option.bind_some, if_true, List.cons_append, List.nil_append, Option.getD_some]
          rfl

end Calendar

namespace WrittenOffset

private theorem exists_head (o : WrittenOffset) :
    ∃ c cs, o.chars = c :: cs ∧ isDigit c = false ∧ c ≠ '.' := by
  cases o with
  | universal mark is_mark =>
      refine ⟨mark, [], rfl, ?_⟩
      rcases is_mark with rfl | rfl <;> decide
  | shifted sign is_sign =>
      refine ⟨sign, _, rfl, ?_⟩
      rcases is_sign with rfl | rfl <;> decide

end WrittenOffset

namespace WrittenTime

open Calendar

/-- The numbers of the text, as they are handed on. -/
def numbers (w : WrittenTime) : DateTimeNumbers where
  date := (w.year.number, w.month.number, w.day.number)
  time := (w.hour.number, w.minute.number, w.second.number)
  microsecond := FractionText.microsecondsOf w.fraction
  offsetSeconds := w.offset.seconds

private theorem takeDateTimeNumbers?_chars (w : WrittenTime) :
    takeDateTimeNumbers? w.chars = some (w.numbers, []) := by
  obtain ⟨c, cs, head, digit, point⟩ := w.offset.exists_head
  have stops : Stops isDigit w.offset.chars := head ▸ stops_cons digit cs
  have no_point : w.offset.chars.head? ≠ some '.' := by
    simp [head, point]
  have separator (cs : List Char) :
      takeMark? (fun c => c == 'T' || c == ' ') (w.separator :: cs) = some cs :=
    takeMark?_eq_some_iff.mpr ⟨w.separator, by simpa using w.separates, rfl⟩
  have offset := takeOffsetSeconds?_written w.offset []
  rw [List.append_nil] at offset
  rw [takeDateTimeNumbers?, chars,
    takeDateNumbers?_eq_some_iff.mpr ⟨w.year, w.month, w.day, rfl, rfl, rfl, rfl⟩]
  simp only [Option.bind_eq_bind, Option.bind_some, separator,
    takeTimeNumbers?_eq_some_iff.mpr ⟨w.hour, w.minute, w.second, rfl, rfl, rfl, rfl⟩,
    takeMicroseconds?_fraction w.fraction stops no_point, offset]
  rfl

private theorem exists_of_takeDateTimeNumbers? {cs rest : List Char} {n : DateTimeNumbers}
    (h : takeDateTimeNumbers? cs = some (n, rest)) :
    ∃ w : WrittenTime, cs = w.chars ++ rest ∧ w.numbers = n := by
  simp only [takeDateTimeNumbers?, Option.bind_eq_bind, Option.bind_eq_some_iff, Option.pure_def,
    Option.some.injEq, Prod.mk.injEq, Prod.exists, takeDateNumbers?_eq_some_iff,
    takeTimeNumbers?_eq_some_iff, takeMark?_eq_some_iff] at h
  obtain ⟨_, _, _, _, ⟨year, month, day, rfl, rfl, rfl, rfl⟩, _, ⟨mark, separates, rfl⟩, _, _, _, _,
    ⟨hour, minute, second, rfl, rfl, rfl, rfl⟩, _, _, micro, _, _, shift, rfl, rfl⟩ := h
  obtain ⟨fraction, rfl, rfl⟩ := exists_fraction_of_takeMicroseconds? micro
  obtain ⟨offset, rfl, rfl⟩ := exists_offset_of_takeOffsetSeconds? shift
  refine ⟨⟨year, month, day, mark, by simpa using separates, hour, minute, second, fraction, offset⟩,
    ?_, rfl⟩
  simp only [chars, List.append_assoc, List.cons_append]

/-- The time has the numbers of the text for its parts, and goes by its offset. -/
structure Names (w : WrittenTime) (z : ZonedDateTime) : Prop where
  parts : z.clock.parts = w.parts
  fixed : z.zone.isFixed = true
  offset : z.offset.microseconds = 1000000 * w.offset.seconds

theorem dateTime?_eq_some_iff {w : WrittenTime} {z : ZonedDateTime} :
    w.numbers.dateTime? = some z ↔ w.Names z := by
  simp only [DateTimeNumbers.dateTime?, numbers, Option.bind_eq_bind, Option.bind_eq_some_iff,
    Option.pure_def, Option.some.injEq]
  constructor
  · rintro ⟨d, date, clock, time, offset, shift, rfl⟩
    obtain ⟨year, month, day⟩ := Date.ofParts?_eq_some_iff.mp date
    unfold WallClock.ofParts? at time
    unfold Offset.ofSeconds? at shift
    split at time
    · split at shift
      · cases time
        cases shift
        refine ⟨?_, rfl, rfl⟩
        rw [WallClock.parts, year, month, day, parts]
      · cases shift
    · cases time
  · rintro ⟨same, fixed, shift⟩
    obtain ⟨⟨date, hour, minute, second, micro, in_day⟩, zone⟩ := z
    cases zone with
    | region => cases fixed
    | fixed offset =>
        simp only [WallClock.parts, parts, List.cons.injEq, and_true] at same
        obtain ⟨year, month, day, rfl, rfl, rfl, rfl⟩ := same
        refine ⟨date, Date.ofParts?_eq_some_iff.mpr ⟨year, month, day⟩, _, dif_pos in_day, offset,
          ?_, rfl⟩
        have bound := offset.under_day
        change offset.microseconds = 1000000 * w.offset.seconds at shift
        rw [Offset.ofSeconds?, dif_pos (by omega)]
        exact congrArg some (Offset.ext shift.symm)

end WrittenTime

/-- A text is read as a time exactly if it has the form and the time has its numbers. -/
theorem ZonedDateTime.read_eq_iff {text : String} {z : ZonedDateTime} :
    ZonedDateTime.read text = .read z ↔ ∃ w : WrittenTime, text.toList = w.chars ∧ w.Names z := by
  rw [ZonedDateTime.read]
  constructor
  · intro h
    split at h
    · next numbers taken =>
        obtain ⟨w, form, rfl⟩ := WrittenTime.exists_of_takeDateTimeNumbers? taken
        rw [List.append_nil] at form
        cases hz : w.numbers.dateTime? with
        | none =>
            rw [hz] at h
            cases h
        | some found =>
            rw [hz] at h
            cases h
            exact ⟨w, form, WrittenTime.dateTime?_eq_some_iff.mp hz⟩
    · cases h
    · cases h
  · rintro ⟨w, form, named⟩
    rw [form, w.takeDateTimeNumbers?_chars]
    simp only [WrittenTime.dateTime?_eq_some_iff.mpr named, Reading.ofForm]

end RecordFilter
