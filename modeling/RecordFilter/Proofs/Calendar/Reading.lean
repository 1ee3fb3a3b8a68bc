import RecordFilter.Calendar.Reading
import RecordFilter.Proofs.Text.Digits

/-! # Dates and times read back

Every part of a date or a time is written with a fixed number of digits, so each is taken off as it
was put there. An offset is written in hours and minutes; one that has seconds as well is written in
a form that is not read. Of a zone nothing is written but its offset, so what is read goes by that
offset at all times.
-/

namespace RecordFilter

open Text

/-- The offset has no seconds of its own. Every offset that can be read is of this kind. -/
def Offset.IsWholeMinutes (o : Offset) : Prop := 60000000 ∣ o.microseconds

/-- The offset is the same at all times. -/
def TimeZone.isFixed : TimeZone → Bool
  | fixed _ => true
  | region .. => false

/-- The clock with the offset that it has now, at all times. -/
def ZonedDateTime.atOffset (z : ZonedDateTime) : ZonedDateTime := ⟨z.clock, .fixed z.offset⟩

theorem ZonedDateTime.atOffset_eq {z : ZonedDateTime} (h : z.zone.isFixed = true) :
    z.atOffset = z := by
  obtain ⟨clock, zone⟩ := z
  cases zone with
  | fixed => rfl
  | region => cases h

namespace Calendar

variable {count n : Nat} {rest : List Char}

theorem takeNumber?_paddedDigits (hc : 0 < count) (h : n < 10 ^ count) (rest : List Char) :
    takeNumber? count (paddedDigits count n ++ rest) = some (n, rest) := by
  have length := length_paddedDigits hc h
  have digits : (paddedDigits count n).all isDigit = true :=
    List.all_eq_true.mpr (AllDigits.paddedDigits count n)
  have take : (paddedDigits count n ++ rest).take count = paddedDigits count n :=
    List.take_left' length
  have drop : (paddedDigits count n ++ rest).drop count = rest := List.drop_left' length
  simp only [takeNumber?, take, drop, length, digits, and_self, if_true, natOfDigits_paddedDigits]

theorem takeMark?_cons (c : Char) (cs : List Char) : takeMark? (· == c) (c :: cs) = some cs :=
  if_pos (beq_self_eq_true c)

theorem month_le_of_day {year month day : Nat} (h : IsCalendarDay year month day) : month ≤ 12 := by
  obtain ⟨_, _, some_day, within⟩ := h
  apply Nat.le_of_not_lt
  intro beyond
  have none : daysInMonth year month = 0 := by
    unfold daysInMonth
    split <;> omega
  omega

private theorem day_le {year month day : Nat} (h : IsCalendarDay year month day) : day ≤ 31 := by
  obtain ⟨_, _, _, within⟩ := h
  apply Nat.le_trans within
  unfold daysInMonth
  split <;> first | decide | (split <;> decide)

theorem takeDateNumbers?_chars (d : Date) (rest : List Char) :
    takeDateNumbers? (d.chars ++ rest) = some ((d.year, d.month, d.day), rest) := by
  have year : d.year < 10 ^ 4 := by
    have := d.exists_day.2.1
    omega
  have month : d.month < 10 ^ 2 := by
    have := month_le_of_day d.exists_day
    omega
  have day : d.day < 10 ^ 2 := by
    have := day_le d.exists_day
    omega
  simp only [takeDateNumbers?, Date.chars, List.append_assoc, List.cons_append,
    takeNumber?_paddedDigits (by decide : 0 < 4) year,
    takeNumber?_paddedDigits (by decide : 0 < 2) month,
    takeNumber?_paddedDigits (by decide : 0 < 2) day, takeMark?_cons '-',
    Option.bind_eq_bind, Option.bind_some, Option.pure_def]

theorem ofParts?_parts (d : Date) : Date.ofParts? d.year d.month d.day = some d :=
  dif_pos d.exists_day

private theorem takeTimeNumbers?_chars (w : WallClock) (rest : List Char) :
    takeTimeNumbers? (paddedDigits 2 w.hour ++ ':' :: (paddedDigits 2 w.minute ++
      ':' :: (paddedDigits 2 w.second ++ rest))) = some ((w.hour, w.minute, w.second), rest) := by
  obtain ⟨hour, minute, second, _⟩ := w.in_day
  have two {n bound : Nat} (h : n < bound) (hb : bound ≤ 100) : n < 10 ^ 2 := by omega
  simp only [takeTimeNumbers?,
    takeNumber?_paddedDigits (by decide : 0 < 2) (two hour (by decide)),
    takeNumber?_paddedDigits (by decide : 0 < 2) (two minute (by decide)),
    takeNumber?_paddedDigits (by decide : 0 < 2) (two second (by decide)),
    takeMark?_cons ':', Option.bind_eq_bind, Option.bind_some, Option.pure_def]

/-- The microseconds are read back, also where none are written. -/
theorem takeMicroseconds?_chars {micro : Nat} (h : micro < 1000000) (digit : Stops isDigit rest)
    (point : rest.head? ≠ some '.') :
    takeMicroseconds? ((if micro = 0 then [] else '.' :: paddedDigits 6 micro) ++ rest) =
      some (micro, rest) := by
  split
  · next zero =>
      rw [List.nil_append, zero]
      unfold takeMicroseconds?
      split
      · exact absurd rfl point
      · rfl
  · have length : (paddedDigits 6 micro).length = 6 := length_paddedDigits (by decide) h
    have digits := AllDigits.paddedDigits 6 micro
    rw [List.cons_append, takeMicroseconds?]
    simp only [takeWhile_append_of_stops digits digit, dropWhile_append_of_stops digits digit,
      length, natOfDigits_paddedDigits]
    simp

/-- The text of an offset as it stands in a query. -/
def offsetChars (o : Offset) : List Char := if o = .utc then ['Z'] else o.chars

private theorem takeOffsetSeconds?_sign {c : Char} (hc : c = '+' ∨ c = '-') {hours minutes : Nat}
    (hh : hours < 10 ^ 2) (hm : minutes < 10 ^ 2) (rest : List Char) :
    takeOffsetSeconds? (c :: (paddedDigits 2 hours ++ ':' :: (paddedDigits 2 minutes ++ rest))) =
      some (if c = '-' then -(3600 * hours + 60 * minutes : Int) else 3600 * hours + 60 * minutes,
        rest) := by
  have universal : ¬(c = 'Z' ∨ c = 'z') := by
    rcases hc with rfl | rfl <;> decide
  rw [takeOffsetSeconds?, if_neg universal, if_pos hc]
  simp only [takeNumber?_paddedDigits (by decide : 0 < 2) hh,
    takeNumber?_paddedDigits (by decide : 0 < 2) hm, takeMark?_cons ':', Option.getD_some,
    Option.bind_eq_bind, Option.bind_some, Option.pure_def]

/-- The seconds of an offset that does not consist of whole minutes. -/
def leftSeconds (o : Offset) : List Char :=
  let total := o.microseconds.natAbs
  if total % 60000000 = 0 then []
  else ':' :: paddedDigits 2 (total / 1000000 % 60)
    ++ (if total % 1000000 = 0 then [] else '.' :: paddedDigits 6 (total % 1000000))

/-- Of an offset hours and minutes are read, and its seconds are left over. -/
theorem takeOffsetSeconds?_offset (o : Offset) (rest : List Char) :
    ∃ seconds, takeOffsetSeconds? (offsetChars o ++ rest) = some (seconds, leftSeconds o ++ rest) ∧
      (o.IsWholeMinutes → 1000000 * seconds = o.microseconds) := by
  unfold offsetChars
  split
  · next universal =>
      subst universal
      exact ⟨0, rfl, fun _ => rfl⟩
  · have bound := o.under_day
    have hour : o.microseconds.natAbs / 3600000000 < 10 ^ 2 := by omega
    have minute : o.microseconds.natAbs / 60000000 % 60 < 10 ^ 2 := by omega
    have chars : o.chars ++ rest = (if o.microseconds < 0 then '-' else '+') ::
        (paddedDigits 2 (o.microseconds.natAbs / 3600000000) ++
          ':' :: (paddedDigits 2 (o.microseconds.natAbs / 60000000 % 60) ++
            (leftSeconds o ++ rest))) := by
      simp only [Offset.chars, leftSeconds, List.cons_append, List.append_assoc]
    rw [chars]
    by_cases negative : o.microseconds < 0
    · rw [if_pos negative, takeOffsetSeconds?_sign (.inr rfl) hour minute, if_pos rfl]
      refine ⟨_, rfl, fun h => ?_⟩
      have := Int.emod_eq_zero_of_dvd h
      omega
    · rw [if_neg negative, takeOffsetSeconds?_sign (.inl rfl) hour minute, if_neg (by decide)]
      refine ⟨_, rfl, fun h => ?_⟩
      have := Int.emod_eq_zero_of_dvd h
      omega

theorem leftSeconds_eq_nil {o : Offset} (h : o.IsWholeMinutes) : leftSeconds o = [] := by
  have minutes : o.microseconds.natAbs % 60000000 = 0 := by
    have := Int.emod_eq_zero_of_dvd h
    omega
  exact if_pos minutes

/-- Offsets are read in hours and minutes. -/
theorem dvd_of_takeOffsetSeconds? {cs rest : List Char} {seconds : Int}
    (h : takeOffsetSeconds? cs = some (seconds, rest)) : 60 ∣ seconds := by
  cases cs with
  | nil => cases h
  | cons c cs =>
      rw [takeOffsetSeconds?] at h
      split at h
      · cases h
        exact Int.dvd_zero 60
      · split at h
        · simp only [Option.bind_eq_bind, Option.bind_eq_some_iff, Option.pure_def,
            Option.some.injEq, Prod.mk.injEq] at h
          obtain ⟨⟨hours, _⟩, _, ⟨minutes, _⟩, _, rfl, _⟩ := h
          split <;> omega
        · cases h

end Calendar

/-- A date is read back from its text. -/
theorem Date.read_text (d : Date) : Date.read d.text = .read d := by
  have numbers := Calendar.takeDateNumbers?_chars d []
  rw [List.append_nil] at numbers
  rw [Date.read, Date.text, String.toList_ofList, numbers]
  simp only [Calendar.ofParts?_parts, Reading.ofForm]

namespace ZonedDateTime

open Calendar

/-- The text of a time is taken apart into the numbers that it was made of. -/
theorem takeDateTimeNumbers?_chars (z : ZonedDateTime) :
    ∃ seconds, takeDateTimeNumbers? z.shortText.toList =
      some (⟨(z.clock.date.year, z.clock.date.month, z.clock.date.day),
        (z.clock.hour, z.clock.minute, z.clock.second), z.clock.microsecond, seconds⟩,
        leftSeconds z.offset) ∧
        (z.offset.IsWholeMinutes → 1000000 * seconds = z.offset.microseconds) := by
  have digit : Stops isDigit (offsetChars z.offset) := by
    unfold offsetChars Offset.chars
    split
    · exact stops_cons rfl _
    · split <;> exact stops_cons rfl _
  have point : (offsetChars z.offset).head? ≠ some '.' := by
    unfold offsetChars Offset.chars
    split
    · decide
    · split <;> simp
  obtain ⟨seconds, offset, whole⟩ := takeOffsetSeconds?_offset z.offset []
  rw [List.append_nil, List.append_nil] at offset
  have chars : z.shortText.toList = z.clock.date.chars ++ ('T' ::
      (paddedDigits 2 z.clock.hour ++ ':' :: (paddedDigits 2 z.clock.minute ++ ':' ::
        (paddedDigits 2 z.clock.second ++ ((if z.clock.microsecond = 0 then [] else
          '.' :: paddedDigits 6 z.clock.microsecond) ++ offsetChars z.offset))))) := by
    simp only [shortText, String.toList_ofList, WallClock.chars, List.append_assoc, List.cons_append,
      offsetChars]
  have separator (cs : List Char) :
      takeMark? (fun c => c == 'T' || c == ' ') ('T' :: cs) = some cs := rfl
  refine ⟨seconds, ?_, whole⟩
  rw [chars, takeDateTimeNumbers?, takeDateNumbers?_chars]
  simp only [Option.bind_eq_bind, Option.bind_some, separator, takeTimeNumbers?_chars,
    takeMicroseconds?_chars z.clock.in_day.2.2.2 digit point, offset, Option.pure_def]

/-- A time is read back from its text, with its wall clock and its offset. -/
theorem read_shortText {z : ZonedDateTime} (h : z.offset.IsWholeMinutes) :
    ZonedDateTime.read z.shortText = .read z.atOffset := by
  obtain ⟨seconds, numbers, whole⟩ := takeDateTimeNumbers?_chars z
  have clock : WallClock.ofParts? z.clock.date z.clock.hour z.clock.minute z.clock.second
      z.clock.microsecond = some z.clock := dif_pos z.clock.in_day
  have held : Offset.ofSeconds? seconds = some z.offset := by
    have bound := z.offset.under_day
    have counted := whole h
    rw [Offset.ofSeconds?, dif_pos (by omega)]
    exact congrArg some (Offset.ext counted)
  rw [ZonedDateTime.read, numbers, leftSeconds_eq_nil h]
  simp only [DateTimeNumbers.dateTime?, ofParts?_parts, clock, held, Option.bind_eq_bind,
    Option.bind_some, Option.pure_def, Reading.ofForm, atOffset]

/-- The text of a time is only read if nothing of its offset is left over. -/
theorem isWholeMinutes_of_read_shortText {y z : ZonedDateTime}
    (h : ZonedDateTime.read z.shortText = .read y) : z.offset.IsWholeMinutes := by
  obtain ⟨seconds, numbers, _⟩ := takeDateTimeNumbers?_chars z
  rw [ZonedDateTime.read, numbers, leftSeconds] at h
  split at h
  · next taken =>
      split at taken
      · next minutes =>
          rw [Offset.IsWholeMinutes]
          omega
      · cases taken
  · cases h
  · cases h

/-- A time that is read has one offset at all times, of whole minutes. -/
theorem isFixed_of_read {text : String} {z : ZonedDateTime}
    (h : ZonedDateTime.read text = .read z) :
    z.zone.isFixed = true ∧ z.offset.IsWholeMinutes := by
  unfold ZonedDateTime.read at h
  split at h
  · next numbers taken =>
      have seconds : 60 ∣ numbers.offsetSeconds := by
        simp only [takeDateTimeNumbers?, Option.bind_eq_bind, Option.bind_eq_some_iff,
          Option.pure_def, Option.some.injEq, Prod.mk.injEq] at taken
        obtain ⟨_, _, _, _, _, _, _, _, ⟨seconds, _⟩, offset, rfl, _⟩ := taken
        exact dvd_of_takeOffsetSeconds? offset
      cases hz : numbers.dateTime? with
      | none =>
          rw [hz] at h
          cases h
      | some found =>
          rw [hz] at h
          cases h
          simp only [DateTimeNumbers.dateTime?, Option.bind_eq_bind, Option.bind_eq_some_iff,
            Option.pure_def, Option.some.injEq] at hz
          obtain ⟨_, _, _, _, offset, held, rfl⟩ := hz
          unfold Offset.ofSeconds? at held
          split at held
          · cases held
            refine ⟨rfl, ?_⟩
            change 60000000 ∣ 1000000 * numbers.offsetSeconds
            omega
          · cases held
  · cases h
  · cases h

end ZonedDateTime
end RecordFilter
