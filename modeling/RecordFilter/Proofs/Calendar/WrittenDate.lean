import RecordFilter.Proofs.Calendar.WrittenTime

/-! # Written dates

A text is read as a date if it has the form of one and the numbers in it name a day of the calendar.
The places of the form are of fixed width and stand in the order of their weight, so a day has one
text only, and days come one after the other as their texts do in a dictionary.
-/

namespace RecordFilter

open Text

/-- A date in the form in which it is read. -/
structure WrittenDate where
  year : DigitText 4
  month : DigitText 2
  day : DigitText 2

namespace WrittenDate

def chars (w : WrittenDate) : List Char :=
  w.year.chars ++ '-' :: (w.month.chars ++ '-' :: w.day.chars)

/-- The date has the numbers of the text for its parts. -/
structure Names (w : WrittenDate) (d : Date) : Prop where
  year : d.year = w.year.number
  month : d.month = w.month.number
  day : d.day = w.day.number

theorem exists_names_iff {w : WrittenDate} :
    (∃ d, w.Names d) ↔ IsCalendarDay w.year.number w.month.number w.day.number := by
  constructor
  · rintro ⟨d, year, month, day⟩
    rw [← year, ← month, ← day]
    exact d.exists_day
  · intro h
    exact ⟨⟨_, _, _, h⟩, rfl, rfl, rfl⟩

theorem ofParts?_eq_some_iff {w : WrittenDate} {d : Date} :
    Date.ofParts? w.year.number w.month.number w.day.number = some d ↔ w.Names d := by
  rw [Date.ofParts?_eq_some_iff]
  constructor
  · rintro ⟨year, month, day⟩
    exact ⟨year, month, day⟩
  · rintro ⟨year, month, day⟩
    exact ⟨year, month, day⟩

theorem takeDateNumbers?_append (w : WrittenDate) (rest : List Char) :
    Calendar.takeDateNumbers? (w.chars ++ rest) =
      some ((w.year.number, w.month.number, w.day.number), rest) := by
  apply Calendar.takeDateNumbers?_eq_some_iff.mpr
  refine ⟨w.year, w.month, w.day, ?_, rfl, rfl, rfl⟩
  simp only [chars, List.append_assoc, List.cons_append]

end WrittenDate

/-- A text is read as a date exactly if it has the form and the date has its numbers. -/
theorem Date.read_eq_iff {text : String} {d : Date} :
    Date.read text = .read d ↔ ∃ w : WrittenDate, text.toList = w.chars ∧ w.Names d := by
  rw [Date.read]
  constructor
  · intro h
    split at h
    · next year month day taken =>
        obtain ⟨y, m, n, form, rfl, rfl, rfl⟩ := Calendar.takeDateNumbers?_eq_some_iff.mp taken
        rw [List.append_nil] at form
        cases hd : Date.ofParts? y.number m.number n.number with
        | none =>
            rw [hd] at h
            cases h
        | some found =>
            rw [hd] at h
            cases h
            exact ⟨⟨y, m, n⟩, form, WrittenDate.ofParts?_eq_some_iff.mp hd⟩
    · cases h
    · cases h
  · rintro ⟨w, form, named⟩
    have taken := w.takeDateNumbers?_append []
    rw [List.append_nil] at taken
    rw [form, taken]
    simp only [WrittenDate.ofParts?_eq_some_iff.mpr named, Reading.ofForm]

namespace Text

private theorem compare_toNat (c d : Char) : compare c.toNat d.toNat = compare c d := by
  rcases Nat.lt_trichotomy c.toNat d.toNat with h | h | h
  · rw [Nat.compare_eq_lt.mpr h]
    exact (if_pos h).symm
  · rw [Nat.compare_eq_eq.mpr h, Char.toNat_inj.mp h]
    exact (Std.LawfulEqOrd.compare_eq_iff_eq.mpr rfl).symm
  · rw [Nat.compare_eq_gt.mpr h]
    have later : ¬c < d := Nat.not_lt_of_gt h
    have other : c ≠ d := by
      rintro rfl
      exact Nat.lt_irrefl _ h
    exact ((if_neg later).trans (if_neg other)).symm

private theorem compare_digit {c d : Char} (hc : isDigit c = true) (hd : isDigit d = true) :
    compare (natOfDigits [c]) (natOfDigits [d]) = compare c d := by
  have from_zero {c : Char} (h : isDigit c = true) : 48 ≤ c.toNat := by
    simp only [isDigit, Bool.and_eq_true, decide_eq_true_eq] at h
    exact h.1
  have value (c : Char) : natOfDigits [c] = 10 * 0 + (c.toNat - 48) := Nat.ofDigitChars_cons
  have first := from_zero hc
  have second := from_zero hd
  have less : 10 * 0 + (c.toNat - 48) < 10 * 0 + (d.toNat - 48) ↔ c.toNat < d.toNat := by omega
  have greater : 10 * 0 + (d.toNat - 48) < 10 * 0 + (c.toNat - 48) ↔ d.toNat < c.toNat := by omega
  rw [← compare_toNat, value, value]
  simp only [Nat.compare_eq_ite_lt, less, greater]

/-- Runs of digits of one length are ordered as the numbers that they spell. -/
theorem compare_natOfDigits {xs ys : List Char} (hl : xs.length = ys.length) (hx : AllDigits xs)
    (hy : AllDigits ys) : compare (natOfDigits xs) (natOfDigits ys) = compare xs ys := by
  induction xs generalizing ys with
  | nil =>
      cases ys with
      | nil => rfl
      | cons d ys => cases hl
  | cons c xs ih =>
      cases ys with
      | nil => cases hl
      | cons d ys =>
          rw [AllDigits, List.forall_mem_cons] at hx hy
          have length : xs.length = ys.length := Nat.succ.inj hl
          have rest : natOfDigits ys < 10 ^ xs.length := length ▸ natOfDigits_lt hy.2
          rw [← List.singleton_append, ← List.singleton_append (l := ys), natOfDigits_append,
            natOfDigits_append, ← length, WallClock.compare_units (natOfDigits_lt hx.2) rest,
            compare_digit hx.1 hy.1, ih length hx.2 hy.2, List.singleton_append,
            List.singleton_append, List.compare_cons_cons]

theorem compare_append {xs ys : List Char} (hl : xs.length = ys.length) (as bs : List Char) :
    compare (xs ++ as) (ys ++ bs) = (compare xs ys).then (compare as bs) := by
  induction xs generalizing ys with
  | nil =>
      cases ys with
      | nil => rfl
      | cons d ys => cases hl
  | cons c xs ih =>
      cases ys with
      | nil => cases hl
      | cons d ys =>
          rw [List.cons_append, List.cons_append, List.compare_cons_cons, List.compare_cons_cons,
            ih (Nat.succ.inj hl), Ordering.then_assoc]

end Text

private theorem DigitText.compare_number {count : Nat} (a b : DigitText count) :
    compare a.number b.number = compare a.chars b.chars :=
  compare_natOfDigits (a.length_eq.trans b.length_eq.symm) a.digits b.digits

theorem WrittenDate.order_eq {v w : WrittenDate} {d e : Date} (hd : v.Names d) (he : w.Names e) :
    d.order e = compare v.chars w.chars := by
  have length {count : Nat} (a b : DigitText count) : a.chars.length = b.chars.length :=
    a.length_eq.trans b.length_eq.symm
  have hyphen (xs ys : List Char) : compare ('-' :: xs) ('-' :: ys) = compare xs ys := by
    rw [List.compare_cons_cons]
    rfl
  rw [Date.order, Date.compare_dayNumber, hd.year, hd.month, hd.day, he.year, he.month, he.day,
    chars, chars, compare_append (length _ _), hyphen, compare_append (length _ _), hyphen,
    DigitText.compare_number, DigitText.compare_number, DigitText.compare_number]

/-- A day has only one text. -/
theorem WrittenDate.chars_eq_of_names {w : WrittenDate} {d : Date} (h : w.Names d) :
    w.chars = d.chars := by
  obtain ⟨v, form, named⟩ := Date.read_eq_iff.mp d.read_text
  have same : compare v.chars w.chars = .eq := by
    rw [← order_eq named h]
    exact Date.order_eq_iff.mpr rfl
  rw [← Std.LawfulEqOrd.compare_eq_iff_eq.mp same, ← form, Date.text, String.toList_ofList]

end RecordFilter
