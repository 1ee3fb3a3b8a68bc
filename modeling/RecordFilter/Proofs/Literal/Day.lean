import RecordFilter.Literal.Match
import RecordFilter.Proofs.Calendar.WrittenDate
import RecordFilter.Proofs.Literal.RoundTrip

/-! # Texts that are cast to dates

A text is cast to a date exactly if it has the form of one and there is such a day. What may go
wrong is told apart: another form, and a form that names no day, to which a newline behind a date
belongs. A date is written as the text that it came from, and the texts of two dates are ordered as
the days are when they are counted.
-/

namespace RecordFilter

open Text

/-- The text is nothing but a written date, and the calendar has its day. -/
def IsDayText (text : String) : Prop :=
  ∃ w : WrittenDate, text.toList = w.chars ∧
    IsCalendarDay w.year.number w.month.number w.day.number

/-- The text is a written date, of any day, or one with a newline behind it. -/
def HasDateForm (text : String) : Prop :=
  ∃ w : WrittenDate, text.toList = w.chars ∨ text.toList = w.chars ++ ['\n']

namespace Date

variable {text : String}

theorem exists_read_iff : (∃ d, Date.read text = .read d) ↔ IsDayText text := by
  simp only [read_eq_iff, IsDayText, ← WrittenDate.exists_names_iff]
  constructor
  · rintro ⟨d, w, form, named⟩
    exact ⟨w, form, d, named⟩
  · rintro ⟨w, form, d, named⟩
    exact ⟨d, w, form, named⟩

theorem read_eq_otherForm_iff : Date.read text = .otherForm ↔ ¬ HasDateForm text := by
  rw [Date.read]
  constructor
  · rintro other ⟨w, form | form⟩
    · have taken := w.takeDateNumbers?_append []
      rw [List.append_nil, ← form] at taken
      rw [taken] at other
      simp only [Reading.ofForm] at other
      split at other <;> cases other
    · have taken := w.takeDateNumbers?_append ['\n']
      rw [← form] at taken
      rw [taken] at other
      cases other
  · intro no_form
    split
    · next year month day taken =>
        obtain ⟨y, m, d, form, _⟩ := Calendar.takeDateNumbers?_eq_some_iff.mp taken
        rw [List.append_nil] at form
        exact absurd ⟨⟨y, m, d⟩, .inl form⟩ no_form
    · next numbers taken =>
        obtain ⟨y, m, d, form, _⟩ := Calendar.takeDateNumbers?_eq_some_iff.mp taken
        refine absurd ⟨⟨y, m, d⟩, .inr ?_⟩ no_form
        simp only [form, WrittenDate.chars, List.append_assoc, List.cons_append]
    · rfl

theorem read_eq_impossible_iff :
    Date.read text = .impossible ↔ HasDateForm text ∧ ¬ IsDayText text := by
  rw [← exists_read_iff, ← not_not (a := HasDateForm text), ← read_eq_otherForm_iff]
  cases Date.read text <;> simp

end Date

namespace Literal

theorem castDate_eq_ok_iff {text : String} {position : Option Int} {l : Literal} :
    castDate text position = .ok l ↔ ∃ d, l = date d ∧ Date.read text = .read d := by
  unfold castDate
  cases Date.read text <;> simp [failCast, eq_comm]

private theorem quote_dateText (d : Date) :
    "'" ++ d.text ++ "'::DATE" = quote d.text ++ "::DATE" := by
  have plain : escape d.text.toList = d.text.toList := by
    apply escape_eq_self
    intro c hc
    rw [Date.text, String.toList_ofList] at hc
    exact unescaped_of_isClockChar (d.clockChars c hc)
  apply String.toList_injective
  simp only [quote, plain, String.toList_append, String.toList_ofList, List.append_assoc]
  rfl

/-- A text is cast to a date exactly if it is a written date and there is such a day; the date is
    written as the text in quotes. Otherwise the cast fails where it stands, for the form or for the
    day. Dates come one after the other as their texts do. -/
theorem castDate_calendar (text : String) (position : Option Int) :
    ((∃ l, castDate text position = .ok l) ↔ IsDayText text) ∧
    (∀ l, castDate text position = .ok l → ∃ (w : WrittenDate) (d : Date), l = date d ∧
      text.toList = w.chars ∧ w.Names d ∧ d.text = text ∧
      l.queryText = .ok (quote text ++ "::DATE")) ∧
    (¬ HasDateForm text →
      castDate text position = .error (.cast (.badDate text) position)) ∧
    (HasDateForm text → ¬ IsDayText text →
      castDate text position = .error (.cast (.impossibleDate text) position)) ∧
    ∀ other place l m, castDate text position = .ok l → castDate other place = .ok m →
      ∃ d e i j, l = date d ∧ m = date e ∧ Date.Counted i d ∧ Date.Counted j e ∧
        compare i j = compare text.toList other.toList ∧
        m.order? (.date d) = .ok (some (compare text.toList other.toList)) := by
  refine ⟨?_, ?_, ?_, ?_, ?_⟩
  · rw [← Date.exists_read_iff]
    simp only [castDate_eq_ok_iff]
    constructor
    · rintro ⟨_, d, _, read⟩
      exact ⟨d, read⟩
    · rintro ⟨d, read⟩
      exact ⟨_, d, rfl, read⟩
  · intro l cast
    obtain ⟨d, rfl, read⟩ := castDate_eq_ok_iff.mp cast
    obtain ⟨w, form, named⟩ := Date.read_eq_iff.mp read
    have whole : d.text = text := by
      rw [Date.text, ← WrittenDate.chars_eq_of_names named, ← form, String.ofList_toList]
    refine ⟨w, d, rfl, form, named, whole, ?_⟩
    rw [queryText, quote_dateText, whole]
  · intro no_form
    rw [castDate, Date.read_eq_otherForm_iff.mpr no_form]
    rfl
  · intro form no_day
    rw [castDate, Date.read_eq_impossible_iff.mpr ⟨form, no_day⟩]
    rfl
  · intro other place l m first second
    obtain ⟨d, rfl, readFirst⟩ := castDate_eq_ok_iff.mp first
    obtain ⟨e, rfl, readSecond⟩ := castDate_eq_ok_iff.mp second
    obtain ⟨v, formFirst, namedFirst⟩ := Date.read_eq_iff.mp readFirst
    obtain ⟨w, formSecond, namedSecond⟩ := Date.read_eq_iff.mp readSecond
    have order : d.order e = compare text.toList other.toList := by
      rw [formFirst, formSecond, WrittenDate.order_eq namedFirst namedSecond]
    exact ⟨d, e, d.dayNumber, e.dayNumber, rfl, rfl, Date.counted_iff.mpr rfl,
      Date.counted_iff.mpr rfl, order, congrArg (Except.ok ∘ some) order⟩

/-- The last day of February in a full century that has it, one that has it not, a day behind which
    the text goes on, and a day whose month has one digit. -/
theorem castDate_calendar_leapDay :
    castDate "2000-02-29" (some 5) = .ok (date ⟨2000, 2, 29, by decide⟩) ∧
    castDate "1999-12-31" none = .ok (date ⟨1999, 12, 31, by decide⟩) ∧
    (date ⟨2000, 2, 29, by decide⟩).queryText = .ok (quote "2000-02-29" ++ "::DATE") ∧
    (date ⟨1999, 12, 31, by decide⟩).order? (.date ⟨2000, 2, 29, by decide⟩) = .ok (some .gt) ∧
    castDate "1900-02-29" (some 5) = .error (.cast (.impossibleDate "1900-02-29") (some 5)) ∧
    castDate "2000-02-29\n" (some 5) = .error (.cast (.impossibleDate "2000-02-29\n") (some 5)) ∧
    castDate "2000-2-29" (some 5) = .error (.cast (.badDate "2000-2-29") (some 5)) := by
  have first : castDate "2000-02-29" (some 5) = .ok (date ⟨2000, 2, 29, by decide⟩) := by cbv
  have second : castDate "1999-12-31" none = .ok (date ⟨1999, 12, 31, by decide⟩) := by cbv
  obtain ⟨_, written, _, _, order⟩ := castDate_calendar "2000-02-29" (some 5)
  obtain ⟨_, _, _, _, _, _, text⟩ := written _ first
  obtain ⟨_, _, _, _, ⟨⟩, ⟨⟩, _, _, _, later⟩ := order _ _ _ _ first second
  obtain ⟨form, no_day⟩ := Date.read_eq_impossible_iff.mp (by cbv : Date.read "1900-02-29" = _)
  obtain ⟨formMore, no_dayMore⟩ :=
    Date.read_eq_impossible_iff.mp (by cbv : Date.read "2000-02-29\n" = _)
  have other : ¬ HasDateForm "2000-2-29" := Date.read_eq_otherForm_iff.mp (by cbv)
  refine ⟨first, second, text, later.trans (by decide), ?_, ?_, ?_⟩
  · exact (castDate_calendar _ (some 5)).2.2.2.1 form no_day
  · exact (castDate_calendar _ (some 5)).2.2.2.1 formMore no_dayMore
  · exact (castDate_calendar _ (some 5)).2.2.1 other

end Literal
end RecordFilter
