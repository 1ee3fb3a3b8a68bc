import RecordFilter.Proofs.Literal.Reading

/-! # Every literal that can be spelled has a text that is read as it

Dates and times are written in quotes without escapes, for they hold neither quotes nor backslashes.
-/

namespace RecordFilter

open Text

theorem escape_eq_self {cs : List Char} (h : ∀ c ∈ cs, c ≠ backslash ∧ c ≠ quoteMark) :
    escape cs = cs := by
  induction cs with
  | nil => rfl
  | cons c cs ih =>
      rw [List.forall_mem_cons] at h
      rw [escape, if_neg (not_or.mpr h.1), ih h.2]

/-- A digit or one of the marks between the parts of a date or a time. -/
def isClockChar (c : Char) : Bool := isDigit c || ['-', '+', ':', '.', 'T', 'Z'].contains c

theorem unescaped_of_isClockChar {c : Char} (h : isClockChar c = true) :
    c ≠ backslash ∧ c ≠ quoteMark := by
  constructor <;>
  · rintro rfl
    exact absurd h (by decide)

private theorem clockChars_of_allDigits {cs : List Char} (h : AllDigits cs) :
    ∀ c ∈ cs, isClockChar c = true := by
  intro c hc
  rw [isClockChar, h c hc, Bool.true_or]

theorem clockChars_paddedDigits (width n : Nat) :
    ∀ c ∈ paddedDigits width n, isClockChar c = true :=
  clockChars_of_allDigits (.paddedDigits width n)

theorem Date.clockChars (d : Date) : ∀ c ∈ d.chars, isClockChar c = true := by
  have mark : isClockChar '-' = true := rfl
  simp only [chars, List.forall_mem_append, List.forall_mem_cons, mark, true_and]
  exact ⟨⟨clockChars_paddedDigits _ _, clockChars_paddedDigits _ _⟩, clockChars_paddedDigits _ _⟩

theorem WallClock.clockChars (w : WallClock) : ∀ c ∈ w.chars, isClockChar c = true := by
  have marks : isClockChar 'T' = true ∧ isClockChar ':' = true ∧ isClockChar '.' = true :=
    ⟨rfl, rfl, rfl⟩
  simp only [chars, List.forall_mem_append, List.forall_mem_cons, marks, true_and]
  refine ⟨⟨⟨⟨w.date.clockChars, ?_⟩, ?_⟩, ?_⟩, ?_⟩
  iterate 3 exact clockChars_paddedDigits _ _
  split
  · exact List.forall_mem_nil _
  · exact List.forall_mem_cons.mpr ⟨marks.2.2, clockChars_paddedDigits _ _⟩

theorem Offset.clockChars (o : Offset) : ∀ c ∈ o.chars, isClockChar c = true := by
  have marks : isClockChar ':' = true ∧ isClockChar '.' = true := ⟨rfl, rfl⟩
  have sign : isClockChar (if o.microseconds < 0 then '-' else '+') = true := by
    split <;> rfl
  simp only [chars, List.forall_mem_append, List.forall_mem_cons, marks, sign, true_and]
  refine ⟨⟨clockChars_paddedDigits _ _, clockChars_paddedDigits _ _⟩, ?_⟩
  split
  · exact List.forall_mem_nil _
  · rw [List.forall_mem_append, List.forall_mem_cons]
    refine ⟨⟨marks.1, clockChars_paddedDigits _ _⟩, ?_⟩
    split
    · exact List.forall_mem_nil _
    · exact List.forall_mem_cons.mpr ⟨marks.2, clockChars_paddedDigits _ _⟩

theorem WallClock.clockChars_text (w : WallClock) (zone : Option TimeZone) :
    ∀ c ∈ (w.text zone).toList, isClockChar c = true := by
  rw [text, String.toList_ofList, List.forall_mem_append]
  refine ⟨w.clockChars, ?_⟩
  cases zone with
  | none => exact List.forall_mem_nil _
  | some z => exact z.offset.clockChars

theorem ZonedDateTime.clockChars (z : ZonedDateTime) :
    ∀ c ∈ z.shortText.toList, isClockChar c = true := by
  rw [shortText, String.toList_ofList, List.forall_mem_append]
  refine ⟨z.clock.clockChars, ?_⟩
  split
  · exact List.forall_mem_singleton.mpr rfl
  · exact z.offset.clockChars

namespace Literal

/-- Text in quotes that needs no escapes. -/
theorem quoted_eq {text : String} {suffix : List Char}
    (h : ∀ c ∈ text.toList, isClockChar c = true) :
    "'" ++ text ++ String.ofList (quoteMark :: suffix) =
      String.ofList (quoted text.toList suffix) := by
  have plain : escape text.toList = text.toList :=
    escape_eq_self fun c hc => unescaped_of_isClockChar (h c hc)
  apply String.toList_injective
  simp only [String.toList_append, String.toList_ofList, quoted, plain, List.append_assoc]
  rfl

theorem listText_eq (texts : List (List Char)) :
    "[" ++ ", ".intercalate (texts.map String.ofList) ++ "]" = String.ofList (listChars texts) := by
  have chars : (texts.map String.ofList).map String.toList = texts := by
    rw [List.map_map]
    exact List.map_id'' (fun _ => String.toList_ofList) texts
  apply String.toList_injective
  simp only [String.toList_append, String.toList_intercalate, chars, String.toList_ofList, listChars,
    List.append_assoc]
  rfl

private theorem exists_queryTexts {levels : Nat} {items : List Literal}
    (h : ∀ l ∈ items, ∃ cs, l.queryText = .ok (String.ofList cs) ∧ Reads levels l cs) :
    ∃ texts : List (List Char), queryTexts items = .ok (texts.map String.ofList) ∧
      List.Forall₂ (Reads levels) items texts := by
  induction items with
  | nil => exact ⟨[], rfl, .nil⟩
  | cons l rest ih =>
      rw [List.forall_mem_cons] at h
      obtain ⟨⟨cs, text, reads⟩, others⟩ := h
      obtain ⟨texts, written, each⟩ := ih others
      refine ⟨cs :: texts, ?_, .cons reads each⟩
      rw [queryTexts, text, ok_bind, written]
      rfl

/-- A literal that can be spelled has a text, and the text is read as the literal wherever its lists
    may be nested as deep as they are. -/
theorem Spellable.exists_queryText {l : Literal} (h : l.Spellable) {levels : Nat}
    (hd : l.listDepth ≤ levels) :
    ∃ cs, l.queryText = .ok (String.ofList cs) ∧ Reads levels l cs := by
  induction h generalizing levels with
  | null => exact ⟨_, rfl, reads_null levels⟩
  | bool b =>
      refine ⟨_, ?_, reads_bool b levels⟩
      cases b <;> rfl
  | int n few =>
      refine ⟨_, ?_, reads_int few levels⟩
      rw [queryText, Number.queryText, Number.intText, Nat.pow_eq, if_pos few,
        NumberText.chars_ofInt]
  | float x finite =>
      obtain ⟨t, text, reads⟩ := reads_float finite levels
      refine ⟨_, ?_, reads⟩
      rw [queryText, Number.queryText, text]
  | text s =>
      refine ⟨_, ?_, reads_text s levels⟩
      simp [queryText, quote, quoted]
  | date d =>
      refine ⟨_, ?_, reads_date d levels⟩
      have chars : ∀ c ∈ d.text.toList, isClockChar c = true := by
        rw [Date.text, String.toList_ofList]
        exact d.clockChars
      have same : d.chars = d.text.toList := String.toList_ofList.symm
      rw [same]
      exact congrArg Except.ok (quoted_eq chars)
  | datetime z fixed minutes =>
      have reads := reads_datetime minutes levels
      rw [ZonedDateTime.atOffset_eq fixed] at reads
      exact ⟨_, congrArg Except.ok (quoted_eq z.clockChars), reads⟩
  | list items each ih =>
      cases levels with
      | zero =>
          rw [listDepth] at hd
          omega
      | succ levels =>
          rw [listDepth, Nat.add_le_add_iff_right, listDepthOf_le_iff] at hd
          obtain ⟨texts, written, reads⟩ := exists_queryTexts fun l hl => ih l hl (hd l hl)
          refine ⟨_, ?_, reads_list reads⟩
          rw [queryText, written, ok_bind, listText_eq]
          rfl

end Literal
end RecordFilter
