import RecordFilter.Identifier

/-! # Identifiers without faults

An identifier is without fault if every part between its dots is a segment. A segment may end in a
newline, which no word of a query does, so for words segments and names are the same. What a path
ends in is another matter: computed properties are reserved.
-/

namespace RecordFilter.Identifier

open Text

private theorem isNameChar_of_startsName {c : Char} (h : startsName c = true) :
    isNameChar c = true := by
  simp only [startsName, Bool.or_eq_true] at h
  rcases h with h | h <;> simp [isNameChar, h]

theorem isNameChar_of_isName {cs : List Char} (h : isName cs = true) :
    ∀ c ∈ cs, isNameChar c = true := by
  cases cs with
  | nil => simp [isName] at h
  | cons first rest =>
      simp only [isName, Bool.and_eq_true, List.all_eq_true] at h
      intro c hc
      rcases List.mem_cons.mp hc with rfl | hc
      · exact isNameChar_of_startsName h.1
      · exact h.2 c hc

theorem withoutNewline_eq {cs : List Char} (h : '\n' ∉ cs) : withoutNewline cs = cs := by
  unfold withoutNewline
  split
  · next hl => exact absurd (List.mem_of_getLast? hl) h
  · rfl

private theorem newline_not_mem_of_isName {cs : List Char} (h : isName cs = true) : '\n' ∉ cs := by
  intro hn
  have hc := isNameChar_of_isName h _ hn
  exact absurd hc (by decide)

private theorem isSegment_of_isName {cs : List Char} (h : isName cs = true) :
    isSegment cs = true := by
  rw [isSegment, withoutNewline_eq (newline_not_mem_of_isName h)]
  exact h

private theorem isName_of_isSegment {cs : List Char} (h : isSegment cs = true) (hn : '\n' ∉ cs) :
    isName cs = true := by
  rw [isSegment, withoutNewline_eq hn] at h
  exact h

theorem firstFault?_eq_none_iff {identifier : String} {pieces : List (List Char)} :
    firstFault? identifier pieces = none ↔ ∀ piece ∈ pieces, isSegment piece = true := by
  induction pieces with
  | nil => simp [firstFault?]
  | cons piece rest ih =>
      have hnil : isSegment [] = false := by decide
      rw [firstFault?, List.forall_mem_cons]
      split
      · next he => simp [he, hnil]
      · split
        · next hs => simp [hs, ih]
        · next hs => simp [hs]

theorem fault?_eq_none_iff {identifier : String} :
    fault? identifier = none ↔ ∀ piece ∈ pieces identifier, isSegment piece = true :=
  firstFault?_eq_none_iff

theorem fault?_eq_none_of_names {identifier : String}
    (h : ∀ piece ∈ pieces identifier, isName piece = true) : fault? identifier = none := by
  rw [fault?_eq_none_iff]
  intro piece hp
  exact isSegment_of_isName (h piece hp)

theorem mem_intercalate (sep : List Char) {parts : List (List Char)} {part : List Char} {c : Char}
    (hp : part ∈ parts) (hc : c ∈ part) : c ∈ sep.intercalate parts := by
  induction parts with
  | nil => simp at hp
  | cons first rest ih =>
      cases rest with
      | nil =>
          rw [List.mem_singleton.mp hp] at hc
          simpa only [List.intercalate_singleton] using hc
      | cons second more =>
          rw [List.intercalate_cons_cons, List.mem_append, List.mem_append]
          rcases List.mem_cons.mp hp with rfl | hp
          · exact .inl (.inl hc)
          · exact .inr (ih hp)

private theorem mem_of_mem_pieces {identifier : String} {piece : List Char} {c : Char}
    (hp : piece ∈ pieces identifier) (hc : c ∈ piece) : c ∈ identifier.toList := by
  have h := mem_intercalate ['.'] hp hc
  rwa [pieces, List.intercalate_splitOn] at h

/-- Without newlines, no fault means that all parts are names. -/
theorem names_of_fault?_eq_none {identifier : String} (h : fault? identifier = none)
    (hn : '\n' ∉ identifier.toList) : ∀ piece ∈ pieces identifier, isName piece = true := by
  intro piece hp
  apply isName_of_isSegment (fault?_eq_none_iff.mp h piece hp)
  intro hc
  exact hn (mem_of_mem_pieces hp hc)

/-- A path of two or more segments that ends in a computed property, in whatever letter case. -/
def IsReserved (identifier : String) : Prop :=
  1 < (path identifier).length ∧ ∃ last ∈ (path identifier).getLast?, lower last ∈ reservedSuffixes

theorem reservedSuffix?_eq_none_iff {identifier : String} :
    reservedSuffix? identifier = none ↔ ¬ IsReserved identifier := by
  simp only [reservedSuffix?, IsReserved]
  split
  · next many =>
      simp only [many, true_and, not_exists, not_and, Option.filter_eq_none_iff,
        List.contains_iff_mem, Option.mem_def]
  · next few => simp only [few, false_and, not_false_iff]

end RecordFilter.Identifier
