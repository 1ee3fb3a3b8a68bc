import RecordFilter.Proofs.Text.Outside

/-! # The pieces between commas

A text is cut at the commas that stand outside quotes and brackets, and at no others. The cutting is
done in one pass from left to right; told from its outcome, every comma of the text either stands
between two pieces and outside, or within a piece and not outside.
-/

namespace RecordFilter.Text

/-- What stands between two pieces. -/
abbrev joined (pieces : List (List Char)) : List Char := [','].intercalate pieces

/-- The comma between these texts stands between two of the pieces. -/
def Divides (pieces : List (List Char)) (before after : List Char) : Prop :=
  ∃ left right, left ≠ [] ∧ right ≠ [] ∧ pieces = left ++ right ∧ before = joined left ∧
    after = joined right

/-- The text with commas between the pieces, these commas being all that stand outside quotes and
    brackets. -/
structure PiecesOf (cs : List Char) (pieces : List (List Char)) : Prop where
  ne_nil : pieces ≠ []
  whole : cs = joined pieces
  comma : ∀ before after, cs = before ++ ',' :: after →
    (EndsOutside before 0 ↔ Divides pieces before after)

theorem separates_comma_iff {s : Nesting} : s.Separates ',' ↔ s = .outside 0 := by
  obtain ⟨depth, mode⟩ := s
  simp [Nesting.Separates, Nesting.outside, and_comm]

theorem consFirst_append (c : Char) {pieces : List (List Char)} (h : pieces ≠ [])
    (more : List (List Char)) : consFirst c (pieces ++ more) = consFirst c pieces ++ more := by
  cases pieces with
  | nil => exact absurd rfl h
  | cons piece rest => rfl

/-- A comma that separates parts the pieces in front of it from those behind it. -/
theorem splitItems_append_of_separates {s : Nesting} {before : List Char}
    (h : (s.after before).Separates ',') (after : List Char) :
    splitItems s (before ++ ',' :: after) =
      splitItems s before ++ splitItems ((s.after before).step ',') after := by
  induction before generalizing s with
  | nil => exact if_pos h
  | cons c before ih =>
      rw [Nesting.after_cons] at h ⊢
      rw [List.cons_append, splitItems, splitItems, ih h]
      split
      · rfl
      · exact consFirst_append c (splitItems_ne_nil _ _) _

theorem joined_cons (piece : List Char) {pieces : List (List Char)} (h : pieces ≠ []) :
    joined (piece :: pieces) = piece ++ ',' :: joined pieces := by
  obtain ⟨second, more, rfl⟩ := List.exists_cons_of_ne_nil h
  rw [joined, List.intercalate_cons_cons, List.append_assoc, List.singleton_append]

theorem joined_eq_nil_iff {pieces : List (List Char)} :
    joined pieces = [] ↔ pieces = [] ∨ pieces = [[]] := by
  cases pieces with
  | nil => simp [joined]
  | cons piece rest =>
      cases rest with
      | nil => simp [joined]
      | cons second more => simp

private theorem joined_consFirst (c : Char) (pieces : List (List Char)) :
    joined (consFirst c pieces) = c :: joined pieces := intercalate_consFirst c pieces

/-- A comma between two pieces separates. -/
theorem separates_of_pieces {s : Nesting} {before after : List Char} {left right : List (List Char)}
    (hl : left ≠ []) (whole : before = joined left)
    (pieces : splitItems s (before ++ ',' :: after) = left ++ right) :
    (s.after before).Separates ',' := by
  induction before generalizing s left with
  | nil =>
      rw [List.nil_append, splitItems] at pieces
      split at pieces
      · assumption
      · -- The comma would be in the first piece, and nothing is in front of it.
        obtain rfl : left = [[]] := (joined_eq_nil_iff.mp whole.symm).resolve_left hl
        cases hp : splitItems (s.step ',') after <;> simp [hp, consFirst] at pieces
  | cons c before ih =>
      obtain ⟨first, left, rfl⟩ := List.exists_cons_of_ne_nil hl
      rw [List.cons_append, splitItems] at pieces
      split at pieces
      · next hc =>
          obtain ⟨rfl, others⟩ := List.cons.inj pieces
          cases left with
          | nil => cases whole
          | cons second left =>
              rw [joined_cons _ (List.cons_ne_nil second left)] at whole
              exact ih (List.cons_ne_nil _ _) (List.cons.inj whole).2 others
      · obtain ⟨piece, more, hp⟩ := List.exists_cons_of_ne_nil
          (splitItems_ne_nil (s.step c) (before ++ ',' :: after))
        rw [hp, consFirst] at pieces
        obtain ⟨rfl, rfl⟩ := List.cons.inj pieces
        have inner := joined_consFirst c (piece :: left)
        rw [consFirst, ← whole] at inner
        exact ih (List.cons_ne_nil piece left) (List.cons.inj inner).2 hp

/-- A text is cut at exactly the commas outside quotes and brackets. -/
theorem piecesOf_splitItems (cs : List Char) : PiecesOf cs (splitItems .start cs) := by
  constructor
  case ne_nil => exact splitItems_ne_nil _ _
  case whole => exact (intercalate_splitItems .start cs).symm
  case comma =>
    rintro before after rfl
    rw [endsOutside_iff, ← separates_comma_iff]
    constructor
    · intro separates
      exact ⟨_, _, splitItems_ne_nil _ _, splitItems_ne_nil _ _,
        splitItems_append_of_separates separates after, (intercalate_splitItems _ _).symm,
        (intercalate_splitItems _ _).symm⟩
    · rintro ⟨left, right, hl, _, pieces, whole, _⟩
      exact separates_of_pieces hl whole pieces

end RecordFilter.Text
