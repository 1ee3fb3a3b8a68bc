import RecordFilter.Proofs.Literal.Item

/-! # What casting refuses

A literal token that cannot be cast fails with a cast failure at some position, and with nothing
else: in a list, what does not scan or is no literal is reported as an item that is none.
-/

namespace RecordFilter

/-- A cast failed, and it is told where. -/
def Failure.IsCast (failure : Failure) : Prop :=
  ∃ fault position, failure = .cast fault (some position)

/-- The text between these two positions could not be scanned, and it is told where in it. -/
def Failure.IsLexical (low high : Int) (failure : Failure) : Prop :=
  ∃ fault position, failure = .query (.lexical fault) (some position) ∧ low ≤ position ∧
    position < high

theorem Failure.IsLexical.mono {low high low' high' : Int} {failure : Failure}
    (h : failure.IsLexical low high) (hl : low' ≤ low) (hh : high ≤ high') :
    failure.IsLexical low' high' := by
  obtain ⟨fault, position, rfl, first, last⟩ := h
  exact ⟨fault, position, rfl, Int.le_trans hl first, Int.lt_of_lt_of_le last hh⟩

variable {failure : Failure}

namespace Token

variable {position : Int} {cs : List Char}

theorem isLexical_fail {α : Type} {fault : LexicalFault} {low high : Int}
    (h : (fail fault position : Except Failure α) = .error failure) (first : low ≤ position)
    (last : position < high) : failure.IsLexical low high := by
  cases h
  exact ⟨fault, position, rfl, first, last⟩

private theorem isLexical_of_readQuoted (h : readQuoted position cs = .error failure) :
    failure.IsLexical position (position + (cs.length + 1)) := by
  unfold readQuoted at h
  split at h
  · exact isLexical_fail h (Int.le_refl _) (by omega)
  · next content width _ =>
      simp only at h
      split at h
      · next more colons =>
          -- The colons still stand in the text, so it does not end where the name is missing.
          have left := congrArg List.length colons
          rw [List.length_drop, List.length_cons, List.length_cons] at left
          split at h
          · exact isLexical_fail h (by omega) (by omega)
          · cases h
      · cases h

private theorem isLexical_of_readList (h : readList position cs = .error failure)
    (some_text : cs ≠ []) :
    failure.IsLexical position (position + cs.length) := by
  have := List.length_pos_iff.mpr some_text
  unfold readList at h
  split at h
  · exact isLexical_fail h (Int.le_refl _) (by omega)
  · cases h

private theorem isLexical_of_readSymbol {c : Char} (h : readSymbol position c cs = .error failure) :
    failure.IsLexical position (position + (cs.length + 1)) := by
  rcases readSymbol_cases position c cs with ⟨fault, failed⟩ | ⟨_, _, _, _, _, read⟩
  · rw [failed] at h
    exact isLexical_fail h (Int.le_refl _) (by omega)
  · rw [read] at h
    cases h

/-- What cannot be scanned is told before the end of the text. -/
theorem isLexical_of_read {afterNumber : Bool} (h : read position afterNumber cs = .error failure) :
    failure.IsLexical position (position + cs.length) := by
  unfold read at h
  split at h
  · cases h
  · split at h
    · cases h
    · split at h
      · exact isLexical_of_readQuoted h
      · split at h
        · exact isLexical_of_readList h (List.cons_ne_nil _ _)
        · split at h
          · cases h
          · exact isLexical_of_readSymbol h

end Token

private theorem Cursor.isLexical_of_next {c : Cursor} (h : c.next = .error failure) :
    failure.IsLexical c.position c.stop := by
  obtain ⟨before, same⟩ := c.skipBlanks_bounds
  rcases bind_eq_error_iff.mp h with failed | ⟨_, _, given⟩
  · exact (Token.isLexical_of_read failed).mono before (Int.le_of_eq same)
  · cases given

namespace Literal

theorem isCast_failCast {α : Type} {fault : CastFault} {position : Int}
    (h : (failCast fault (some position) : Except Failure α) = .error failure) : failure.IsCast := by
  cases h
  exact ⟨fault, position, rfl⟩

namespace Item

variable {item : Item}

theorem isLexical_of_firstTwo (h : item.firstTwo = .error failure) :
    failure.IsLexical item.position (item.position + item.text.toList.length) := by
  rcases bind_eq_error_iff.mp h with failed | ⟨⟨_, after⟩, first, rest⟩
  · exact Cursor.isLexical_of_next failed
  · rcases bind_eq_error_iff.mp rest with failed | ⟨_, _, given⟩
    · exact (Cursor.isLexical_of_next failed).mono (Cursor.position_le_of_next first)
        (Int.le_of_eq (Cursor.inside_of_next first).2)
    · cases given

private theorem isCast_of_token (h : item.token = .error failure) : failure.IsCast := by
  rw [token_eq_firstTwo] at h
  cases two : item.firstTwo with
  | error failed =>
      obtain ⟨fault, position, rfl, _⟩ := isLexical_of_firstTwo two
      rw [two] at h
      exact isCast_failCast h
  | ok found =>
      simp only [two] at h
      split at h
      · cases h
      · exact isCast_failCast h

private theorem isCast_of_ofPieces {position : Int} {pieces : List (List Char)}
    (h : ofPieces position pieces = .error failure) : failure.IsCast := by
  induction pieces generalizing position with
  | nil => cases h
  | cons piece rest ih =>
      rcases ofPieces_cons_eq_error_iff.mp h with ⟨_, rfl⟩ | ⟨_, failed⟩
      · exact ⟨_, _, rfl⟩
      · exact ih failed

private theorem isCast_of_ofText {position : Int} {s : String}
    (h : ofText position s = .error failure) :
    failure.IsCast := by
  unfold ofText at h
  split at h
  · cases h
  · exact isCast_of_ofPieces h

end Item

private theorem isCast_of_castText {s : String} {cast : Option String} {position : Int}
    (h : castText s cast (some position) = .error failure) : failure.IsCast := by
  unfold castText at h
  split at h
  · cases h
  · split at h
    · unfold castDate at h
      split at h
      · cases h
      · exact isCast_failCast h
      · exact isCast_failCast h
    · split at h
      · unfold castDateTime at h
        split at h
        · cases h
        · exact isCast_failCast h
        · exact isCast_failCast h
      · exact isCast_failCast h

private theorem isCast_of_castNumber {s : String} {position : Int}
    (h : castNumber s (some position) = .error failure) : failure.IsCast := by
  unfold castNumber at h
  split at h
  · split at h
    · split at h
      · cases h
      · exact isCast_failCast h
    · exact isCast_failCast h
  · split at h
    · cases h
    · exact isCast_failCast h

variable {t : Token}

theorem isCast_of_castScalar (literal : t.kind.isLiteral = true) (scalar : t.kind ≠ .list)
    (h : castScalar t = .error failure) : failure.IsCast := by
  unfold castScalar at h
  cases hk : t.kind <;> rw [hk] at h literal scalar
  case quoted => exact isCast_of_castText h
  case number => exact isCast_of_castNumber h
  case boolean | null => cases h
  case list => exact absurd rfl scalar
  all_goals cases literal

private theorem isCast_of_castWithin {levels : Nat} (literal : t.kind.isLiteral = true)
    (h : castWithin levels t = .error failure) : failure.IsCast := by
  induction levels generalizing t with
  | zero =>
      rw [castWithin] at h
      split at h
      · exact isCast_failCast h
      · next scalar => exact isCast_of_castScalar literal scalar h
  | succ levels ih =>
      rw [castWithin] at h
      split at h
      · rcases bind_eq_error_iff.mp h with failed | ⟨items, _, given⟩
        · exact Item.isCast_of_ofText failed
        · obtain ⟨item, _, failed⟩ := exists_error_of_mapM (error_of_bind_pure given)
          rcases bind_eq_error_iff.mp failed with failed | ⟨token, ht, failed⟩
          · exact Item.isCast_of_token failed
          · exact ih (Item.token_eq_ok_iff.mp ht).1 failed
      · next scalar => exact isCast_of_castScalar literal scalar h

/-- A literal that cannot be cast fails as a cast. Only a list asks how deep lists may be nested,
    and fails otherwise if that cannot be told. -/
theorem isCast_of_castToken {limit : Except Failure Int} (literal : t.kind.isLiteral = true)
    (h : castToken limit 0 t = .error failure) : failure.IsCast ∨ limit = .error failure := by
  unfold castToken at h
  split at h
  · rcases bind_eq_error_iff.mp h with failed | ⟨n, _, failed⟩
    · exact .inr failed
    · exact .inl (isCast_of_castWithin literal failed)
  · next scalar => exact .inl (isCast_of_castScalar literal scalar h)

end Literal

end RecordFilter
