import RecordFilter.Proofs.Literal.Expressible
import RecordFilter.Proofs.Literal.Genuine
import RecordFilter.Proofs.Token.Tiling

/-! # Scanning the texts of literals

Every literal that has a text is written as one token, with one exception. A fraction is written
with a comma, which no token outside quotes and brackets holds, so the scan of a query ends there.
Either way no word of a literal is taken for anything else.
-/

namespace RecordFilter

open Text

namespace Token

private theorem isWordChar_of_word {c : Char} {cs : List Char} (first : startsWord c = true)
    (others : ∀ d ∈ cs, isWordChar d = true) : ∀ d ∈ c :: cs, isWordChar d = true :=
  List.forall_mem_cons.mpr ⟨isWordChar_of_startsWord first, others⟩

/-- Only quoted text and lists hold commas. -/
theorem Spans.comma_not_mem {t : Token} {span : List Char} (h : t.Spans span)
    (plain : ∀ c ∈ span.head?, c ≠ quoteMark ∧ c ≠ '[') : ',' ∉ span := by
  intro comma
  cases h with
  | literal written =>
      cases written with
      | number number =>
          rcases number.mem comma with digit | mark
          · cases digit
          · exact absurd mark (by decide)
      | quoted | cast => exact (plain quoteMark rfl).1 rfl
      | word first others => exact absurd (isWordChar_of_word first others _ comma) (by decide)
      | list => exact (plain '[' rfl).2 rfl
  | word first _ others => exact absurd (isWordChar_of_word first others _ comma) (by decide)
  | symbol symbol =>
      have none : ∀ entry ∈ TokenKind.symbolTexts, ',' ∉ entry.2 := by decide
      exact none _ symbol comma

end Token

namespace Scan

/-- What holds no comma stands before the comma. -/
theorem exists_of_append_eq_comma {xs ys zs rest : List Char} (h : xs ++ ys = zs ++ ',' :: rest)
    (none : ',' ∉ xs) : ∃ more, zs = xs ++ more ∧ ys = more ++ ',' :: rest := by
  rcases List.append_eq_append_iff.mp h with ⟨more, split, tail⟩ | ⟨more, split, tail⟩
  · exact ⟨more, split, tail⟩
  · cases more with
    | nil => exact ⟨[], by simpa using split.symm, by simpa using tail.symm⟩
    | cons c more =>
        cases tail
        rw [split] at none
        exact absurd (List.mem_append_right _ List.mem_cons_self) none

/-- A scan fails at the first comma before which there are no quotes and brackets. -/
theorem exists_failure_of_comma {c : Cursor} {before rest : List Char}
    (chars : c.rest = before ++ ',' :: rest) (plain : ∀ ch ∈ before, IsPlain ch) :
    ∃ failure, (ofCursor c).ending = .failed failure := by
  fun_induction ofCursor c generalizing before with
  | case1 c failure hn => exact ⟨failure, rfl⟩
  | case2 c t d hn hk =>
      have blank := (Cursor.blank_of_next_finish hn hk).1 ','
      rw [chars] at blank
      exact absurd (blank (List.mem_append_right _ List.mem_cons_self)) (by decide)
  | case3 c t d hn hk ih =>
      obtain ⟨span, spans, whole, _⟩ := Cursor.exists_spans_of_next hn hk
      have gap : ',' ∉ c.rest.takeWhile isBlank := by
        intro comma
        exact absurd (List.all_eq_true.mp List.all_takeWhile _ comma) (by decide)
      obtain ⟨visible, split, tail⟩ := exists_of_append_eq_comma (whole.symm.trans chars) gap
      rw [split, List.forall_mem_append] at plain
      have first : ∀ ch ∈ span.head?, ch ≠ quoteMark ∧ ch ≠ '[' := by
        intro ch hc
        have head : ch ∈ (span ++ d.rest).head? := by
          rw [List.head?_append, Option.mem_def.mp hc]
          rfl
        rw [tail] at head
        cases visible with
        | nil =>
            cases head
            decide
        | cons v visible =>
            cases head
            have mark := plain.2 _ List.mem_cons_self
            exact ⟨mark.1, mark.2.1⟩
      obtain ⟨more, inside, left⟩ := exists_of_append_eq_comma tail (spans.comma_not_mem first)
      rw [inside, List.forall_mem_append] at plain
      exact ih left plain.2.2

/-- The text has no further token from some place on, whatever follows it. -/
def Breaks (position : Int) (cs : List Char) : Prop :=
  ∀ rest, ∃ failure, (ofCursor ⟨position, cs ++ rest, false⟩).ending = .failed failure

section

variable {position : Int} {xs ys : List Char} {ts : List Token}

theorem Breaks.append (h : Breaks position xs) (ys : List Char) : Breaks position (xs ++ ys) := by
  intro rest
  rw [List.append_assoc]
  exact h _

theorem Spells.breaks_space (hx : Spells position xs ts)
    (hy : Breaks (position + xs.length + 1) ys) : Breaks position (xs ++ ' ' :: ys) := by
  intro rest
  rw [List.append_assoc, List.cons_append, hx _ (delimits_space _), ofCursor_space]
  exact hy rest

theorem Breaks.parenthesized (h : Breaks (position + 1) xs) :
    Breaks position ('(' :: (xs ++ [')'])) := by
  intro rest
  have opens : ofCursor ⟨position, '(' :: (xs ++ [')'] ++ rest), false⟩ =
      .cons (.plain .openParen position ['('])
        (ofCursor ⟨position + 1, xs ++ [')'] ++ rest, false⟩) :=
    ofCursor_of_read (stops_cons rfl _) rfl (fun hk => nomatch hk)
  rw [List.cons_append, opens]
  exact h.append _ rest

end

end Scan

namespace Literal

open Scan

private theorem exists_spells_of_written {t : Token} {cs : List Char} (h : t.WrittenAs cs)
    (position : Int) :
    ∃ u : Token, u.kind.isLiteral = true ∧ Spells position cs [u] := by
  have literal : (t.moved position).kind.isLiteral = true := h.isLiteral
  refine ⟨t.moved position, literal, spells_of_read h.ne_nil h.ends.1 ?_ ?_⟩
  · intro hk
    rw [hk] at literal
    cases literal
  · intro rest hr
    exact h.read_append position (Token.stops_grows (hr.stops rfl rfl) t)

private theorem IsFractionText.breaks {cs : List Char} (h : IsFractionText cs) (position : Int) :
    Breaks position cs := by
  obtain ⟨before, after, rfl, _, plain, _⟩ := h
  rw [List.forall_mem_append] at plain
  intro rest
  have split : 'F' :: (before ++ ',' :: (after ++ [')'])) ++ rest =
      ('F' :: before) ++ ',' :: (after ++ [')'] ++ rest) := by
    simp only [List.cons_append, List.append_assoc]
  exact exists_failure_of_comma split (List.forall_mem_cons.mpr ⟨by decide, plain.1⟩)

/-- The text of a literal is one token, or the scan ends in it. -/
theorem Genuine.spells_or_breaks {l : Literal} (h : l.Genuine) {cs : List Char}
    (text : l.queryText = .ok (String.ofList cs)) (position : Int) :
    (∃ t : Token, t.kind.isLiteral = true ∧ Spells position cs [t]) ∨ Breaks position cs := by
  rcases h.hasForm text with ⟨t, written⟩ | fraction
  · exact .inl (exists_spells_of_written written position)
  · exact .inr (fraction.breaks position)

end Literal

end RecordFilter
