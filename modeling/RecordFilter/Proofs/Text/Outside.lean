import RecordFilter.Proofs.Text.Nesting

/-! # Outside quotes and brackets

Where a character stands is told here by the form of the text in front of it and not by reading it
one character at a time: outside quotes if what is in front is made of whole quotations and of
characters that are no quotes, and as deep as more brackets among these are opened than closed. Text
with a quotation that nothing closes has no such form, and brackets may be closed that nothing
opened.
-/

namespace RecordFilter.Text

/-- Text that can stand in a quotation: a backslash goes with the character after it, whatever that
    is, and no other character is a quote. -/
inductive QuotedBody : List Char → Prop where
  | nil : QuotedBody []
  | plain {c : Char} {cs : List Char} : c ≠ quoteMark → c ≠ backslash → QuotedBody cs →
      QuotedBody (c :: cs)
  | hidden {c : Char} {cs : List Char} : QuotedBody cs → QuotedBody (backslash :: c :: cs)

/-- The text ends outside quotes, and so many more brackets are opened than closed in it. -/
inductive EndsOutside : List Char → Int → Prop where
  | nil : EndsOutside [] 0
  | opening {cs : List Char} {depth : Int} : EndsOutside cs depth →
      EndsOutside ('[' :: cs) (depth + 1)
  | closing {cs : List Char} {depth : Int} : EndsOutside cs depth →
      EndsOutside (']' :: cs) (depth - 1)
  | quoted {body cs : List Char} {depth : Int} : QuotedBody body → EndsOutside cs depth →
      EndsOutside (quoteMark :: (body ++ quoteMark :: cs)) depth
  | other {c : Char} {cs : List Char} {depth : Int} : c ≠ quoteMark → c ≠ '[' → c ≠ ']' →
      EndsOutside cs depth → EndsOutside (c :: cs) depth

namespace Nesting

theorem after_nil (s : Nesting) : s.after [] = s := rfl

theorem after_cons (s : Nesting) (c : Char) (cs : List Char) :
    s.after (c :: cs) = (s.step c).after cs := rfl

theorem after_append (s : Nesting) (cs ds : List Char) :
    s.after (cs ++ ds) = (s.after cs).after ds :=
  List.foldl_append

def inside (depth : Int) : Nesting := ⟨depth, .inside⟩

variable {c : Char} {depth : Int}

theorem step_outside_quote : (outside depth).step quoteMark = inside depth := by
  simp [step, outside, inside]

theorem step_inside_quote : (inside depth).step quoteMark = outside depth := by
  simp [step, inside, outside, quoteMark, backslash]

theorem step_outside_other (hq : c ≠ quoteMark) (ho : c ≠ '[') (hc : c ≠ ']') :
    (outside depth).step c = outside depth := by
  simp only [step, outside, if_neg hq, if_neg ho, if_neg hc]

theorem step_inside_plain (hq : c ≠ quoteMark) (hb : c ≠ backslash) :
    (inside depth).step c = inside depth := by
  simp only [step, inside, if_neg hq, if_neg hb]

/-- After a backslash in quotes any character is passed over. -/
theorem step_step_inside : ((inside depth).step backslash).step c = inside depth := by
  simp [step, inside]

theorem step_outside_closing : (outside depth).step ']' = outside (depth - 1) := by
  simp [step, outside, quoteMark]

end Nesting

open Nesting

private theorem QuotedBody.after_eq {body : List Char} (h : QuotedBody body) (depth : Int) :
    (inside depth).after body = inside depth := by
  induction h with
  | nil => rfl
  | plain hq hb _ ih => rw [after_cons, step_inside_plain hq hb, ih]
  | hidden _ ih => rw [after_cons, after_cons, step_step_inside, ih]

private theorem EndsOutside.after_eq {cs : List Char} {depth : Int} (h : EndsOutside cs depth)
    (around : Int) : (outside around).after cs = outside (around + depth) := by
  induction h generalizing around with
  | nil => rw [after_nil, Int.add_zero]
  | opening _ ih => rw [after_cons, step_open, ih, Int.add_assoc, Int.add_comm 1]
  | closing _ ih =>
      rw [after_cons, step_outside_closing, ih]
      congr 1
      omega
  | quoted body _ ih =>
      rw [after_cons, step_outside_quote, after_append, body.after_eq, after_cons,
        step_inside_quote, ih]
  | other hq ho hc _ ih => rw [after_cons, step_outside_other hq ho hc, ih]

/-- Text that begins in quotes and ends outside closes these quotes somewhere. -/
theorem exists_body_of_after {cs : List Char} {around : Int} {t : Nesting} (ht : t.mode = .outside)
    (h : (inside around).after cs = t) : ∃ body rest,
      cs = body ++ quoteMark :: rest ∧ QuotedBody body ∧ (outside around).after rest = t := by
  match cs with
  | [] =>
      subst h
      cases ht
  | c :: cs =>
      by_cases hq : c = quoteMark
      · subst hq
        rw [after_cons, step_inside_quote] at h
        exact ⟨[], cs, rfl, .nil, h⟩
      · by_cases hb : c = backslash
        · subst hb
          match cs with
          | [] =>
              subst h
              cases ht
          | d :: cs =>
              rw [after_cons, after_cons, step_step_inside] at h
              obtain ⟨body, rest, rfl, hbody, hrest⟩ := exists_body_of_after ht h
              exact ⟨backslash :: d :: body, rest, rfl, .hidden hbody, hrest⟩
        · rw [after_cons, step_inside_plain hq hb] at h
          obtain ⟨body, rest, rfl, hbody, hrest⟩ := exists_body_of_after ht h
          exact ⟨c :: body, rest, rfl, .plain hq hb hbody, hrest⟩

private theorem endsOutside_of_after {cs : List Char} {around depth : Int}
    (h : (outside around).after cs = outside (around + depth)) : EndsOutside cs depth := by
  match cs with
  | [] =>
      rw [after_nil, outside, outside, Nesting.mk.injEq] at h
      obtain rfl : depth = 0 := by omega
      exact .nil
  | c :: cs =>
      rw [after_cons] at h
      by_cases hq : c = quoteMark
      · subst hq
        rw [step_outside_quote] at h
        obtain ⟨body, rest, whole, hbody, hrest⟩ := exists_body_of_after rfl h
        have shorter : rest.length < cs.length := by
          rw [whole, List.length_append, List.length_cons]
          omega
        rw [whole]
        exact .quoted hbody (endsOutside_of_after hrest)
      · by_cases ho : c = '['
        · subst ho
          have deeper : around + depth = around + 1 + (depth - 1) := by omega
          rw [step_open, deeper] at h
          have form := (endsOutside_of_after h).opening
          rwa [Int.sub_add_cancel] at form
        · by_cases hc : c = ']'
          · subst hc
            have higher : around + depth = around - 1 + (depth + 1) := by omega
            rw [step_outside_closing, higher] at h
            have form := (endsOutside_of_after h).closing
            rwa [Int.add_sub_cancel] at form
          · rw [step_outside_other hq ho hc] at h
            exact .other hq ho hc (endsOutside_of_after h)
termination_by cs.length
decreasing_by
  all_goals
    simp only [List.length_cons]
    omega

/-- The scan is outside quotes at a depth exactly after text that ends there. -/
theorem endsOutside_iff {cs : List Char} {depth : Int} :
    EndsOutside cs depth ↔ Nesting.start.after cs = outside depth := by
  have start : Nesting.start = outside 0 := rfl
  constructor
  · intro h
    rw [start, h.after_eq, Int.zero_add]
  · intro h
    rw [start, ← Int.zero_add depth] at h
    exact endsOutside_of_after h

end RecordFilter.Text
