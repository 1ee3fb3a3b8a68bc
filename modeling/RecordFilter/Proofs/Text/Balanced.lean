import RecordFilter.Proofs.Text.Nesting
import RecordFilter.Text.Blank

/-! # Text between brackets

The scan for a closing bracket passes over what stands before it without leaving the brackets. The
same text then runs at any depth, because a scan further out never sees the outermost bracket close:
text that is cut out by its brackets is enclosed.
-/

namespace RecordFilter.Text

namespace Nesting

/-- The state with more brackets open around it. -/
def shift (s : Nesting) (n : Int) : Nesting := ⟨s.depth + n, s.mode⟩

theorem step_shift (s : Nesting) (n : Int) (c : Char) :
    (s.shift n).step c = (s.step c).shift n := by
  obtain ⟨depth, mode⟩ := s
  cases mode with
  | escaped => rfl
  | inside =>
      simp only [step, shift]
      split
      · rfl
      · split <;> rfl
  | outside =>
      simp only [step, shift]
      split
      · rfl
      · split
        · simp only [Nesting.mk.injEq, and_true]
          omega
        · split
          · simp only [Nesting.mk.injEq, and_true]
            omega
          · rfl

/-- Only the outermost bracket leads out of the brackets. -/
theorem one_le_depth_step {s : Nesting} {c : Char} (h : ¬s.Closes c) (deep : 1 ≤ s.depth) :
    1 ≤ (s.step c).depth := by
  obtain ⟨depth, mode⟩ := s
  cases mode with
  | escaped => exact deep
  | inside =>
      simp only [step]
      split
      · exact deep
      · split <;> exact deep
  | outside =>
      simp only [Closes, true_and, not_and] at h
      simp only [step] at deep ⊢
      split
      · exact deep
      · split
        · simp only
          omega
        · split
          · next close =>
              have := h close
              simp only
              omega
          · exact deep

end Nesting

/-- Text that stays inside its brackets runs at any depth. -/
theorem Runs.shift {stop : Nesting → Char → Prop} {depth : Int} (hs : Spares stop depth)
    {s t : Nesting} {cs : List Char} (h : Runs Nesting.Closes s cs t) (deep : 1 ≤ s.depth) :
    Runs stop (s.shift depth) cs (t.shift depth) := by
  induction h with
  | nil => exact .nil
  | @cons s c cs t hc _ ih =>
      refine .cons ?_ ?_
      · intro hst
        have := (hs _ _ hst).2.2
        simp only [Nesting.shift] at this
        omega
      · rw [Nesting.step_shift]
        exact ih (Nesting.one_le_depth_step hc deep)

/-- Brackets with such text between them are enclosed. -/
theorem Enclosed.brackets {body : List Char}
    (h : Runs Nesting.Closes (.outside 1) body (.outside 1)) :
    Enclosed ('[' :: (body ++ [']'])) := by
  intro stop depth hs
  have deeper {c : Char} : ¬stop (.outside (depth + 1)) c := by
    intro hst
    have := (hs _ c hst).2.2
    simp only [Nesting.outside] at this
    omega
  have inside := Runs.shift hs h (Int.le_refl 1)
  have shifted : (Nesting.outside 1).shift depth = .outside (depth + 1) := by
    rw [Nesting.shift, Nesting.outside, Int.add_comm]
    rfl
  have close := Runs.singleton (deeper (c := ']'))
  rw [step_close] at close
  rw [shifted] at inside
  apply Runs.cons
  · intro hst
    rcases (hs _ _ hst).2.1 with h | h <;> exact absurd h (by decide)
  · rw [step_open]
    exact inside.append close

private theorem runs_of_takeBalanced? {s : Nesting} {cs taken rest : List Char}
    (h : takeBalanced? s cs = some (taken, rest)) :
    ∃ inner, taken = inner ++ [']'] ∧ Runs Nesting.Closes s inner (.outside 1) := by
  induction cs generalizing s taken with
  | nil => cases h
  | cons c cs ih =>
      rw [takeBalanced?] at h
      split at h
      · next hc =>
          cases h
          obtain ⟨depth, mode⟩ := s
          obtain ⟨rfl, rfl, rfl⟩ := hc
          exact ⟨[], rfl, .nil⟩
      · next hc =>
          obtain ⟨⟨more, after⟩, hm, he⟩ := Option.map_eq_some_iff.mp h
          cases he
          obtain ⟨inner, rfl, runs⟩ := ih hm
          exact ⟨c :: inner, rfl, .cons hc runs⟩

/-- What is taken of a text that begins with a bracket ends with the bracket that closes it. -/
theorem exists_body_of_takeBalanced? {cs taken rest : List Char}
    (h : takeBalanced? .start ('[' :: cs) = some (taken, rest)) :
    ∃ body, taken = '[' :: (body ++ [']']) ∧ Runs Nesting.Closes (.outside 1) body (.outside 1) := by
  have opening : ¬Nesting.start.Closes '[' := by decide
  have state : Nesting.start.step '[' = .outside 1 := by decide
  rw [takeBalanced?, if_neg opening, state] at h
  obtain ⟨⟨more, after⟩, hm, he⟩ := Option.map_eq_some_iff.mp h
  cases he
  obtain ⟨body, rfl, runs⟩ := runs_of_takeBalanced? hm
  exact ⟨body, rfl, runs⟩

theorem takeBalanced?_brackets {body : List Char}
    (h : Runs Nesting.Closes (.outside 1) body (.outside 1)) (rest : List Char) :
    takeBalanced? .start ('[' :: (body ++ ']' :: rest)) = some ('[' :: (body ++ [']']), rest) := by
  have opening : ¬Nesting.start.Closes '[' := by decide
  have state : Nesting.start.step '[' = .outside 1 := by decide
  rw [takeBalanced?, if_neg opening, state, takeBalanced?_append h]
  rfl

theorem isPlain_of_isBlank {c : Char} (h : isBlank c = true) : IsPlain c := by
  refine ⟨?_, ?_, ?_, ?_⟩
  all_goals
    rintro rfl
    exact absurd h (by decide)

end RecordFilter.Text
