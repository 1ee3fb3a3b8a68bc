import Mathlib.Order.WellFounded

/-! # Recursions that end

A recursion is given by one step of it, in which the answers to further questions are left open. It
ends if a step asks only questions that are smaller than its own. Then it has exactly one solution.
What a step asks may depend on the answers before, so it is told which answers are to be expected.
-/

namespace RecordFilter

variable {ι ρ : Type} {size : ι → Nat} {expected : ι → ρ → Prop} {step : (ι → ρ) → ι → ρ}

/-- Every answer is what the step makes of all answers. -/
def Solves (step : (ι → ρ) → ι → ρ) (f : ι → ρ) : Prop := ∀ c, f c = step f c

/-- A step asks only smaller questions, as long as the answers to these are as expected; its own
    answer is so too. Of what is not asked the answer does not matter. -/
structure Descends (size : ι → Nat) (expected : ι → ρ → Prop) (step : (ι → ρ) → ι → ρ) : Prop where
  asks_smaller : ∀ (f g : ι → ρ) c,
    (∀ d, size d < size c → f d = g d ∧ expected d (f d)) → step f c = step g c
  answers : ∀ (f : ι → ρ) c, (∀ d, size d < size c → expected d (f d)) → expected c (step f c)

namespace Descends

variable (h : Descends size expected step) {f g : ι → ρ}
include h

theorem expected_of_solution (hf : Solves step f) (c : ι) : expected c (f c) := by
  induction hn : size c using Nat.strongRecOn generalizing c with
  | ind n ih =>
      rw [hf]
      apply h.answers
      intro d smaller
      exact ih (size d) (hn ▸ smaller) d rfl

theorem eq_of_solutions (hf : Solves step f) (hg : Solves step g) : f = g := by
  funext c
  induction hn : size c using Nat.strongRecOn generalizing c with
  | ind n ih =>
      rw [hf, hg]
      apply h.asks_smaller
      intro d smaller
      exact ⟨ih (size d) (hn ▸ smaller) d rfl, h.expected_of_solution hf d⟩

/-- What `unasked` is does not matter: a question that is not smaller gets this answer. -/
theorem exists_solution (unasked : ρ) : ∃ f, Solves step f := by
  let f : ι → ρ := WellFounded.fix (measure size).wf fun c answer =>
    step (fun d => if smaller : size d < size c then answer d smaller else unasked) c
  have unfolded (c : ι) :
      f c = step (fun d => if _ : size d < size c then f d else unasked) c :=
    WellFounded.fix_eq (measure size).wf _ c
  have kept (c : ι) : expected c (f c) := by
    induction hn : size c using Nat.strongRecOn generalizing c with
    | ind n ih =>
        rw [unfolded]
        apply h.answers
        intro d smaller
        rw [dif_pos smaller]
        exact ih (size d) (hn ▸ smaller) d rfl
  refine ⟨f, fun c => ?_⟩
  rw [unfolded]
  apply h.asks_smaller
  intro d smaller
  rw [dif_pos smaller]
  exact ⟨rfl, kept d⟩

theorem existsUnique_solution (unasked : ρ) : ∃! f, Solves step f := by
  obtain ⟨f, hf⟩ := h.exists_solution unasked
  exact ⟨f, hf, fun g hg => h.eq_of_solutions hg hf⟩

end Descends
end RecordFilter
