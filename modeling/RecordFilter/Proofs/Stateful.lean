import RecordFilter.Proofs.Generator
import RecordFilter.Stateful

/-! # Running operations on a state

An operation that follows another one begins in the state that the other has left. After a failure
nothing more is done, and the state is the one that was reached.
-/

namespace RecordFilter

namespace Stateful

variable {σ α β : Type} {s t : σ} {x : Stateful σ α}

theorem runFrom_pure (a : α) (s : σ) : runFrom (pure a) s = (.ok a, s) := rfl

theorem runFrom_lift (result : Except Failure α) (s : σ) :
    runFrom (liftM result : Stateful σ α) s = (result, s) := rfl

theorem runFrom_get (s : σ) : runFrom (get : Stateful σ σ) s = (.ok s, s) := rfl

theorem runFrom_bind_of_ok {a : α} (h : x.runFrom s = (.ok a, t)) (f : α → Stateful σ β) :
    (x >>= f).runFrom s = (f a).runFrom t := by
  simp only [runFrom, ExceptT.run_bind, StateT.run_bind] at h ⊢
  rw [h]
  rfl

theorem runFrom_bind_of_error {failure : Failure} (h : x.runFrom s = (.error failure, t))
    (f : α → Stateful σ β) : (x >>= f).runFrom s = (.error failure, t) := by
  simp only [runFrom, ExceptT.run_bind, StateT.run_bind] at h ⊢
  rw [h]
  rfl

/-- A result that is there already is all that decides how the operation goes on. -/
theorem runFrom_lift_bind (result : Except Failure α) (f : α → Stateful σ β) (s : σ) :
    (liftM result >>= f).runFrom s =
      match result with
      | .ok a => (f a).runFrom s
      | .error failure => (.error failure, s) := by
  cases result with
  | ok a => exact runFrom_bind_of_ok (runFrom_lift (.ok a) s) f
  | error failure => exact runFrom_bind_of_error (runFrom_lift (.error failure) s) f

theorem runFrom_effectOf_of_ok {a : α} (h : x.runFrom s = (.ok a, t)) :
    (effectOf x).runFrom s = (.ok (), t) := runFrom_bind_of_ok h _

theorem runFrom_effectOf_of_error {failure : Failure} (h : x.runFrom s = (.error failure, t)) :
    (effectOf x).runFrom s = (.error failure, t) := runFrom_bind_of_error h _

theorem runFrom_effectOf_ok_iff :
    (effectOf x).runFrom s = (.ok (), t) ↔ ∃ a, x.runFrom s = (.ok a, t) := by
  constructor
  · intro h
    rcases hx : x.runFrom s with ⟨_ | a, t'⟩
    · rw [runFrom_effectOf_of_error hx] at h
      cases h
    · rw [runFrom_effectOf_of_ok hx] at h
      cases h
      exact ⟨a, rfl⟩
  · rintro ⟨a, ha⟩
    exact runFrom_effectOf_of_ok ha

theorem runFrom_effectOf_error_iff {failure : Failure} :
    (effectOf x).runFrom s = (.error failure, t) ↔ x.runFrom s = (.error failure, t) := by
  constructor
  · intro h
    rcases hx : x.runFrom s with ⟨failed | a, t'⟩
    · rw [runFrom_effectOf_of_error hx] at h
      cases h
      rfl
    · rw [runFrom_effectOf_of_ok hx] at h
      cases h
  · exact runFrom_effectOf_of_error

theorem runFrom_inGenerator (x : Stateful σ α) (s : σ) :
    (inGenerator x).runFrom s = ((x.runFrom s).1.mapError Failure.passedOn, (x.runFrom s).2) :=
  congrArg (· s) (run_rethrow Failure.passedOn x)

end Stateful

end RecordFilter
