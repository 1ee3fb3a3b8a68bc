import RecordFilter.Predicate.Evaluate
import RecordFilter.Proofs.Effect

/-! # Failures that leave a generator

A generator changes a failure on its way out. Of operations that run one after the other inside of
it each fails as it would in a generator of its own, and a second generator around the first changes
nothing more.
-/

namespace RecordFilter

section

variable {m : Type → Type} [Monad m] [MonadExceptOf Failure m] {α β : Type}

/-- The operation, failing otherwise. -/
def rethrow (change : Failure → Failure) (x : m α) : m α :=
  tryCatch x fun failure => throw (change failure)

end

/-- A failure is raised once, by the operation at which it happens, and so it is changed there. -/
class LawfulFailing (m : Type → Type) [Monad m] [MonadExceptOf Failure m] : Prop where
  rethrow_pure {α : Type} (change : Failure → Failure) (a : α) :
    rethrow change (pure a : m α) = pure a
  rethrow_bind {α β : Type} (change : Failure → Failure) (x : m α) (f : α → m β) :
    rethrow change (x >>= f) = rethrow change x >>= fun a => rethrow change (f a)
  rethrow_rethrow {α : Type} (change change' : Failure → Failure) (x : m α) :
    rethrow change' (rethrow change x) = rethrow (change' ∘ change) x

export LawfulFailing (rethrow_pure rethrow_bind rethrow_rethrow)

instance : LawfulFailing (Except Failure) where
  rethrow_pure _ _ := rfl
  rethrow_bind _ x _ := by cases x <;> rfl
  rethrow_rethrow _ _ x := by cases x <;> rfl

section

variable {n : Type → Type} [Monad n] [LawfulMonad n]

theorem run_rethrow {α : Type} (change : Failure → Failure) (x : ExceptT Failure n α) :
    (rethrow change x).run = Except.mapError change <$> x.run := by
  rw [map_eq_pure_bind]
  refine bind_congr fun result => ?_
  cases result <;> rfl

instance : LawfulFailing (ExceptT Failure n) where
  rethrow_pure change a := by
    apply ExceptT.ext
    rw [run_rethrow, ExceptT.run_pure, map_pure]
    rfl
  rethrow_bind change x f := by
    apply ExceptT.ext
    simp only [run_rethrow, ExceptT.run_bind, map_bind, bind_map_left]
    refine bind_congr fun result => ?_
    cases result with
    | ok a => rfl
    | error failure => exact map_pure _ _
  rethrow_rethrow change change' x := by
    apply ExceptT.ext
    simp only [run_rethrow, Functor.map_map]
    refine congrArg (· <$> x.run) (funext fun result => ?_)
    cases result <;> rfl

end

section

variable {m : Type → Type} [Monad m] [MonadExceptOf Failure m] [LawfulFailing m]

theorem inGenerator_pure {α : Type} (a : α) :
    inGenerator (pure a : m α) = pure a := rethrow_pure _ a

theorem inGenerator_bind {α β : Type} (x : m α) (f : α → m β) :
    inGenerator (x >>= f) = inGenerator x >>= fun a => inGenerator (f a) := rethrow_bind _ x f

theorem passedOn_passedOn (failure : Failure) : failure.passedOn.passedOn = failure.passedOn := by
  cases failure <;> rfl

/-- A second generator around the first changes nothing more. -/
theorem inGenerator_inGenerator {α : Type} (x : m α) :
    inGenerator (inGenerator x) = inGenerator x := by
  have twice := rethrow_rethrow Failure.passedOn Failure.passedOn x
  rwa [show Failure.passedOn ∘ Failure.passedOn = Failure.passedOn from funext passedOn_passedOn]
    at twice

theorem effectOf_inGenerator {α : Type} (x : m α) :
    effectOf (inGenerator x) = inGenerator (effectOf x) := by
  simp only [effectOf, inGenerator_bind, inGenerator_pure]

theorem inGenerator_forM {α : Type} {step : α → m Unit} (h : ∀ a, inGenerator (step a) = step a)
    (as : List α) : inGenerator (forM as step) = forM as step := by
  induction as with
  | nil => exact inGenerator_pure ()
  | cons a as ih => simp only [List.forM_cons, inGenerator_bind, h, ih]

end

end RecordFilter
