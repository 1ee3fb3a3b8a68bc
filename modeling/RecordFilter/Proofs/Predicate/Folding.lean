import RecordFilter.Proofs.Generator

/-! # The fold of a level

The fold pulls one result after the other and keeps the runs behind it. It never lets what it has
taken decide whether it goes on, so the results can as well be gathered first; and of the runs
behind it, it only matters whether one of them has held.
-/

namespace RecordFilter

/-- Whether a level holds, from inside a run: `running` says whether the run has held so far, and
    `pending` whether it has begun. -/
def foldFrom (running pending : Bool) : List (Option Connective × Bool) → Bool
  | [] => pending && running
  | (link, result) :: rest =>
    if link = some .and then foldFrom (running && result) true rest
    else (running && result) || foldFrom true false rest

section

variable {m : Type → Type} [Monad m]

/-- Runs operations one after the other and gathers what they give. -/
def gather {α : Type} (operations : List (m α)) : m (List α) := operations.mapM id

theorem gather_nil {α : Type} : gather ([] : List (m α)) = pure [] := List.mapM_nil

variable [LawfulMonad m]

theorem gather_cons {α : Type} (x : m α) (rest : List (m α)) :
    gather (x :: rest) = do return (← x) :: (← gather rest) := List.mapM_cons

theorem gather_append {α : Type} (first second : List (m α)) :
    gather (first ++ second) = do return (← gather first) ++ (← gather second) := List.mapM_append

end

namespace Folding

private theorem foldl_take_holds (f : Folding) (results : List (Option Connective × Bool)) :
    (results.foldl (fun f (link, result) => f.take link result) f).holds =
      (f.runs.any id || foldFrom f.running f.pending results) := by
  induction results generalizing f with
  | nil =>
      rw [List.foldl_nil, foldFrom, holds]
      cases f.pending <;> simp
  | cons first rest ih =>
      obtain ⟨link, result⟩ := first
      rw [List.foldl_cons, ih, foldFrom]
      -- Only `and` leaves the run open, of the three that a link can be.
      rcases link with _ | _ | _
      · simp [take, Bool.or_assoc]
      · simp [take]
      · simp [take, Bool.or_assoc]

section

variable {m : Type → Type} [Monad m] [LawfulMonad m]

private theorem through_eq_foldl (f : Folding) (operations : List (m (Option Connective × Bool))) :
    f.through operations = do
      return ((← gather operations).foldl (fun f (link, result) => f.take link result) f).holds := by
  induction operations generalizing f with
  | nil => simp [through, gather_nil]
  | cons next rest ih =>
      rw [through, gather_cons]
      simp only [ih, bind_assoc, pure_bind, List.foldl_cons]

theorem through_eq (f : Folding) (operations : List (m (Option Connective × Bool))) :
    f.through operations = do
      return (f.runs.any id || foldFrom f.running f.pending (← gather operations)) := by
  simp only [through_eq_foldl, foldl_take_holds]

end

end Folding

theorem foldResults_eq (results : List (Option Connective × Bool)) :
    foldResults results = foldFrom true false results := by
  have gathered : gather (m := Id) (results.map pure) = results := by
    induction results with
    | nil => rfl
    | cons first rest ih =>
        rw [List.map_cons, gather_cons, ih]
        rfl
  rw [foldResults, Folding.through_eq, gathered]
  rfl

section

variable {m : Type → Type} [Monad m] [LawfulMonad m] [MonadLiftT (Except Failure) m]
  [MonadExceptOf Failure m]

/-- The results of a level can be gathered before they are folded. -/
theorem evaluateLevel_eq (lookup : LookupM m) (record : Value) (level : List Predicate) :
    evaluateLevel lookup record level = do
      return foldResults (← gather (resultsOf lookup record level)) := by
  simp only [evaluateLevel, Folding.through_eq, foldResults_eq]
  rfl

end

end RecordFilter
