import RecordFilter.Proofs.Predicate.Folding

/-! # Runs of results

The fold goes through a level once and keeps only whether the run that it is in has held so far.
Told by its runs, a level holds if one of them holds, and a run holds if all of its results do. So
neither the order of the runs matters nor that of the results in a run, and where no run is left
open a level can be cut in two.
-/

namespace RecordFilter

variable {α : Type}

/-- The runs of a sequence: it is cut behind each result that is not linked by `and`. The last run
    may be left open. -/
def runsOf : List (Option Connective × α) → List (List α)
  | [] => []
  | (link, result) :: rest =>
    if link = some .and then
      match runsOf rest with
      | [] => [[result]]
      | run :: runs => (result :: run) :: runs
    else [result] :: runsOf rest

/-- The results, each told true or false. -/
def judged (truth : α → Bool) (results : List (Option Connective × α)) :
    List (Option Connective × Bool) :=
  results.map fun (link, result) => (link, truth result)

/-- There are no results, or the last one is not linked by `and`. -/
def LeavesNoneOpen (results : List (Option Connective × α)) : Prop :=
  ∀ last ∈ results.getLast?, last.1 ≠ some .and

/-- The same runs in some order, each with the same results in some order. -/
def Reordered (runs runs' : List (List α)) : Prop :=
  ∃ moved, runs.Perm moved ∧ List.Forall₂ List.Perm moved runs'

section

variable {link : Option Connective} {result : α} {rest : List (Option Connective × α)}

theorem runsOf_and_nil (h : runsOf rest = []) :
    runsOf ((some .and, result) :: rest) = [[result]] := by
  rw [runsOf, if_pos rfl, h]

theorem runsOf_and_cons {run : List α} {runs : List (List α)} (h : runsOf rest = run :: runs) :
    runsOf ((some .and, result) :: rest) = (result :: run) :: runs := by
  rw [runsOf, if_pos rfl, h]

theorem runsOf_cut (h : link ≠ some .and) :
    runsOf ((link, result) :: rest) = [result] :: runsOf rest :=
  if_neg h

end

private theorem ne_nil_of_mem_runsOf {results : List (Option Connective × α)} :
    ∀ run ∈ runsOf results, run ≠ [] := by
  induction results with
  | nil => exact List.forall_mem_nil _
  | cons first rest ih =>
      obtain ⟨link, result⟩ := first
      by_cases hl : link = some .and
      · subst hl
        cases hr : runsOf rest with
        | nil =>
            rw [runsOf_and_nil hr]
            exact List.forall_mem_singleton.mpr (List.cons_ne_nil _ _)
        | cons run runs =>
            rw [runsOf_and_cons hr]
            rw [hr, List.forall_mem_cons] at ih
            exact List.forall_mem_cons.mpr ⟨List.cons_ne_nil _ _, ih.2⟩
      · rw [runsOf_cut hl]
        exact List.forall_mem_cons.mpr ⟨List.cons_ne_nil _ _, ih⟩

/-- A run that is closed is a run of its own, whatever comes after it. -/
theorem runsOf_closed (run : List α) (last : α) {link : Option Connective} (h : link ≠ some .and)
    (rest : List (Option Connective × α)) :
    runsOf (run.map (some .and, ·) ++ (link, last) :: rest) = (run ++ [last]) :: runsOf rest := by
  induction run with
  | nil => exact runsOf_cut h
  | cons result run ih => exact runsOf_and_cons ih

theorem runsOf_ne_nil (first : Option Connective × α) (rest : List (Option Connective × α)) :
    runsOf (first :: rest) ≠ [] := by
  obtain ⟨link, result⟩ := first
  rw [runsOf]
  split
  · split <;> exact List.cons_ne_nil _ _
  · exact List.cons_ne_nil _ _

private theorem LeavesNoneOpen.tail {first : Option Connective × α}
    {rest : List (Option Connective × α)}
    (h : LeavesNoneOpen (first :: rest)) : LeavesNoneOpen rest := by
  cases rest with
  | nil => nofun
  | cons second more => exact h

theorem runsOf_append {s t : List (Option Connective × α)} (h : LeavesNoneOpen s) :
    runsOf (s ++ t) = runsOf s ++ runsOf t := by
  induction s with
  | nil => rfl
  | cons first rest ih =>
      obtain ⟨link, result⟩ := first
      by_cases hl : link = some .and
      · subst hl
        cases rest with
        | nil => exact absurd rfl (h _ rfl)
        | cons second more =>
            obtain ⟨run, runs, hr⟩ := List.exists_cons_of_ne_nil (runsOf_ne_nil second more)
            have joined : runsOf (second :: more ++ t) = run :: (runs ++ runsOf t) := by
              rw [ih h.tail, hr, List.cons_append]
            rw [List.cons_append, runsOf_and_cons joined, runsOf_and_cons hr, List.cons_append]
      · rw [List.cons_append, runsOf_cut hl, runsOf_cut hl, ih h.tail, List.cons_append]

private theorem foldFrom_judged (truth : α → Bool) (results : List (Option Connective × α))
    (running pending : Bool) : foldFrom running pending (judged truth results) =
      match runsOf results with
      | [] => pending && running
      | run :: runs => (running && run.all truth) || runs.any (·.all truth) := by
  induction results generalizing running pending with
  | nil => rfl
  | cons first rest ih =>
      obtain ⟨link, result⟩ := first
      rw [judged, List.map_cons, foldFrom, ← judged, ih, ih]
      by_cases hl : link = some .and
      · subst hl
        cases hr : runsOf rest with
        | nil => simp [runsOf_and_nil hr]
        | cons run runs => simp [runsOf_and_cons hr, Bool.and_assoc]
      · rw [runsOf_cut hl]
        cases runsOf rest <;> simp [hl]

private theorem foldResults_eq_any (truth : α → Bool) (results : List (Option Connective × α)) :
    foldResults (judged truth results) = (runsOf results).any (·.all truth) := by
  rw [foldResults_eq, foldFrom_judged]
  cases runsOf results <;> simp

private theorem Reordered.any_eq {runs runs' : List (List α)} (h : Reordered runs runs')
    (truth : α → Bool) : runs.any (·.all truth) = runs'.any (·.all truth) := by
  obtain ⟨moved, order, each⟩ := h
  rw [order.any_eq]
  clear order
  induction each with
  | nil => rfl
  | cons first _ ih => rw [List.any_cons, List.any_cons, first.all_eq, ih]

theorem Reordered.ne_nil {runs runs' : List (List α)} (h : Reordered runs runs')
    (each : ∀ run ∈ runs, run ≠ []) : ∀ run ∈ runs', run ≠ [] := by
  obtain ⟨moved, order, same⟩ := h
  replace each : ∀ run ∈ moved, run ≠ [] := fun run hr => each run (order.mem_iff.mpr hr)
  clear order
  induction same with
  | nil => exact List.forall_mem_nil _
  | cons first _ ih =>
      rw [List.forall_mem_cons] at each ⊢
      exact ⟨fun none => each.1 (none ▸ first).eq_nil, ih each.2⟩

/-- Runs that are not empty are the runs of a sequence, in which `or` stands between them. -/
theorem exists_runsOf_eq {runs : List (List α)} (each : ∀ run ∈ runs, run ≠ []) :
    ∃ results, runsOf results = runs := by
  induction runs with
  | nil => exact ⟨[], rfl⟩
  | cons run runs ih =>
      rw [List.forall_mem_cons] at each
      obtain ⟨rest, hr⟩ := ih each.2
      obtain ⟨others, last, rfl⟩ := (List.eq_nil_or_concat' run).resolve_left each.1
      refine ⟨others.map (some .and, ·) ++ (some .or, last) :: rest, ?_⟩
      rw [runsOf_closed others last (by decide), hr]

/-- A level holds exactly if one of its runs holds. So a level that leaves no run open can be
    followed by another as if there was `or` between them, and a level whose runs are those of
    another in some order, with their results in some order, holds if the other does. Such a level
    there is for every order. -/
theorem foldResults_iff_exists_run (truth : α → Bool) (s : List (Option Connective × α)) :
    (foldResults (judged truth s) = true ↔
      ∃ run ∈ runsOf s, run ≠ [] ∧ ∀ result ∈ run, truth result = true) ∧
    (LeavesNoneOpen s → ∀ t, foldResults (judged truth (s ++ t)) =
      (foldResults (judged truth s) || foldResults (judged truth t))) ∧
    ∀ runs, Reordered (runsOf s) runs → (∃ t, runsOf t = runs) ∧
      ∀ t, runsOf t = runs → foldResults (judged truth t) = foldResults (judged truth s) := by
  refine ⟨?_, ?_, ?_⟩
  · rw [foldResults_eq_any, List.any_eq_true]
    simp only [List.all_eq_true]
    constructor
    · rintro ⟨run, hr, holds⟩
      exact ⟨run, hr, ne_nil_of_mem_runsOf run hr, holds⟩
    · rintro ⟨run, hr, _, holds⟩
      exact ⟨run, hr, holds⟩
  · intro closed t
    simp only [foldResults_eq_any, runsOf_append closed, List.any_append]
  · intro runs order
    refine ⟨exists_runsOf_eq (order.ne_nil ne_nil_of_mem_runsOf), ?_⟩
    rintro t rfl
    rw [foldResults_eq_any, foldResults_eq_any, order.any_eq]

/-- Results of several kinds, with a link left out in the middle. -/
def closedResults : List (Option Connective × Value) :=
  [(some .and, .number (.int 2)), (none, .text ""), (some .or, .null)]

/-- Results of a run that is left open. -/
def openResults : List (Option Connective × Value) :=
  [(some .and, .list [.null]), (some .and, .bool true)]

/-- When the open run is put in front, something has to close it. -/
theorem foldResults_iff_exists_run_open :
    LeavesNoneOpen closedResults ∧
    foldResults (judged Value.isTruthy closedResults) = false ∧
    foldResults (judged Value.isTruthy (closedResults ++ openResults)) = true ∧
    Reordered (runsOf (closedResults ++ openResults))
      [[.bool true, .list [.null]], [.null], [.text "", .number (.int 2)]] ∧
    ∀ t, runsOf t = [[.bool true, .list [.null]], [.null], [.text "", .number (.int 2)]] →
      foldResults (judged Value.isTruthy t) = true := by
  have closed : LeavesNoneOpen closedResults := by
    rintro _ ⟨⟩
    decide
  have order : Reordered (runsOf (closedResults ++ openResults))
      [[.bool true, .list [.null]], [.null], [.text "", .number (.int 2)]] :=
    ⟨_, (List.reverse_perm _).symm, .cons (.swap _ _ _) (.cons (.refl _) (.cons (.swap _ _ _) .nil))⟩
  have apart : foldResults (judged Value.isTruthy closedResults) = false := by decide
  have whole : foldResults (judged Value.isTruthy (closedResults ++ openResults)) = true := by
    rw [(foldResults_iff_exists_run Value.isTruthy closedResults).2.1 closed openResults, apart]
    decide
  refine ⟨closed, apart, whole, order, ?_⟩
  intro t runs
  rw [((foldResults_iff_exists_run Value.isTruthy _).2.2 _ order).2 t runs, whole]

end RecordFilter
