import RecordFilter.Proofs.Predicate.Folding
import RecordFilter.Proofs.Predicate.Spellable

/-! # Parentheses that change nothing

The fold goes through a level from inside a run: it knows whether the run has held so far and
whether it has begun. A segment of a level can stand in parentheses if the fold goes through it in
the same way as through one result, and that is so if the segment stays inside one run, or if it is
made of whole runs. The nodes are asked in the same order, so whatever the lookup does, it does the
same.
-/

namespace RecordFilter

/-- Every predicate is linked to the next one by `and`. -/
def LinkedByAnd (predicates : List Predicate) : Prop :=
  ∀ p ∈ predicates, ∃ node, p = .linked node (some .and)

/-- No run is left open: there are no predicates, or the last one is not linked by `and`. -/
inductive EndsRun : List Predicate → Prop where
  | nil : EndsRun []
  | concat {before node link} : link ≠ some .and → EndsRun (before ++ [.linked node link])

/-- One level is the other with a segment in parentheses, at some depth. The group takes over the
    link of the last predicate in it. The segment is linked only by `and`, or it begins where a run
    does and ends where a run does. -/
inductive Regrouped : List Predicate → List Predicate → Prop where
  | segment {before segment node link after} :
      LinkedByAnd segment ∨ EndsRun before ∧ (after = [] ∨ link ≠ some .and) →
      Regrouped (before ++ (segment ++ .linked node link :: after))
        (before ++ .linked (.group (segment ++ [.linked node none])) link :: after)
  | inside {before members members' link after} : Regrouped members members' →
      Regrouped (before ++ .linked (.group members) link :: after)
        (before ++ .linked (.group members') link :: after)

theorem chained_append_iff {before rest : List Predicate} (hr : rest ≠ []) :
    Chained (before ++ rest) ↔
      (∀ p ∈ before, ∃ node c, p = .linked node (some c) ∧ node.Chained) ∧ Chained rest := by
  induction before with
  | nil => simp
  | cons p before ih =>
      rw [List.cons_append, List.forall_mem_cons, and_assoc, ← ih]
      constructor
      · intro h
        generalize hl : before ++ rest = others at h ⊢
        cases h with
        | last => exact absurd (List.append_eq_nil_iff.mp hl).2 hr
        | more hn hc => exact ⟨⟨_, _, rfl, hn⟩, hc⟩
      · rintro ⟨⟨node, c, rfl, hn⟩, hc⟩
        exact .more hn hc

private theorem Chained.replace {node other : Node} {link : Option Connective}
    {after : List Predicate}
    (h : Chained (.linked node link :: after)) (ho : other.Chained) :
    Chained (.linked other link :: after) := by
  cases h with
  | last => exact .last ho
  | more _ hc => exact .more ho hc

private theorem Chained.head {node : Node} {link : Option Connective} {after : List Predicate}
    (h : Chained (.linked node link :: after)) : node.Chained := by
  cases h <;> assumption

private theorem Regrouped.chained {level level' : List Predicate} (h : Regrouped level level')
    (hl : Chained level) : Chained level' := by
  induction h with
  | segment _ =>
      rw [chained_append_iff (by simp), chained_append_iff (by simp)] at hl
      obtain ⟨before, segment, rest⟩ := hl
      have members := (chained_append_iff (List.cons_ne_nil _ [])).mpr ⟨segment, .last rest.head⟩
      exact (chained_append_iff (by simp)).mpr ⟨before, rest.replace (.group members)⟩
  | inside _ ih =>
      rw [chained_append_iff (by simp)] at hl ⊢
      obtain ⟨before, rest⟩ := hl
      cases rest.head with
      | group members => exact ⟨before, rest.replace (.group (ih members))⟩

section

variable {m : Type → Type} [Monad m] [MonadLiftT (Except Failure) m] [MonadExceptOf Failure m]
variable (lookup : LookupM m) (record : Value)

/-- Whether a level holds, from inside a run. -/
def foldLevel (running pending : Bool) (level : List Predicate) : m Bool := do
  return foldFrom running pending (← gather (resultsOf lookup record level))

/-- Whether a level holds, from a result in it on, with what has held of its run before. -/
def foldResult (running : Bool) (link : Option Connective) (result : Bool) (after : List Predicate) :
    m Bool :=
  if link = some .and then foldLevel lookup record (running && result) true after
  else (running && result || ·) <$> foldLevel lookup record true false after

private theorem foldResult_and (running : Bool) (link : Option Connective) (first second : Bool)
    (after : List Predicate) :
    foldResult lookup record running link (first && second) after =
      foldResult lookup record (running && first) link second after := by
  simp only [foldResult, Bool.and_assoc]

variable [LawfulMonad m]

theorem foldLevel_nil (running pending : Bool) :
    foldLevel lookup record running pending [] = pure (pending && running) := by
  simp [foldLevel, resultsOf, gather_nil, foldFrom]

theorem evaluateLevel_eq_foldLevel (level : List Predicate) :
    evaluateLevel lookup record level = foldLevel lookup record true false level := by
  simp only [evaluateLevel_eq, foldResults_eq, foldLevel]

theorem foldLevel_cons (running pending : Bool) (p : Predicate) (after : List Predicate) :
    foldLevel lookup record running pending (p :: after) =
      inGenerator (p.result lookup record) >>= fun (link, result) =>
        foldResult lookup record running link result after := by
  simp only [foldLevel, resultsOf, gather_cons, bind_assoc, pure_bind]
  refine bind_congr fun first => ?_
  obtain ⟨link, result⟩ := first
  unfold foldResult foldLevel
  by_cases hl : link = some .and
  · simp [foldFrom, hl]
  · simp [foldFrom, hl]

/-- After the last result nothing is left to hold, whatever its link is. -/
theorem foldResult_nil (running : Bool) (link : Option Connective) (result : Bool) :
    foldResult lookup record running link result [] = pure (running && result) := by
  unfold foldResult
  split <;> simp [foldLevel_nil]

/-- What the fold does not tell apart it does not tell apart behind other predicates. -/
theorem foldLevel_congr {rest rest' : List Predicate}
    (h : ∀ running pending, foldLevel lookup record running pending rest =
      foldLevel lookup record running pending rest') (before : List Predicate)
    (running pending : Bool) :
    foldLevel lookup record running pending (before ++ rest) =
      foldLevel lookup record running pending (before ++ rest') := by
  induction before generalizing running pending with
  | nil => exact h running pending
  | cons p before ih => simp only [List.cons_append, foldLevel_cons, foldResult, ih]

variable [LawfulFailing m]

theorem foldLevel_linked (running pending : Bool) (node : Node) (link : Option Connective)
    (after : List Predicate) :
    foldLevel lookup record running pending (.linked node link :: after) =
      inGenerator (node.holds lookup record) >>= fun result =>
        foldResult lookup record running link result after := by
  simp only [foldLevel_cons, Predicate.result, inGenerator_bind, inGenerator_pure, bind_assoc,
    pure_bind]

private theorem inGenerator_gather (level : List Predicate) :
    inGenerator (gather (resultsOf lookup record level)) =
      gather (resultsOf lookup record level) := by
  induction level with
  | nil => exact inGenerator_pure []
  | cons p rest ih =>
      simp only [resultsOf, gather_cons, inGenerator_bind, inGenerator_inGenerator,
        inGenerator_pure, ih]

/-- The members of a group are asked in a generator, and that the group stands in another one makes
    no difference. -/
theorem inGenerator_holds_group (members : List Predicate) :
    inGenerator (Node.holds lookup record (.group members)) =
      foldLevel lookup record true false members := by
  have level : Node.holds lookup record (.group members) = evaluateLevel lookup record members := by
    rw [Node.holds, evaluateLevel]
  rw [level, evaluateLevel_eq_foldLevel]
  simp only [foldLevel, inGenerator_bind, inGenerator_gather, inGenerator_pure]

/-- Where a run ends, a level is cut in two. -/
theorem foldLevel_append (running pending : Bool) (before : List Predicate) (node : Node)
    {link : Option Connective} (hl : link ≠ some .and) (after : List Predicate) :
    foldLevel lookup record running pending (before ++ .linked node link :: after) =
      foldLevel lookup record running pending (before ++ [.linked node none]) >>= fun first =>
        (first || ·) <$> foldLevel lookup record true false after := by
  induction before generalizing running pending with
  | nil =>
      simp only [List.nil_append, foldLevel_linked, foldResult_nil, bind_assoc, pure_bind]
      simp only [foldResult, if_neg hl]
  | cons p before ih =>
      simp only [List.cons_append, foldLevel_cons, bind_assoc]
      refine bind_congr fun ⟨link, result⟩ => ?_
      by_cases hp : link = some .and
      · simp [foldResult, hp, ih]
      · simp [foldResult, hp, ih, Bool.or_assoc]

/-- A run counts as one result, that of the run by itself. -/
theorem foldLevel_run (running pending : Bool) {run : List Predicate} (h : LinkedByAnd run)
    (node : Node) (link : Option Connective) (after : List Predicate) :
    foldLevel lookup record running pending (run ++ .linked node link :: after) =
      foldLevel lookup record true false (run ++ [.linked node none]) >>= fun result =>
        foldResult lookup record running link result after := by
  induction run generalizing running pending link after with
  | nil => simp [foldLevel_linked, foldResult_nil]
  | cons p run ih =>
      obtain ⟨⟨first, rfl⟩, others⟩ := List.forall_mem_cons.mp h
      simp only [List.cons_append, foldLevel_linked, bind_assoc]
      refine bind_congr fun result => ?_
      have inside (running : Bool) (link : Option Connective) (after : List Predicate) :
          foldResult lookup record running (some .and) result (run ++ .linked node link :: after) =
            foldLevel lookup record true false (run ++ [.linked node none]) >>= fun second =>
              foldResult lookup record (running && result) link second after := by
        rw [foldResult, if_pos rfl, ih _ _ others]
      simp only [inside, bind_assoc, foldResult_nil, pure_bind, Bool.true_and, foldResult_and]

/-- Whole runs count as one result, if the fold begins a run with them. -/
theorem foldLevel_runs (segment : List Predicate) (node : Node) {link : Option Connective}
    {after : List Predicate} (ends : after = [] ∨ link ≠ some .and) :
    foldLevel lookup record true false (segment ++ .linked node link :: after) =
      foldLevel lookup record true false (segment ++ [.linked node none]) >>= fun result =>
        foldResult lookup record true link result after := by
  by_cases hl : link = some .and
  · have last (running pending : Bool) : foldLevel lookup record running pending [.linked node link] =
        foldLevel lookup record running pending [.linked node none] := by
      simp only [foldLevel_linked, foldResult_nil]
    rcases ends with rfl | hne
    · simp only [foldLevel_congr lookup record last, foldResult_nil, Bool.true_and, bind_pure]
    · exact absurd hl hne
  · rw [foldLevel_append lookup record _ _ _ _ hl]
    simp only [foldResult, if_neg hl, Bool.true_and]

private theorem foldLevel_segment {before segment : List Predicate} (node : Node)
    {link : Option Connective} {after : List Predicate}
    (h : LinkedByAnd segment ∨ EndsRun before ∧ (after = [] ∨ link ≠ some .and)) :
    foldLevel lookup record true false
        (before ++ .linked (.group (segment ++ [.linked node none])) link :: after) =
      foldLevel lookup record true false (before ++ (segment ++ .linked node link :: after)) := by
  rcases h with run | ⟨begins, ends⟩
  · apply foldLevel_congr
    intro running pending
    rw [foldLevel_linked, inGenerator_holds_group]
    exact (foldLevel_run lookup record running pending run node link after).symm
  · have runs : foldLevel lookup record true false
          (.linked (.group (segment ++ [.linked node none])) link :: after) =
        foldLevel lookup record true false (segment ++ .linked node link :: after) := by
      rw [foldLevel_linked, inGenerator_holds_group,
        foldLevel_runs lookup record segment node ends]
    cases begins with
    | nil => exact runs
    | concat hl =>
        simp only [List.append_assoc, List.singleton_append]
        rw [foldLevel_append lookup record _ _ _ _ hl,
          foldLevel_append lookup record _ _ _ _ hl, runs]

end

/-- A segment of a level can be put in parentheses, at any depth, if it is linked only by `and` or
    made of whole runs. The level stays well chained, and whatever the lookup does, evaluating it
    gives the same and has the same effects. -/
theorem evaluateLevel_regrouped {m : Type → Type} [Monad m] [LawfulMonad m]
    [MonadLiftT (Except Failure) m] [MonadExceptOf Failure m] [LawfulFailing m]
    {level level' : List Predicate} (h : Regrouped level level') :
    (Chained level → Chained level') ∧ ∀ (lookup : LookupM m) (record : Value),
      evaluateLevel lookup record level' = evaluateLevel lookup record level := by
  refine ⟨h.chained, ?_⟩
  intro lookup record
  simp only [evaluateLevel_eq_foldLevel]
  induction h with
  | segment hs => exact foldLevel_segment lookup record _ hs
  | inside _ ih =>
      apply foldLevel_congr
      intro running pending
      rw [foldLevel_linked, foldLevel_linked, inGenerator_holds_group, inGenerator_holds_group]
      exact congrArg (· >>= _) ih

/-- The condition that a field is missing or null. -/
def Condition.absent (name : String) : Condition := ⟨name, .equal, .null⟩

theorem evaluateLevel_regrouped_runs : ∃ level level' : List Predicate,
    level' = [.linked (.group [.linked (.condition (.absent "a")) (some .or),
      .linked (.group [.linked (.condition (.absent "b")) (some .or),
        .linked (.condition (.absent "c")) (some .and),
        .linked (.condition (.absent "d")) none]) none]) none] ∧
    Regrouped level level' ∧ Chained level ∧ Chained level' ∧
    evaluateLevel Lookup.path (.dict [("a", .bool true), ("b", .bool true)]) level = .ok true ∧
    evaluateLevel Lookup.path (.dict [("a", .bool true), ("b", .bool true)]) level' = .ok true := by
  have whole : EndsRun [.linked (.condition (.absent "a")) (some .or)] :=
    @EndsRun.concat [] _ _ nofun
  have inner := @Regrouped.segment _ [.linked (.condition (.absent "b")) (some .or),
    .linked (.condition (.absent "c")) (some .and)] (.condition (.absent "d")) none _
    (.inr ⟨whole, .inl rfl⟩)
  have regrouped := @Regrouped.inside [] _ _ none [] inner
  obtain ⟨keeps, same⟩ := evaluateLevel_regrouped (m := Except Failure) regrouped
  refine ⟨_, _, rfl, regrouped, ?chained, keeps ?chained, ?result, (same _ _).trans ?result⟩
  · exact .last (.group (.more (.condition _) (.more (.condition _) (.more (.condition _)
      (.last (.condition _))))))
  · rfl

end RecordFilter
