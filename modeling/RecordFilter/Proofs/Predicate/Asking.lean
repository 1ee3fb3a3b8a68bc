import RecordFilter.Proofs.Stateful

/-! # Every leaf is asked

The leaves of a tree are its conditions and the foreign values in it. Evaluation asks them one after
the other, in text order. What is folded out of their answers never decides what is asked next: only
a failure does, by ending the evaluation. So, but for its answer, evaluating a level is going
through its leaves, whatever effects the lookup has. A failure comes out as the generators pass it
on in which its leaf stands.
-/

namespace RecordFilter

/-- A part of a tree that is asked by itself: a condition, or a value in the place of a node or of a
    predicate. -/
inductive Leaf where
  | condition (c : Condition)
  | node (v : Value)
  | predicate (v : Value)

mutual

/-- The leaves of a node in text order. -/
def Node.leaves : Node → List Leaf
  | .condition c => [.condition c]
  | .group members => leavesOf members
  | .foreign v => [.node v]

def Predicate.leaves : Predicate → List Leaf
  | .linked node _ => node.leaves
  | .foreign v => [.predicate v]

def leavesOf : List Predicate → List Leaf
  | [] => []
  | p :: rest => p.leaves ++ leavesOf rest

end

/-- What a lookup is asked for: the field of a record at a path. -/
abbrev Call := Value × List String

def Condition.call (record : Value) (c : Condition) : Call := (record, c.path)

/-- The calls that asking a leaf makes. -/
def Leaf.calls (record : Value) : Leaf → List Call
  | .condition c => [c.call record]
  | .node _ | .predicate _ => []

mutual

private theorem Node.calls_leaves (record : Value) (node : Node) :
    node.leaves.flatMap (Leaf.calls record) = node.conditions.map (Condition.call record) := by
  cases node with
  | condition c => rfl
  | group members => exact calls_leavesOf record members
  | foreign v => rfl

private theorem Predicate.calls_leaves (record : Value) (p : Predicate) :
    p.leaves.flatMap (Leaf.calls record) = p.conditions.map (Condition.call record) := by
  cases p with
  | linked node link => exact node.calls_leaves record
  | foreign v => rfl

/-- The leaves of a level make one call for each of its conditions. -/
theorem calls_leavesOf (record : Value) (level : List Predicate) :
    (leavesOf level).flatMap (Leaf.calls record) =
      (conditionsOf level).map (Condition.call record) := by
  cases level with
  | nil => rfl
  | cons p rest =>
      simp only [leavesOf, conditionsOf, List.flatMap_append, List.map_append,
        p.calls_leaves record, calls_leavesOf record rest]

end

section

variable {m : Type → Type} [Monad m] [MonadLiftT (Except Failure) m]

/-- A foreign element fails before it gives anything, so it does not matter what it should give. -/
theorem effectOf_failForeign [LawfulMonadLiftT (Except Failure) m] {α β : Type} (v : Value) :
    effectOf (liftM (failForeign v : Except Failure α) : m α) =
      effectOf (liftM (failForeign v : Except Failure β) : m β) := by
  have lifted {γ : Type} (x : Except Failure γ) :
      effectOf (liftM x : m γ) = liftM (effectOf x) := by
    simp only [effectOf, liftM_bind, liftM_pure]
  have same : effectOf (failForeign v : Except Failure α) =
      effectOf (failForeign v : Except Failure β) := by
    simp only [failForeign, failUnknown]
    cases v.readAttribute "forward_operator" with
    | error failure => rfl
    | ok link => cases Node.readForeign v <;> rfl
  rw [lifted, lifted, same]

variable [MonadExceptOf Failure m]

/-- Whether a condition holds of a record. Foreign values fail when they are asked. -/
def Leaf.holds (lookup : LookupM m) (record : Value) : Leaf → m Bool
  | .condition c => c.holds lookup record
  | .node v => liftM (failUnknown v : Except Failure Bool)
  | .predicate v => liftM (failForeign v : Except Failure Bool)

/-- Asks a leaf, in the generator of its level, without regard to its answer. -/
def Leaf.ask (lookup : LookupM m) (record : Value) (leaf : Leaf) : m Unit :=
  effectOf (inGenerator (leaf.holds lookup record))

variable (lookup : LookupM m) (record : Value)

/-- Leaves that are asked inside of another generator fail as they do without it. -/
theorem inGenerator_forM_ask [LawfulFailing m] (leaves : List Leaf) :
    inGenerator (forM leaves (Leaf.ask lookup record)) = forM leaves (Leaf.ask lookup record) := by
  apply inGenerator_forM
  intro leaf
  rw [Leaf.ask, ← effectOf_inGenerator, inGenerator_inGenerator]

variable [LawfulMonad m]

theorem forM_leaf [LawfulFailing m] (leaf : Leaf) :
    forM [leaf] (Leaf.ask lookup record) = inGenerator (effectOf (leaf.holds lookup record)) := by
  simp [Leaf.ask, effectOf_inGenerator]

mutual

private theorem Node.effectOf_holds [LawfulMonadLiftT (Except Failure) m] [LawfulFailing m]
    (node : Node) :
    inGenerator (effectOf (node.holds lookup record)) =
      forM node.leaves (Leaf.ask lookup record) := by
  cases node with
  | condition c => rw [Node.holds, Node.leaves, forM_leaf, Leaf.holds]
  | group members =>
      rw [Node.holds, Node.leaves, effectOf_through .start members, inGenerator_forM_ask]
  | foreign v => rw [Node.holds, Node.leaves, forM_leaf, Leaf.holds]

private theorem Predicate.effectOf_result [LawfulMonadLiftT (Except Failure) m] [LawfulFailing m]
    (p : Predicate) :
    effectOf (inGenerator (p.result lookup record)) = forM p.leaves (Leaf.ask lookup record) := by
  rw [effectOf_inGenerator]
  cases p with
  | linked node link =>
      rw [Predicate.result, Predicate.leaves, effectOf_bind_pure, node.effectOf_holds]
  | foreign v =>
      rw [Predicate.result, Predicate.leaves, forM_leaf, Leaf.holds, effectOf_failForeign]

/-- What the fold has taken does not matter to what is asked. -/
theorem effectOf_through [LawfulMonadLiftT (Except Failure) m] [LawfulFailing m]
    (f : Folding) (level : List Predicate) : effectOf (f.through (resultsOf lookup record level)) =
      forM (leavesOf level) (Leaf.ask lookup record) := by
  cases level with
  | nil => simp [resultsOf, Folding.through, leavesOf, effectOf]
  | cons p rest =>
      rw [resultsOf, Folding.through, leavesOf, List.forM_append, effectOf_bind]
      simp only [effectOf_through _ rest]
      rw [bind_eq_effectOf_bind, p.effectOf_result]

end

/-- But for its answer, evaluating a level is asking its leaves one after the other. -/
theorem effectOf_evaluateLevel [LawfulMonadLiftT (Except Failure) m] [LawfulFailing m]
    (level : List Predicate) :
    effectOf (evaluateLevel lookup record level) =
      forM (leavesOf level) (Leaf.ask lookup record) :=
  effectOf_through lookup record .start level

end

section

open Stateful

variable {σ : Type}

/-- The lookup with a list of its calls beside its state. -/
def noting (lookup : LookupM (Stateful σ)) : LookupM (Stateful (σ × List Call)) :=
  fun record path => ExceptT.mk fun (s, calls) =>
    let (found, t) := runFrom (lookup record path) s
    (found, t, calls ++ [(record, path)])

/-- The leaves answer one after the other and bring the lookup from one state into another. -/
inductive Answered (lookup : LookupM (Stateful σ)) (record : Value) : σ → List Leaf → σ → Prop where
  | nil {s} : Answered lookup record s [] s
  | cons {s s' s'' leaf rest b} : (leaf.holds lookup record).runFrom s = (.ok b, s') →
      Answered lookup record s' rest s'' → Answered lookup record s (leaf :: rest) s''

variable {lookup : LookupM (Stateful σ)} {record : Value} {s t : σ}

/-- Keeping the list changes nothing about a leaf's answer. -/
theorem runFrom_holds_noting (leaf : Leaf) (calls : List Call) :
    (leaf.holds (noting lookup) record).runFrom (s, calls) =
      (((leaf.holds lookup record).runFrom s).1, ((leaf.holds lookup record).runFrom s).2,
        calls ++ leaf.calls record) := by
  cases leaf with
  | condition c =>
      have noted : (noting lookup record c.path).runFrom (s, calls) =
        (((lookup record c.path).runFrom s).1, ((lookup record c.path).runFrom s).2,
          calls ++ [(record, c.path)]) := rfl
      rw [Leaf.holds, Leaf.holds, Condition.holds, Condition.holds]
      rcases found : (lookup record c.path).runFrom s with ⟨failure | v, t⟩
      · rw [found] at noted
        rw [runFrom_bind_of_error noted, runFrom_bind_of_error found]
        rfl
      · rw [found] at noted
        rw [runFrom_bind_of_ok noted, runFrom_bind_of_ok found]
        rfl
  | node v =>
      rw [Leaf.calls, List.append_nil]
      rfl
  | predicate v =>
      rw [Leaf.calls, List.append_nil]
      rfl

private theorem ask_noting_of_ok {leaf : Leaf} {b : Bool}
    (h : (leaf.holds lookup record).runFrom s = (.ok b, t))
    (calls : List Call) : (leaf.ask (noting lookup) record).runFrom (s, calls) =
      (.ok (), t, calls ++ leaf.calls record) := by
  apply runFrom_effectOf_of_ok
  rw [runFrom_inGenerator, runFrom_holds_noting, h]
  rfl

private theorem ask_noting_of_error {leaf : Leaf} {raised : Failure}
    (h : (leaf.holds lookup record).runFrom s = (.error raised, t)) (calls : List Call) :
    (leaf.ask (noting lookup) record).runFrom (s, calls) =
      (.error raised.passedOn, t, calls ++ leaf.calls record) := by
  apply runFrom_effectOf_of_error
  rw [runFrom_inGenerator, runFrom_holds_noting, h]
  rfl

/-- Going through leaves that answer makes all their calls. -/
theorem forM_ask_noting_append {leaves : List Leaf} (h : Answered lookup record s leaves t)
    (rest : List Leaf) (calls : List Call) :
    runFrom (forM (leaves ++ rest) (Leaf.ask (noting lookup) record)) (s, calls) =
      runFrom (forM rest (Leaf.ask (noting lookup) record))
        (t, calls ++ leaves.flatMap (Leaf.calls record)) := by
  induction h generalizing calls with
  | nil => simp
  | @cons s s' s'' leaf others b answer _ ih =>
      rw [List.cons_append, List.forM_cons, runFrom_bind_of_ok (ask_noting_of_ok answer calls), ih,
        List.flatMap_cons, List.append_assoc]

theorem forM_ask_noting_of_answered {leaves : List Leaf} (h : Answered lookup record s leaves t) :
    runFrom (forM leaves (Leaf.ask (noting lookup) record)) (s, []) =
      (.ok (), t, leaves.flatMap (Leaf.calls record)) := by
  have whole := forM_ask_noting_append h [] []
  rwa [List.append_nil, List.forM_nil, runFrom_pure] at whole

theorem forM_ask_noting_of_fails {before after : List Leaf} {leaf : Leaf} {reached : σ}
    {raised : Failure} (h : Answered lookup record s before reached)
    (fails : (leaf.holds lookup record).runFrom reached = (.error raised, t)) :
    runFrom (forM (before ++ leaf :: after) (Leaf.ask (noting lookup) record)) (s, []) =
      (.error raised.passedOn, t, (before ++ [leaf]).flatMap (Leaf.calls record)) := by
  rw [forM_ask_noting_append h, List.forM_cons,
    runFrom_bind_of_error (ask_noting_of_error fails _), List.flatMap_append, List.flatMap_singleton]
  rfl

/-- All leaves answer, or one of them fails after those before it have answered. -/
theorem answered_or_fails (lookup : LookupM (Stateful σ)) (record : Value) (s : σ)
    (leaves : List Leaf) :
    (∃ t, Answered lookup record s leaves t) ∨
    ∃ before leaf after reached failure t, leaves = before ++ leaf :: after ∧
      Answered lookup record s before reached ∧
      (leaf.holds lookup record).runFrom reached = (.error failure, t) := by
  induction leaves generalizing s with
  | nil => exact .inl ⟨s, .nil⟩
  | cons leaf rest ih =>
      rcases answer : (leaf.holds lookup record).runFrom s with ⟨failure | b, s'⟩
      · exact .inr ⟨[], leaf, rest, s, failure, s', rfl, .nil, answer⟩
      · rcases ih s' with ⟨t, all⟩ | ⟨before, failed, after, reached, failure, t, rfl, some, fails⟩
        · exact .inl ⟨t, .cons answer all⟩
        · exact .inr ⟨leaf :: before, failed, after, reached, failure, t, rfl, .cons answer some,
            fails⟩

theorem forM_ask_noting_ok_iff {leaves : List Leaf} {calls : List Call} :
    runFrom (forM leaves (Leaf.ask (noting lookup) record)) (s, []) = (.ok (), t, calls) ↔
      Answered lookup record s leaves t ∧ calls = leaves.flatMap (Leaf.calls record) := by
  constructor
  · intro h
    rcases answered_or_fails lookup record s leaves with
      ⟨t', all⟩ | ⟨_, _, _, _, _, _, rfl, some, fails⟩
    · rw [forM_ask_noting_of_answered all] at h
      cases h
      exact ⟨all, rfl⟩
    · rw [forM_ask_noting_of_fails some fails] at h
      cases h
  · rintro ⟨all, rfl⟩
    exact forM_ask_noting_of_answered all

theorem forM_ask_noting_error_iff {leaves : List Leaf} {failure : Failure} {calls : List Call} :
    runFrom (forM leaves (Leaf.ask (noting lookup) record)) (s, []) = (.error failure, t, calls) ↔
      ∃ before leaf after reached raised, leaves = before ++ leaf :: after ∧
        Answered lookup record s before reached ∧
        (leaf.holds lookup record).runFrom reached = (.error raised, t) ∧
        failure = raised.passedOn ∧ calls = (before ++ [leaf]).flatMap (Leaf.calls record) := by
  constructor
  · intro h
    rcases answered_or_fails lookup record s leaves with
      ⟨t', all⟩ | ⟨before, leaf, after, reached, _, _, rfl, some, fails⟩
    · rw [forM_ask_noting_of_answered all] at h
      cases h
    · rw [forM_ask_noting_of_fails some fails] at h
      cases h
      exact ⟨before, leaf, after, reached, _, rfl, some, fails, rfl, rfl⟩
  · rintro ⟨before, leaf, after, reached, raised, rfl, some, fails, rfl, rfl⟩
    exact forM_ask_noting_of_fails some fails

private theorem Failure.passedOn_of_ne_stopped {raised : Failure}
    (h : ∀ kind, raised ≠ .stopped kind) :
    raised.passedOn = raised := by
  cases raised with
  | stopped kind => exact absurd rfl (h kind)
  | _ => rfl

end

/-- A lookup that tells that there is nothing more, at the first thing that it is asked for. -/
def Lookup.exhausted : Lookup := fun _ _ => .error (.stopped "StopIteration")

end RecordFilter
