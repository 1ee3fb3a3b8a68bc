import Mathlib
import RecordFilter.Proofs.Query.Parse
import RecordFilter.Proofs.Record.Quiet

/-! # Evaluation answers

A level that was read from a query can be asked of any record. Every comparison answers, whatever
stands at its path; a value of the wrong kind is only an answer of no. There is one exception: a
signaling decimal may not be compared for equality, and refuses. Comparisons that ask for an order
do not reach that refusal.
-/

namespace RecordFilter

/-- There is a result, or the operation was refused for a signaling decimal, which only happens if
    `quiet` does not hold. -/
def Answers {α : Type} (quiet : Prop) : Except Failure α → Prop
  | .ok _ => True
  | .error failure => failure = .signalingNaN ∧ ¬quiet

namespace Answers

variable {α β : Type} {p q : Prop} {x : Except Failure α}

theorem ok (a : α) : Answers q (.ok a : Except Failure α) := trivial

theorem mono (h : Answers p x) (hqp : q → p) : Answers q x := by
  cases x with
  | ok a => exact trivial
  | error failure => exact ⟨h.1, fun hq => h.2 (hqp hq)⟩

theorem bind (h : Answers q x) {f : α → Except Failure β} (hf : ∀ a, Answers q (f a)) :
    Answers q (x >>= f) := by
  cases x with
  | ok a => exact hf a
  | error failure => exact h

/-- A refusal leaves a generator as it is. -/
theorem inGenerator (h : Answers q x) : Answers q (inGenerator x) := by
  cases x with
  | ok a => exact trivial
  | error failure =>
      obtain ⟨rfl, unquiet⟩ := h
      exact ⟨rfl, unquiet⟩

theorem exists_ok (h : Answers q x) (hq : q) : ∃ a, x = .ok a := by
  cases x with
  | ok a => exact ⟨a, rfl⟩
  | error failure => exact absurd hq h.2

private theorem error (h : Answers q x) {failure : Failure} (hx : x = .error failure) :
    failure = .signalingNaN ∧ ¬q := by
  subst hx
  exact h

end Answers

namespace Literal

theorem quiet_of_items? {v : Value} {values : List Value} (hv : v.items? = some values)
    (h : v.Quiet) : ∀ w ∈ values, w.Quiet := by
  cases h with
  | list items each => cases hv; exact each
  | tuple items each => cases hv; exact each
  | _ => cases hv

private theorem answers_equal (n : FiniteNumber) (m : Number) :
    Answers (Value.number m).Quiet (m.equal n.number) := by
  unfold Number.equal
  split
  · next signaling =>
      refine ⟨rfl, ?_⟩
      rintro ⟨⟩
      rcases signaling with hm | hn
      · contradiction
      · exact n.magnitude_ne_signaling hn
  · exact trivial

private theorem answers_matchValues {items : List Literal}
    (each : ∀ l ∈ items, ∀ v : Value, Answers v.Quiet (l.matchValue v)) (values : List Value) :
    Answers (∀ v ∈ values, v.Quiet) (matchValues items values) := by
  induction items generalizing values with
  | nil => exact .ok true
  | cons l rest ih =>
      rw [List.forall_mem_cons] at each
      cases values with
      | nil => exact .ok true
      | cons v more =>
          rw [matchValues]
          apply ((each.1 v).mono fun h => h v List.mem_cons_self).bind
          rintro (_ | _)
          · exact .ok false
          · exact (ih each.2 more).mono fun h => (List.forall_mem_cons.mp h).2

/-- A literal without foreign items can be matched with anything. -/
theorem Genuine.answers_matchValue {l : Literal} (h : l.Genuine) (v : Value) :
    Answers v.Quiet (l.matchValue v) := by
  induction h generalizing v with
  | list items each ih =>
      rw [matchValue]
      split
      · next values hv =>
          split
          · exact (answers_matchValues ih values).mono fun quiet => quiet_of_items? hv quiet
          · exact .ok false
      · exact .ok false
  | number n =>
      cases v with
      | number m => exact answers_equal n m
      | _ => exact .ok false
  | _ => exact .ok _

theorem answers_matchAny {items : List Literal} (each : ∀ l ∈ items, l.Genuine) (v : Value) :
    Answers v.Quiet (matchAny items v) := by
  induction items with
  | nil => exact .ok false
  | cons l rest ih =>
      rw [List.forall_mem_cons] at each
      apply (each.1.answers_matchValue v).bind
      rintro (_ | _)
      · exact ih each.2
      · exact .ok true

theorem Genuine.exists_order? {l : Literal} (h : l.Genuine) (v : Value) :
    ∃ found, l.order? v = .ok found := by
  cases h <;> exact ⟨_, rfl⟩

end Literal

namespace Comparison

/-- Whether a comparison asks for an order. -/
def isOrdering : Comparison → Bool
  | greater | greaterOrEqual | less | lessOrEqual => true
  | _ => false

variable {l : Literal}

private theorem answers_ordered (h : l.Genuine) (accepts : Ordering → Bool) (v : Value) :
    Answers True (ordered accepts v l) := by
  unfold ordered
  split
  · exact .ok false
  · obtain ⟨found, ho⟩ := h.exists_order? v
    rw [ho]
    exact .ok _

private theorem answers_equals (h : l.Genuine) (v : Value) : Answers v.Quiet (equals v l) := by
  unfold equals
  split
  · split
    · exact .ok false
    · obtain ⟨found, ho⟩ := h.exists_order? v
      rw [ho]
      exact .ok _
  · exact h.answers_matchValue v

theorem answers_anyMatch (h : l.Genuine) (values : List Value) :
    Answers (∀ v ∈ values, v.Quiet) (anyMatch l values) := by
  induction values with
  | nil => exact .ok false
  | cons v rest ih =>
      apply ((h.answers_matchValue v).mono fun quiet => quiet v List.mem_cons_self).bind
      rintro (_ | _)
      · exact ih.mono fun quiet => (List.forall_mem_cons.mp quiet).2
      · exact .ok true

private theorem answers_holds (op : Comparison) (h : l.Genuine) (v : Value) :
    Answers (op.isOrdering = true ∨ v.Quiet) (op.holds v l) := by
  cases op with
  | equal => exact (answers_equals h v).mono (by simp [isOrdering])
  | notEqual => exact ((answers_equals h v).bind fun _ => .ok _).mono (by simp [isOrdering])
  | greater => exact (answers_ordered h _ v).mono fun _ => trivial
  | greaterOrEqual => exact (answers_ordered h _ v).mono fun _ => trivial
  | less => exact (answers_ordered h _ v).mono fun _ => trivial
  | lessOrEqual => exact (answers_ordered h _ v).mono fun _ => trivial
  | memberOf =>
      cases h with
      | list items each => exact (Literal.answers_matchAny each v).mono (by simp [isOrdering])
      | _ => exact .ok false
  | contains =>
      rw [holds]
      split
      · next values hv =>
          apply (answers_anyMatch h values).mono
          simp only [isOrdering, Bool.false_eq_true, false_or]
          exact Literal.quiet_of_items? hv
      · exact .ok false
  | notContains =>
      rw [holds]
      split
      · next values hv =>
          apply ((answers_anyMatch h values).bind fun _ => .ok _).mono
          simp only [isOrdering, Bool.false_eq_true, false_or]
          exact Literal.quiet_of_items? hv
      · exact .ok false

end Comparison

namespace Literal

/-- The value is of a kind that can equal the literal. A date can equal a time of its day. -/
def suits : Literal → Value → Bool
  | null, .null | bool _, .bool _ | number _, .number _ | text _, .text _ => true
  | date _, .date _ | date _, .datetime .. | datetime _, .datetime .. => true
  | list _, .list _ | list _, .tuple _ => true
  | _, _ => false

/-- The value is of a kind that is ordered against the literal. -/
def orders : Literal → Value → Bool
  | number _, .number _ => true
  | date _, .date _ | date _, .datetime .. | datetime _, .datetime .. => true
  | _, _ => false

variable {l : Literal} {v : Value}

theorem Spellable.matchValue_of_not_suits (h : l.Spellable) (hs : l.suits v = false) :
    l.matchValue v = .ok false := by
  cases h <;> cases v <;> first | rfl | cases hs

private theorem Spellable.order?_of_not_suits (h : l.Spellable) (temporal : l.isTemporal = true)
    (hs : l.suits v = false) : l.order? v = .ok none := by
  cases h with
  | date d => cases v <;> first | rfl | cases hs
  | datetime z minutes => cases v <;> first | rfl | cases hs
  | _ => cases temporal

private theorem Spellable.order?_of_not_orders (h : l.Spellable) (ho : l.orders v = false) :
    l.order? v = .ok none := by
  cases h <;> cases v <;> first | rfl | cases ho

private theorem matchAny_of_not_suits {items : List Literal} (each : ∀ l ∈ items, l.Spellable)
    (hs : items.any (·.suits v) = false) : matchAny items v = .ok false := by
  induction items with
  | nil => rfl
  | cons l rest ih =>
      rw [List.forall_mem_cons] at each
      rw [List.any_cons, Bool.or_eq_false_iff] at hs
      rw [matchAny, each.1.matchValue_of_not_suits hs.1, ok_bind]
      exact ih each.2 hs.2

end Literal

namespace Comparison

/-- A value is of a kind that this comparison with the literal is about: one that can be equal, one
    that is ordered, one of the items' kinds, or a list that can hold the literal. -/
def fits (op : Comparison) (v : Value) (l : Literal) : Bool :=
  match op with
  | equal | notEqual => l.suits v
  | greater | greaterOrEqual | less | lessOrEqual => l.orders v
  | memberOf =>
    match l with
    | .list items => items.any (·.suits v)
    | _ => false
  | contains | notContains => v.items?.isSome

variable {l : Literal} {v : Value}

private theorem ordered_of_not_orders (h : l.Spellable) (ho : l.orders v = false)
    (accepts : Ordering → Bool) : ordered accepts v l = .ok false := by
  unfold ordered
  split
  · rfl
  · rw [h.order?_of_not_orders ho]
    rfl

private theorem equals_of_not_suits (h : l.Spellable) (hs : l.suits v = false) :
    equals v l = .ok false := by
  unfold equals
  split
  · next temporal =>
      split
      · rfl
      · rw [h.order?_of_not_suits temporal hs]
        rfl
  · exact h.matchValue_of_not_suits hs

/-- What does not fit does not hold, and is only unequal. -/
theorem holds_of_not_fits (op : Comparison) (h : l.Spellable) (hf : op.fits v l = false) :
    op.holds v l = .ok (op == .notEqual) := by
  cases op with
  | equal => exact equals_of_not_suits h hf
  | notEqual =>
      rw [holds, equals_of_not_suits h hf]
      rfl
  | greater => exact ordered_of_not_orders h hf _
  | greaterOrEqual => exact ordered_of_not_orders h hf _
  | less => exact ordered_of_not_orders h hf _
  | lessOrEqual => exact ordered_of_not_orders h hf _
  | memberOf =>
      cases h with
      | list items each => exact Literal.matchAny_of_not_suits each hf
      | _ => rfl
  | contains =>
      rw [fits, Option.isSome_eq_false_iff, Option.isNone_iff_eq_none] at hf
      rw [holds, hf]
      rfl
  | notContains =>
      rw [fits, Option.isSome_eq_false_iff, Option.isNone_iff_eq_none] at hf
      rw [holds, hf]
      rfl

end Comparison

/-- The condition asks for an order, or there is no signaling decimal at its path. -/
def Condition.Unrefused (record : Value) (c : Condition) : Prop :=
  c.comparison.isOrdering = true ∨ (record.resolve c.path).Quiet

section

variable {record : Value}

theorem Condition.holds_path (c : Condition) : c.holds Lookup.path record =
    c.comparison.holds (record.resolve c.path) c.literal := rfl

private theorem Predicate.answers_result {q : Prop} {node : Node}
    (h : Answers q (node.holds Lookup.path record)) (link : Option Connective) :
    Answers q (inGenerator (Predicate.result Lookup.path record (.linked node link))) := by
  rw [Predicate.result]
  exact (h.bind fun _ => .ok _).inGenerator

mutual

private theorem Node.Chained.answers {node : Node} (h : node.Chained)
    (literals : ∀ c ∈ node.conditions, c.literal.Spellable) :
    Answers (∀ c ∈ node.conditions, c.Unrefused record) (node.holds Lookup.path record) := by
  cases h with
  | condition c =>
      rw [Node.conditions, List.forall_mem_singleton] at literals ⊢
      rw [Node.holds, c.holds_path]
      exact Comparison.answers_holds _ literals.genuine _
  | group hm =>
      rw [Node.holds]
      exact hm.answers literals _

private theorem Chained.answers {level : List Predicate} (h : Chained level)
    (literals : ∀ c ∈ conditionsOf level, c.literal.Spellable) :
    ∀ f : Folding, Answers (∀ c ∈ conditionsOf level, c.Unrefused record)
      (f.through (resultsOf Lookup.path record level)) := by
  intro f
  cases h with
  | last hn =>
      rw [conditionsOf, List.forall_mem_append] at literals ⊢
      have first := Predicate.answers_result (hn.answers literals.1) none
      rw [resultsOf, Folding.through]
      exact (first.bind fun _ => .ok _).mono And.left
  | @more _ c _ hn hr =>
      rw [conditionsOf, List.forall_mem_append] at literals ⊢
      have first := Predicate.answers_result (hn.answers literals.1) (some c)
      rw [resultsOf, Folding.through]
      exact (first.mono And.left).bind fun _ => (hr.answers literals.2 _).mono And.right

end

/-- A level that was read from a query answers about any record, except that equality with a
    signaling decimal refuses; and a value of the wrong kind makes a comparison false, or true if it
    asks for inequality. -/
theorem evaluateLevel_of_parseWithin {limit : Nat} {text : String} {level : List Predicate}
    (h : parseWithin limit text = .ok level) (record : Value) :
    (record.Quiet → ∃ b, evaluateLevel Lookup.path record level = .ok b) ∧
    (∀ failure, evaluateLevel Lookup.path record level = .error failure →
      failure = .signalingNaN ∧ ∃ c ∈ conditionsOf level, ¬c.Unrefused record) ∧
    ∀ c ∈ conditionsOf level, c.comparison.fits (record.resolve c.path) c.literal = false →
      c.holds Lookup.path record = .ok (c.comparison == .notEqual) := by
  have spellable := spellable_of_parseWithin h
  have literals : ∀ c ∈ conditionsOf level, c.literal.Spellable :=
    fun c hc => (spellable.conditions c hc).literal
  have answers : Answers (∀ c ∈ conditionsOf level, c.Unrefused record)
      (evaluateLevel Lookup.path record level) := spellable.chained.answers literals _
  refine ⟨?_, ?_, ?_⟩
  · intro quiet
    exact answers.exists_ok fun c _ => .inr (quiet.resolve c.path)
  · intro failure hf
    obtain ⟨kind, met⟩ := answers.error hf
    exact ⟨kind, by simpa using met⟩
  · intro c hc hf
    rw [c.holds_path]
    exact c.comparison.holds_of_not_fits (literals c hc) hf

end

/-- A record with a text where a number is asked for, and a truth value in a list of pairs. -/
def misfits : Value := .dict [("x", .text "1"), ("y", .tuple [.tuple [.text "z", .bool true]])]

theorem evaluateLevel_misfits : ∃ level, parseWithin 64 "x != 1 AND y.z < 2" = .ok level ∧
    misfits.Quiet ∧ (∃ b, evaluateLevel Lookup.path misfits level = .ok b) ∧
    Condition.holds Lookup.path misfits ⟨"x", .notEqual, .number ⟨.int 1, rfl⟩⟩ = .ok true := by
  have h : parseWithin 64 "x != 1 AND y.z < 2" = .ok
      [.linked (.condition ⟨"x", .notEqual, .number ⟨.int 1, rfl⟩⟩) (some .and),
       .linked (.condition ⟨"y.z", .less, .number ⟨.int 2, rfl⟩⟩) none] := by
    cbv
  have pair : Value.Quiet (.tuple [.text "z", .bool true]) := by
    refine .tuple _ ?_
    rw [List.forall_mem_cons, List.forall_mem_singleton]
    exact ⟨.text _, .bool _⟩
  have quiet : misfits.Quiet := by
    refine .dict _ ?_
    rw [List.forall_mem_cons, List.forall_mem_singleton]
    exact ⟨.text _, .tuple _ (List.forall_mem_singleton.mpr pair)⟩
  obtain ⟨answer, _, unequal⟩ := evaluateLevel_of_parseWithin h misfits
  exact ⟨_, h, quiet, answer quiet, unequal _ (.head _) (by decide)⟩

/-- Equality with a signaling decimal has no answer. -/
theorem evaluateLevel_signaling : ∃ level, parseWithin 64 "x == 1" = .ok level ∧
    evaluateLevel Lookup.path (.dict [("x", .number (.decimal (.nan false true 0)))]) level =
      .error .signalingNaN := by
  refine ⟨[.linked (.condition ⟨"x", .equal, .number ⟨.int 1, rfl⟩⟩) none], ?_, ?_⟩
  · cbv
  · cbv

end RecordFilter
