import RecordFilter.Predicate.Evaluate
import RecordFilter.Predicate.Same
import RecordFilter.Proofs.Calendar.Zone
import RecordFilter.Proofs.Numeric.Exact
import RecordFilter.Proofs.Predicate.Times

/-! # Equal trees are interchangeable

Literals that are equal can be of different make: numbers of different kinds, times with different
offsets. What is asked of a literal depends only on what it stands for, so equal literals answer
alike, and so do equal trees. Times at one instant answer alike about times with fixed offsets, and
about the times of a region as long as its clocks tell these apart as the instants do, since times
of one region are compared by their clocks. Times that are in step answer alike about all times. A
value in the place of a node makes the evaluation fail with the name of its type in the failure, and
equal values can be of types with different names.
-/

namespace RecordFilter

namespace Value

variable {v w : Value}

theorem ne_object_of_same (h : v.same w = true) (kind : String)
    (attributes : List (String × Attribute)) :
    v ≠ .object kind attributes ∧ w ≠ .object kind attributes := by
  constructor
  · rintro rfl
    cases h
  · rintro rfl
    cases v <;> cases h

/-- Only objects have methods, and objects equal nothing. -/
theorem callFailure_of_same (h : v.same w = true) (name : String) :
    v.callFailure name = w.callFailure name := by
  have missing {u : Value} (hu : ∀ kind attributes, u ≠ .object kind attributes) :
      u.callFailure name = .missingAttribute := by
    cases u with
    | object kind attributes => exact absurd rfl (hu kind attributes)
    | _ => rfl
  rw [missing fun _ _ => (ne_object_of_same h _ _).1, missing fun _ _ => (ne_object_of_same h _ _).2]

/-- What equals another value has no link, so in the place of a predicate both fail alike. -/
theorem failForeign_of_same {α : Type} (h : v.same w = true) :
    (failForeign v : Except Failure α) = failForeign w := by
  have missing {u : Value} (hu : ∀ kind attributes, u ≠ .object kind attributes) :
      u.readAttribute "forward_operator" = .error .missingAttribute := by
    cases u with
    | object kind attributes => exact absurd rfl (hu kind attributes)
    | number n => cases n <;> rfl
    | literal l => cases l <;> rfl
    | _ => rfl
  rw [failForeign, missing fun _ _ => (ne_object_of_same h _ _).1, failForeign,
    missing fun _ _ => (ne_object_of_same h _ _).2]
  rfl

end Value

namespace Literal

/-- Whatever is asked of the two literals about a value whose times are of a kind, they give the
    same answer. -/
structure Interchangeable (kind : ZonedDateTime → Prop) (l l' : Literal) : Prop where
  isTemporal : l.isTemporal = l'.isTemporal
  matchValue {v : Value} : (∀ x ∈ v.times, kind x) → l.matchValue v = l'.matchValue v
  order? {v : Value} : (∀ x ∈ v.times, kind x) → l.order? v = l'.order? v

variable {kind : ZonedDateTime → Prop}

private theorem interchangeable_refl (l : Literal) : l.Interchangeable kind l :=
  ⟨rfl, fun _ => rfl, fun _ => rfl⟩

private theorem interchangeable_number {n n' : FiniteNumber} (h : n.value = n'.value) :
    (Literal.number n).Interchangeable kind (.number n') where
  isTemporal := rfl
  matchValue {v} _ := by
    cases v with
    | number m => exact FiniteNumber.equal_congr h m
    | _ => rfl
  order? {v} _ := by
    cases v with
    | number m => exact congrArg Except.ok (FiniteNumber.order?_congr h m)
    | _ => rfl

private theorem interchangeable_datetime {z z' : ZonedDateTime} (h : z.StandsLike kind z') :
    (Literal.datetime z).Interchangeable kind (.datetime z') where
  isTemporal := rfl
  matchValue {v} within := by
    cases v with
    | datetime clock zone =>
        simp only [Literal.matchValue, ZonedDateTime.same, h _ (within _ List.mem_cons_self)]
    | _ => rfl
  order? {v} within := by
    cases v with
    | datetime clock zone => simp only [Literal.order?, h _ (within _ List.mem_cons_self)]
    | _ => rfl

private theorem interchangeable_foreign {v w : Value} (h : v.same w = true) :
    (Literal.foreign v).Interchangeable kind (.foreign w) := by
  refine ⟨rfl, ?_, ?_⟩
  · intro u _
    rw [Literal.matchValue, Literal.matchValue, Value.callFailure_of_same h]
  · intro u _
    rw [Literal.order?, Literal.order?, Value.callFailure_of_same h]

private theorem interchangeable_list {items items' : List Literal}
    (length : items.length = items'.length)
    (each : ∀ values, (∀ x ∈ Value.itemTimes values, kind x) →
      matchValues items values = matchValues items' values) :
    (list items).Interchangeable kind (list items') where
  isTemporal := rfl
  matchValue {v} within := by
    rw [Literal.matchValue, Literal.matchValue, length]
    cases found : v.items? with
    | none => rfl
    | some values =>
        rw [Value.times_of_items? found] at within
        simp only [each values within]
  order? _ := rfl

mutual

private theorem interchangeable_of_same {l l' : Literal} (h : l.same l' = true)
    (times : List.Forall₂ (ZonedDateTime.StandsLike kind) l.times l'.times) :
    l.Interchangeable kind l' := by
  cases l with
  | null => cases l' <;> first | exact interchangeable_refl _ | cases h
  | blank => cases l' <;> first | exact interchangeable_refl _ | cases h
  | bool b =>
      cases l' with
      | bool c =>
          rw [eq_of_beq h]
          exact interchangeable_refl _
      | _ => cases h
  | text s =>
      cases l' with
      | text t =>
          rw [eq_of_beq h]
          exact interchangeable_refl _
      | _ => cases h
  | date d =>
      cases l' with
      | date e =>
          rw [eq_of_beq h]
          exact interchangeable_refl _
      | _ => cases h
  | number n =>
      cases l' with
      | number n' => exact interchangeable_number ((n.order?_eq_iff n').mp (eq_of_beq h))
      | _ => cases h
  | misdated clock zone =>
      cases l' <;> first | exact ⟨rfl, fun _ => rfl, fun _ => rfl⟩ | cases h
  | datetime z =>
      cases l' with
      | datetime z' =>
          cases times with
          | cons alike => exact interchangeable_datetime alike
      | _ => cases h
  | list items =>
      cases l' with
      | list items' =>
          obtain ⟨length, each, _⟩ := matchValues_of_sameLiterals h times
          exact interchangeable_list length each
      | _ => cases h
  | foreign v =>
      cases l' with
      | foreign w => exact interchangeable_foreign h
      | _ => cases h
termination_by structural l

/-- Equal items are matched alike, as the items of a list and as what a value can be one of. -/
theorem matchValues_of_sameLiterals {items items' : List Literal}
    (h : sameLiterals items items' = true)
    (times : List.Forall₂ (ZonedDateTime.StandsLike kind) (itemTimes items) (itemTimes items')) :
    items.length = items'.length ∧
      (∀ values, (∀ x ∈ Value.itemTimes values, kind x) →
        matchValues items values = matchValues items' values) ∧
      ∀ v : Value, (∀ x ∈ v.times, kind x) → matchAny items v = matchAny items' v := by
  cases items with
  | nil =>
      rw [sameLiterals, List.isEmpty_iff] at h
      rw [h]
      exact ⟨rfl, fun _ _ => rfl, fun _ _ => rfl⟩
  | cons l rest =>
      cases items' with
      | nil => cases h
      | cons l' rest' =>
          rw [sameLiterals, Bool.and_eq_true] at h
          obtain ⟨front, behind⟩ := forall₂_split times (sameTimes_of_same h.1)
          have first := interchangeable_of_same h.1 front
          obtain ⟨length, each, any⟩ := matchValues_of_sameLiterals h.2 behind
          refine ⟨congrArg (· + 1) length, ?_, ?_⟩
          · intro values within
            cases values with
            | nil => rfl
            | cons v values =>
                rw [Value.itemTimes, List.forall_mem_append] at within
                simp only [matchValues, first.matchValue within.1, each values within.2]
          · intro v within
            simp only [matchAny, first.matchValue within, any v within]
termination_by structural items

end

end Literal

namespace Comparison

variable {kind : ZonedDateTime → Prop} {l l' : Literal} {subject : Value}

private theorem equals_of_interchangeable (h : l.Interchangeable kind l')
    (within : ∀ x ∈ subject.times, kind x) : equals subject l = equals subject l' := by
  simp only [equals, h.isTemporal, h.matchValue within, h.order? within]

private theorem ordered_of_interchangeable (h : l.Interchangeable kind l')
    (accepts : Ordering → Bool) (within : ∀ x ∈ subject.times, kind x) :
    ordered accepts subject l = ordered accepts subject l' := by
  simp only [ordered, h.order? within]

private theorem anyMatch_of_interchangeable (h : l.Interchangeable kind l') {values : List Value}
    (within : ∀ x ∈ Value.itemTimes values, kind x) : anyMatch l values = anyMatch l' values := by
  induction values with
  | nil => rfl
  | cons v rest ih =>
      rw [Value.itemTimes, List.forall_mem_append] at within
      simp only [anyMatch, h.matchValue within.1, ih within.2]

/-- A comparison of a subject with equal literals has the same answer, if to its times the times of
    the one stand like those of the other. -/
theorem holds_of_same (h : l.same l' = true)
    (times : List.Forall₂ (ZonedDateTime.StandsLike kind) l.times l'.times) (op : Comparison)
    (within : ∀ x ∈ subject.times, kind x) : op.holds subject l = op.holds subject l' := by
  have alike := Literal.interchangeable_of_same h times
  have list {items : List Value} (found : subject.items? = some items) :
      anyMatch l items = anyMatch l' items := by
    rw [Value.times_of_items? found] at within
    exact anyMatch_of_interchangeable alike within
  cases op with
  | equal => exact equals_of_interchangeable alike within
  | notEqual => simp only [holds, equals_of_interchangeable alike within]
  | greater => exact ordered_of_interchangeable alike _ within
  | greaterOrEqual => exact ordered_of_interchangeable alike _ within
  | less => exact ordered_of_interchangeable alike _ within
  | lessOrEqual => exact ordered_of_interchangeable alike _ within
  | contains =>
      rw [holds, holds]
      cases found : subject.items? with
      | none => rfl
      | some items => exact list found
  | notContains =>
      rw [holds, holds]
      cases found : subject.items? with
      | none => rfl
      | some items => simp only [list found]
  | memberOf =>
      cases l with
      | list items =>
          cases l' with
          | list items' =>
              exact (Literal.matchValues_of_sameLiterals h times).2.2 subject within
          | _ => cases h
      | _ =>
          cases l' with
          | list items' => cases h
          | _ => rfl

/-- A comparison with equal literals whose times are in step has the same answer, whatever the
    subject is. -/
theorem holds_of_inStep (h : l.same l' = true)
    (times : List.Forall₂ ZonedDateTime.InStep l.times l'.times) (op : Comparison)
    (subject : Value) : op.holds subject l = op.holds subject l' :=
  op.holds_of_same h (times.imp fun _ _ step => step.standsLike) fun _ _ => trivial

end Comparison

mutual

/-- The values that stand in the place of a node, in text order. -/
def Node.strangers : Node → List Value
  | .condition _ => []
  | .group members => strangersOf members
  | .foreign v => [v]

def Predicate.strangers : Predicate → List Value
  | .linked node _ => node.strangers
  | .foreign _ => []

def strangersOf : List Predicate → List Value
  | [] => []
  | p :: rest => p.strangers ++ strangersOf rest

end

section

variable {m : Type → Type} [Monad m] [MonadExceptOf Failure m]

/-- A relation between computations that holds of each and itself, and that sequencing and
    generators keep. -/
structure Likeness (R : (α : Type) → m α → m α → Prop) : Prop where
  refl {α : Type} (x : m α) : R α x x
  bind {α β : Type} {x y : m α} {f g : α → m β} :
    R α x y → (∀ a, R β (f a) (g a)) → R β (x >>= f) (y >>= g)
  inGenerator {α : Type} {x y : m α} : R α x y → R α (inGenerator x) (inGenerator y)

variable {R : (α : Type) → m α → m α → Prop}

theorem Likeness.through (likeness : Likeness R) {xs ys : List (m (Option Connective × Bool))}
    (h : List.Forall₂ (R _) xs ys) (f : Folding) : R _ (f.through xs) (f.through ys) := by
  induction h generalizing f with
  | nil => exact likeness.refl _
  | cons first _ ih => exact likeness.bind first fun _ => ih _

variable [MonadLiftT (Except Failure) m] {lookup : LookupM m} {record : Value}

/-- Of these values in the place of a node, each fails like any value that it equals. -/
def FailAlike (R : (α : Type) → m α → m α → Prop) (strangers : List Value) : Prop :=
  ∀ v ∈ strangers, ∀ w : Value, v.same w = true →
    R Bool (liftM (failUnknown v : Except Failure Bool))
      (liftM (failUnknown w : Except Failure Bool))

private theorem Condition.of_same {c d : Condition} (h : c.same d = true) :
    c.path = d.path ∧ c.comparison = d.comparison ∧ c.literal.same d.literal = true := by
  simp only [Condition.same, Bool.and_eq_true, beq_iff_eq] at h
  obtain ⟨⟨identifier, comparison⟩, literals⟩ := h
  exact ⟨congrArg Identifier.path identifier, comparison, literals⟩

/-- Equal conditions whose times are related one by one do alike. -/
def ConditionsAlike (R : (α : Type) → m α → m α → Prop)
    (r : ZonedDateTime → ZonedDateTime → Prop) (lookup : LookupM m) (record : Value) : Prop :=
  ∀ {c d : Condition}, c.same d = true → List.Forall₂ r c.literal.times d.literal.times →
    R Bool (c.holds lookup record) (d.holds lookup record)

variable {r : ZonedDateTime → ZonedDateTime → Prop}

mutual

private theorem Likeness.node (likeness : Likeness R)
    (conditions : ConditionsAlike R r lookup record) {node node' : Node}
    (h : node.same node' = true)
    (times : List.Forall₂ r (timesOf node.conditions) (timesOf node'.conditions))
    (unknown : FailAlike R node.strangers) :
    R _ (node.holds lookup record) (node'.holds lookup record) := by
  cases node with
  | condition c =>
      cases node' with
      | condition d =>
          rw [Node.holds, Node.holds]
          simp only [Node.conditions, timesOf, List.flatMap_singleton] at times
          exact conditions h times
      | _ => cases h
  | group members =>
      cases node' with
      | group members' =>
          rw [Node.holds, Node.holds]
          exact likeness.through (likeness.results conditions h times unknown) _
      | _ => cases h
  | foreign v =>
      cases node' with
      | foreign w =>
          rw [Node.holds, Node.holds]
          exact unknown v (List.mem_singleton_self v) w h
      | _ => cases h
termination_by structural node

private theorem Likeness.predicate (likeness : Likeness R)
    (conditions : ConditionsAlike R r lookup record) {p q : Predicate} (h : p.same q = true)
    (times : List.Forall₂ r (timesOf p.conditions) (timesOf q.conditions))
    (unknown : FailAlike R p.strangers) : R _ (p.result lookup record) (q.result lookup record) := by
  cases p with
  | linked node link =>
      cases q with
      | linked node' link' =>
          rw [Predicate.same, Bool.and_eq_true, beq_iff_eq] at h
          rw [Predicate.result, Predicate.result, h.2]
          exact likeness.bind (likeness.node conditions h.1 times unknown) fun _ => likeness.refl _
      | _ => cases h
  | foreign v =>
      cases q with
      | foreign w =>
          rw [Predicate.result, Predicate.result, Value.failForeign_of_same h]
          exact likeness.refl _
      | _ => cases h
termination_by structural p

private theorem Likeness.results (likeness : Likeness R)
    (conditions : ConditionsAlike R r lookup record) {ps qs : List Predicate}
    (h : sameLevels ps qs = true)
    (times : List.Forall₂ r (timesOf (conditionsOf ps)) (timesOf (conditionsOf qs)))
    (unknown : FailAlike R (strangersOf ps)) :
    List.Forall₂ (R _) (resultsOf lookup record ps) (resultsOf lookup record qs) := by
  cases ps with
  | nil =>
      rw [sameLevels, List.isEmpty_iff] at h
      rw [h]
      exact .nil
  | cons p ps =>
      cases qs with
      | nil => cases h
      | cons q qs =>
          rw [sameLevels, Bool.and_eq_true] at h
          rw [FailAlike, strangersOf, List.forall_mem_append] at unknown
          rw [conditionsOf, conditionsOf, timesOf_append, timesOf_append] at times
          rw [resultsOf, resultsOf]
          obtain ⟨front, behind⟩ := forall₂_split times (Predicate.sameTimes_of_same h.1)
          exact .cons (likeness.inGenerator (likeness.predicate conditions h.1 front unknown.1))
            (likeness.results conditions h.2 behind unknown.2)
termination_by structural ps

end

end

/-- Failures of one kind: equal ones, or two that each tell of a node that is none. -/
inductive Failure.OfOneKind : Failure → Failure → Prop where
  | refl (failure : Failure) : OfOneKind failure failure
  | unknownNode (first second : String) : OfOneKind (unknownNode first) (unknownNode second)

private theorem Failure.OfOneKind.passedOn {failure other : Failure} (h : failure.OfOneKind other) :
    failure.passedOn.OfOneKind other.passedOn := by
  cases h with
  | refl => exact .refl _
  | unknownNode first second => exact .unknownNode first second

/-- The same result, or failures of one kind. -/
inductive SameOutcome {α : Type} : Except Failure α → Except Failure α → Prop where
  | ok (a : α) : SameOutcome (.ok a) (.ok a)
  | error {failure other : Failure} :
      failure.OfOneKind other → SameOutcome (.error failure) (.error other)

private theorem likeness_sameOutcome : Likeness @SameOutcome where
  refl x := by
    cases x with
    | ok a => exact .ok a
    | error failure => exact .error (.refl failure)
  bind hx hf := by
    cases hx with
    | ok a => exact hf a
    | error kinds => exact .error kinds
  inGenerator hx := by
    cases hx with
    | ok a => exact .ok a
    | error kinds => exact .error kinds.passedOn

private theorem likeness_eq {m : Type → Type} [Monad m] [MonadExceptOf Failure m] :
    Likeness fun α (x y : m α) => x = y where
  refl _ := rfl
  bind hx hf := by rw [hx, funext hf]
  inGenerator hx := by rw [hx]

/-- Conditions need equal literals whose times stand alike to those of what is found. -/
private theorem conditionsAlike_of_found {lookup : Lookup} {record : Value}
    {kind : ZonedDateTime → Prop}
    (found : ∀ path v, lookup record path = .ok v → ∀ x ∈ v.times, kind x) :
    ConditionsAlike @SameOutcome (ZonedDateTime.StandsLike kind) lookup record := by
  intro c d h times
  obtain ⟨path, comparison, literals⟩ := Condition.of_same h
  rw [Condition.holds, Condition.holds, path, comparison]
  cases answer : lookup record d.path with
  | error failure => exact .error (.refl failure)
  | ok v =>
      have same := d.comparison.holds_of_same literals times (found _ v answer)
      change SameOutcome (d.comparison.holds v c.literal) (d.comparison.holds v d.literal)
      rw [same]
      exact likeness_sameOutcome.refl _

private theorem conditionsAlike_of_inStep {m : Type → Type} [Monad m] [MonadExceptOf Failure m]
    [MonadLiftT (Except Failure) m] {R : (α : Type) → m α → m α → Prop} (likeness : Likeness R)
    (lookup : LookupM m) (record : Value) :
    ConditionsAlike R ZonedDateTime.InStep lookup record := by
  intro c d h times
  obtain ⟨path, comparison, literals⟩ := Condition.of_same h
  simp only [Condition.holds, path, comparison, Comparison.holds_of_inStep literals times]
  exact likeness.refl _

private theorem failAlike_sameOutcome (strangers : List Value) :
    FailAlike @SameOutcome strangers :=
  fun v _ w _ => .error (.unknownNode v.typeName w.typeName)

theorem isCalendarDay_newYear : IsCalendarDay 2024 1 1 := by decide

/-- The start of a year by one clock, next to a number. -/
def newYear (n : FiniteNumber) : Literal :=
  .list [.number n, .datetime ⟨⟨⟨2024, 1, 1, isCalendarDay_newYear⟩, 0, 0, 0, 0, by decide⟩,
    .fixed .oneHour⟩]

/-- The same instant by a clock that is an hour behind. -/
def yearEnd (n : FiniteNumber) : Literal :=
  .list [.number n, .datetime ⟨⟨⟨2023, 12, 31, by decide⟩, 23, 0, 0, 0, by decide⟩, .utc⟩]

/-- Whether the field is after this time. -/
def levelAfter (z : ZonedDateTime) : List Predicate :=
  [.linked (.condition ⟨"x", .greater, .datetime z⟩) none]

/-- Finds a time of the region's autumn at every path. -/
def Lookup.autumn : Lookup :=
  .constant (.datetime ZonedDateTime.repeatedHour.clock ZonedDateTime.repeatedHour.zone)

end RecordFilter
