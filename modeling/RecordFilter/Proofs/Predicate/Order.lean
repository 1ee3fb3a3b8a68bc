import Mathlib
import RecordFilter.Predicate.Evaluate
import RecordFilter.Proofs.Calendar.Zone
import RecordFilter.Proofs.Numeric.Exact

/-! # Comparisons that agree

Numbers are asked for equality by one question and for order by another; dates and times are asked
only for their order. Either way the six relational comparisons with one literal read one order, if
there is one: so they agree with each other, and with those that other literals of the same class
give.
-/

namespace RecordFilter

namespace Number

/-- The number is none: it stands nowhere on the line. -/
def isNan : Number → Bool
  | float .nan | decimal (.nan ..) => true
  | _ => false

/-- Infinities are ordered against every finite number, and only what is no number is not. -/
theorem isSome_order? (m : Number) (n : FiniteNumber) :
    (m.order? n.number).isSome = !m.isNan := by
  obtain ⟨a, ha, _⟩ := n.exists_magnitude
  rw [order?, ha]
  cases m with
  | int k => rfl
  | fraction r => rfl
  | float x =>
      cases x with
      | finite => rfl
      | nan => rfl
      | infinite negative => cases negative <;> rfl
  | decimal d =>
      cases d with
      | finite => rfl
      | nan _ signaling _ => cases signaling <;> rfl
      | infinite negative => cases negative <;> rfl

/-- The only numbers that refuse to be asked for equality. -/
theorem exists_of_signaling {m : Number} (h : m.magnitude = .signaling) :
    ∃ negative payload, m = .decimal (.nan negative true payload) := by
  cases m with
  | int k => cases h
  | fraction r => cases h
  | float x =>
      cases x with
      | infinite negative => cases negative <;> cases h
      | _ => cases h
  | decimal d =>
      cases d with
      | finite => cases h
      | nan negative signaling payload =>
          cases signaling with
          | true => exact ⟨negative, payload, rfl⟩
          | false => cases h
      | infinite negative => cases negative <;> cases h

end Number

namespace Literal

/-- Numbers, dates and times stand on a line. -/
def isOrdered : Literal → Bool
  | number _ | date _ | misdated .. | datetime _ => true
  | _ => false

/-- The value has a place on the line of the literal. A time has one among other times unless it is
    at the instant of the literal in another zone and one of the two clocks does not show its time
    once. On the line of a date that is a time there is no place at all. -/
inductive Ranks : Literal → Value → Prop where
  | number {n m} : m.isNan = false → Ranks (.number n) (.number m)
  | date {d e} : Ranks (.date d) (.date e)
  | day {d clock zone} : Ranks (.date d) (.datetime clock zone)
  | datetime {z clock zone} : (ZonedDateTime.ofClock clock zone).Comparable z →
      Ranks (.datetime z) (.datetime clock zone)

/-- Two literals of one class, the first of which does not stand after the second. -/
inductive AtMost : Literal → Literal → Prop where
  | number {m n : FiniteNumber} : m.value ≤ n.value → AtMost (.number m) (.number n)
  | date {d e : Date} : d.dayNumber ≤ e.dayNumber → AtMost (.date d) (.date e)
  | datetime {y z : ZonedDateTime} : y.NotAfter z → AtMost (.datetime y) (.datetime z)

private theorem exists_order? {l : Literal} (h : l.isOrdered = true) (v : Value) :
    ∃ found, l.order? v = .ok found ∧ (found.isSome = true ↔ l.Ranks v) := by
  cases l with
  | number n =>
      cases v with
      | number m =>
          refine ⟨m.order? n.number, rfl, ?_⟩
          rw [Number.isSome_order?, Bool.not_eq_true']
          exact ⟨.number, fun ranks => by cases ranks; assumption⟩
      | _ => exact ⟨none, rfl, nofun, nofun⟩
  | date d =>
      cases v with
      | date e => exact ⟨_, rfl, fun _ => .date, fun _ => rfl⟩
      | datetime clock zone => exact ⟨_, rfl, fun _ => .day, fun _ => rfl⟩
      | _ => exact ⟨none, rfl, nofun, nofun⟩
  | misdated clock zone => exact ⟨none, rfl, nofun, nofun⟩
  | datetime z =>
      cases v with
      | datetime clock zone =>
          refine ⟨(ZonedDateTime.ofClock clock zone).order? z, rfl, ?_⟩
          rw [ZonedDateTime.isSome_order?_iff]
          exact ⟨.datetime, fun ranks => by cases ranks; assumption⟩
      | _ => exact ⟨none, rfl, nofun, nofun⟩
  | _ => cases h

/-- Null has no place on any line. -/
theorem order?_null {l : Literal} (h : l.isOrdered = true) : l.order? .null = .ok none := by
  cases l with
  | number | date | misdated | datetime => rfl
  | _ => cases h

private theorem AtMost.isOrdered {a b : Literal} (h : a.AtMost b) :
    a.isOrdered = true ∧ b.isOrdered = true := by
  cases h <;> exact ⟨rfl, rfl⟩

/-- A value after a literal is after all literals before it; a value before a literal is before all
    literals after it. -/
theorem AtMost.order? {a b : Literal} (h : a.AtMost b) (v : Value) :
    (b.order? v = .ok (some .gt) → a.order? v = .ok (some .gt)) ∧
    (a.order? v = .ok (some .lt) → b.order? v = .ok (some .lt)) := by
  cases h with
  | number le =>
      cases v with
      | number m =>
          simp only [Literal.order?, Except.ok.injEq]
          exact FiniteNumber.order?_mono le m
      | _ => exact ⟨id, id⟩
  | date le =>
      cases v with
      | date d =>
          simp only [Literal.order?, Date.order, Except.ok.injEq, Option.some.injEq,
            Nat.compare_eq_gt, Nat.compare_eq_lt]
          omega
      | datetime clock zone =>
          simp only [Literal.order?, Date.order, Except.ok.injEq, Option.some.injEq,
            Nat.compare_eq_gt, Nat.compare_eq_lt]
          omega
      | _ => exact ⟨id, id⟩
  | datetime le =>
      cases v with
      | datetime clock zone =>
          simp only [Literal.order?, Except.ok.injEq]
          exact le.order? _
      | _ => exact ⟨id, id⟩

end Literal

namespace Comparison

/-- The comparisons that ask how a subject stands to a literal. -/
def relational : List Comparison :=
  [equal, notEqual, greater, greaterOrEqual, less, lessOrEqual]

/-- What a relational comparison makes of the order of its sides, if there is one. -/
def accepts : Comparison → Option Ordering → Bool
  | equal, found => found == some .eq
  | notEqual, found => found != some .eq
  | greater, found => found.any (·.isGT)
  | greaterOrEqual, found => found.any (·.isGE)
  | less, found => found.any (·.isLT)
  | lessOrEqual, found => found.any (·.isLE)
  | _, _ => false

variable {v : Value} {l : Literal} {found : Option Ordering}

theorem accepts_equal_iff : equal.accepts found = true ↔ found = some .eq := by
  simp [accepts]

theorem accepts_notEqual_iff : notEqual.accepts found = true ↔ ¬ found = some .eq := by
  simp [accepts]

theorem accepts_less_iff : less.accepts found = true ↔ found = some .lt := by
  rcases found with _ | _ | _ | _ <;> simp [accepts]

theorem accepts_greater_iff : greater.accepts found = true ↔ found = some .gt := by
  rcases found with _ | _ | _ | _ <;> simp [accepts]

theorem accepts_lessOrEqual_iff :
    lessOrEqual.accepts found = true ↔ found = some .lt ∨ found = some .eq := by
  rcases found with _ | _ | _ | _ <;> simp [accepts]

theorem accepts_greaterOrEqual_iff :
    greaterOrEqual.accepts found = true ↔ found = some .gt ∨ found = some .eq := by
  rcases found with _ | _ | _ | _ <;> simp [accepts]

private theorem ordered_eq (ordered : l.isOrdered = true) (h : l.order? v = .ok found)
    (accepts : Ordering → Bool) : Comparison.ordered accepts v l = .ok (found.any accepts) := by
  unfold Comparison.ordered
  split
  · rw [Literal.order?_null ordered] at h
    cases h
    rfl
  · rw [h]
    rfl

private theorem equals_of_isTemporal (temporal : l.isTemporal = true) (ordered : l.isOrdered = true)
    (h : l.order? v = .ok found) : equals v l = .ok (found == some .eq) := by
  unfold equals
  rw [if_pos temporal]
  split
  · rw [Literal.order?_null ordered] at h
    cases h
    rfl
  · rw [h]
    rfl

/-- Equality asks temporal literals for their order, and numbers for whether they match. A number
    that is not signaling matches if the order is that of equals. -/
theorem equals_eq (ordered : l.isOrdered = true) (h : l.order? v = .ok found)
    (quiet : ∀ negative payload, v ≠ .number (.decimal (.nan negative true payload))) :
    equals v l = .ok (found == some .eq) := by
  cases l with
  | number n =>
      cases v with
      | number m =>
          cases h
          apply n.equal_eq
          intro signaling
          obtain ⟨negative, payload, rfl⟩ := Number.exists_of_signaling signaling
          exact quiet negative payload rfl
      | _ =>
          cases h
          rfl
  | date | misdated | datetime => exact equals_of_isTemporal rfl ordered h
  | _ => cases ordered

/-- Every relational comparison reads the order. -/
theorem holds_eq_accepts {op : Comparison} (relational : op ∈ relational)
    (ordered : l.isOrdered = true) (h : l.order? v = .ok found)
    (quiet : ∀ negative payload, v ≠ .number (.decimal (.nan negative true payload))) :
    op.holds v l = .ok (op.accepts found) := by
  cases op with
  | equal => exact equals_eq ordered h quiet
  | notEqual =>
      rw [holds, equals_eq ordered h quiet]
      rfl
  | greater | greaterOrEqual | less | lessOrEqual => exact ordered_eq ordered h _
  | _ => exact absurd relational (by decide)

end Comparison

/-- Six answers that all read one order, which there is if and only if the subject is `ranked`. -/
structure Coherent (ranked : Prop) (answer : Comparison → Except Failure Bool) : Prop where
  answers : ∀ op ∈ Comparison.relational, ∃ b, answer op = .ok b
  less_equal : ¬ (answer .less = .ok true ∧ answer .equal = .ok true)
  equal_greater : ¬ (answer .equal = .ok true ∧ answer .greater = .ok true)
  less_greater : ¬ (answer .less = .ok true ∧ answer .greater = .ok true)
  notEqual : answer .notEqual = .ok true ↔ answer .equal ≠ .ok true
  lessOrEqual : answer .lessOrEqual = .ok true ↔
    answer .less = .ok true ∨ answer .equal = .ok true
  greaterOrEqual : answer .greaterOrEqual = .ok true ↔
    answer .greater = .ok true ∨ answer .equal = .ok true
  some_holds : ranked →
    answer .less = .ok true ∨ answer .equal = .ok true ∨ answer .greater = .ok true
  none_holds : ¬ ranked →
    answer .less ≠ .ok true ∧ answer .equal ≠ .ok true ∧ answer .greater ≠ .ok true

private theorem Coherent.of_order {ranked : Prop} {answer : Comparison → Except Failure Bool}
    {found : Option Ordering} (is_ranked : found.isSome = true ↔ ranked)
    (reads : ∀ op ∈ Comparison.relational, answer op = .ok (op.accepts found)) :
    Coherent ranked answer := by
  have holds_iff {op : Comparison} (h : op ∈ Comparison.relational) :
      answer op = .ok true ↔ op.accepts found = true := by
    rw [reads op h, Except.ok.injEq]
  have less : answer .less = .ok true ↔ found = some .lt := by
    rw [holds_iff (by decide), Comparison.accepts_less_iff]
  have equal : answer .equal = .ok true ↔ found = some .eq := by
    rw [holds_iff (by decide), Comparison.accepts_equal_iff]
  have greater : answer .greater = .ok true ↔ found = some .gt := by
    rw [holds_iff (by decide), Comparison.accepts_greater_iff]
  refine ⟨fun op h => ⟨_, reads op h⟩, ?_, ?_, ?_, ?_, ?_, ?_, ?_, ?_⟩
  · rw [less, equal]
    rintro ⟨rfl, other⟩
    cases other
  · rw [equal, greater]
    rintro ⟨rfl, other⟩
    cases other
  · rw [less, greater]
    rintro ⟨rfl, other⟩
    cases other
  · rw [holds_iff (by decide), Comparison.accepts_notEqual_iff, ne_eq, equal]
  · rw [holds_iff (by decide), Comparison.accepts_lessOrEqual_iff, less, equal]
  · rw [holds_iff (by decide), Comparison.accepts_greaterOrEqual_iff, greater, equal]
  · intro ranked
    rw [less, equal, greater]
    obtain ⟨order, rfl⟩ := Option.isSome_iff_exists.mp (is_ranked.mpr ranked)
    cases order <;> simp
  · intro not_ranked
    have none : found = none := by
      cases found with
      | none => rfl
      | some order => exact absurd (is_ranked.mp rfl) not_ranked
    simp [less, equal, greater, none]

theorem Condition.holds_of_found {lookup : Lookup} {record v : Value} {c : Condition}
    (found : lookup record c.path = .ok v) :
    c.holds lookup record = c.comparison.holds v c.literal := by
  rw [Condition.holds, found]
  rfl

section

variable {lookup : Lookup} {record v : Value} {x : String}

/-- The six comparisons of a subject that is no signaling decimal with a number, a date or a time
    agree: at most one of less, equal and greater holds, and exactly one if the subject has a place
    on the line of the literal. What is greater than a literal is greater than all that are at most
    that one, and what is less than a literal is less than all that it is at most. -/
theorem comparisons_coherent (found : lookup record (Identifier.path x) = .ok v)
    (quiet : ∀ negative payload, v ≠ .number (.decimal (.nan negative true payload))) :
    (∀ l : Literal, l.isOrdered = true →
      Coherent (l.Ranks v) fun op => (Condition.mk x op l).holds lookup record) ∧
    ∀ a b : Literal, a.AtMost b →
      ((Condition.mk x .greater b).holds lookup record = .ok true →
        (Condition.mk x .greater a).holds lookup record = .ok true) ∧
      ((Condition.mk x .less a).holds lookup record = .ok true →
        (Condition.mk x .less b).holds lookup record = .ok true) := by
  have reads {op : Comparison} {l : Literal} {order : Option Ordering}
      (relational : op ∈ Comparison.relational) (ordered : l.isOrdered = true)
      (asked : l.order? v = .ok order) :
      (Condition.mk x op l).holds lookup record = .ok (op.accepts order) :=
    (Condition.holds_of_found found).trans
      (Comparison.holds_eq_accepts relational ordered asked quiet)
  constructor
  · intro l ordered
    obtain ⟨order, asked, ranked⟩ := l.exists_order? ordered v
    exact .of_order ranked fun op relational => reads relational ordered asked
  · intro a b le
    obtain ⟨first, second⟩ := le.isOrdered
    obtain ⟨orderA, askedA, _⟩ := a.exists_order? first v
    obtain ⟨orderB, askedB, _⟩ := b.exists_order? second v
    have mono := le.order? v
    simp only [askedA, askedB, Except.ok.injEq] at mono
    rw [reads (by decide) second askedB, reads (by decide) first askedA,
      reads (by decide) first askedA, reads (by decide) second askedB]
    simp only [Except.ok.injEq, Comparison.accepts_greater_iff, Comparison.accepts_less_iff]
    exact mono

/-- A time in an hour that its clock shows twice has no place among the literals at its own instant,
    and nothing has one on the line of a date that is a time. -/
theorem not_comparisons_coherent :
    [Comparison.less, .lessOrEqual, .equal, .greaterOrEqual, .greater].map (fun op =>
      (Condition.mk "x" op (.datetime
          ⟨⟨⟨2024, 10, 27, by decide⟩, 0, 30, 0, 0, by decide⟩, .utc⟩)).holds Lookup.path
        (.dict [("x", .datetime ZonedDateTime.repeatedHour.clock
          (some ZonedDateTime.repeatedHour.zone))])) = List.replicate 5 (.ok false) ∧
    [Comparison.less, .lessOrEqual, .equal, .greaterOrEqual, .greater].map (fun op =>
      (Condition.mk "x" op (.misdated
          ⟨⟨2024, 1, 1, by decide⟩, 0, 0, 0, 0, by decide⟩ none)).holds Lookup.path
        (.dict [("x", .date ⟨2024, 1, 1, by decide⟩)])) = List.replicate 5 (.ok false) := by
  decide +kernel

/-- A record with a decimal of one and a half. -/
def decimalRecord : Value := .dict [("x", .number (.decimal (.finite false 15 (-1))))]

/-- The decimal is compared with a fraction and with a whole number by its exact value. -/
theorem comparisons_coherent_decimal :
    Lookup.path decimalRecord (Identifier.path "x") =
      .ok (.number (.decimal (.finite false 15 (-1)))) ∧
    Coherent (Literal.Ranks (.number ⟨.fraction (3 / 2), rfl⟩)
        (.number (.decimal (.finite false 15 (-1))))) (fun op =>
      (Condition.mk "x" op (.number ⟨.fraction (3 / 2), rfl⟩)).holds Lookup.path decimalRecord) ∧
    Literal.AtMost (.number ⟨.int 1, rfl⟩) (.number ⟨.fraction (3 / 2), rfl⟩) ∧
    ((Condition.mk "x" .less (.number ⟨.int 1, rfl⟩)).holds Lookup.path decimalRecord = .ok true →
      (Condition.mk "x" .less (.number ⟨.fraction (3 / 2), rfl⟩)).holds Lookup.path decimalRecord =
        .ok true) := by
  have found : Lookup.path decimalRecord (Identifier.path "x") =
      .ok (.number (.decimal (.finite false 15 (-1)))) := by
    cbv
  have le : Literal.AtMost (.number ⟨.int 1, rfl⟩) (.number ⟨.fraction (3 / 2), rfl⟩) :=
    .number (by decide +kernel)
  obtain ⟨coherent, mono⟩ := comparisons_coherent found nofun
  exact ⟨found, coherent _ rfl, le, (mono _ _ le).2⟩

end

end RecordFilter
