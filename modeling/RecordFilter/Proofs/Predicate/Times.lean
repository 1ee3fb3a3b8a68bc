import RecordFilter.Predicate.Same
import RecordFilter.Proofs.Calendar.Zone
import RecordFilter.Proofs.Literal.Times

/-! # The times in a tree

Equal trees have equal times in the same places. Equal times with fixed offsets are in step, and so
no other time tells such trees apart.
-/

namespace RecordFilter

/-- The times in the literals of conditions. -/
def timesOf (conditions : List Condition) : List ZonedDateTime :=
  conditions.flatMap fun c => c.literal.times

theorem timesOf_append (cs ds : List Condition) : timesOf (cs ++ ds) = timesOf cs ++ timesOf ds :=
  List.flatMap_append

section

variable {ys zs : List ZonedDateTime}

theorem forall₂_inStep_of_isFixed (same : List.Forall₂ ZonedDateTime.SameTime ys zs)
    (hy : ∀ y ∈ ys, y.zone.isFixed = true) (hz : ∀ z ∈ zs, z.zone.isFixed = true) :
    List.Forall₂ ZonedDateTime.InStep ys zs := by
  induction same with
  | nil => exact .nil
  | cons first _ ih =>
      rw [List.forall_mem_cons] at hy hz
      exact .cons (ZonedDateTime.inStep_of_isFixed hy.1 hz.1 first) (ih hy.2 hz.2)

/-- Times at one instant stand alike to all that is in tune with them. -/
theorem forall₂_standsLike {kind : ZonedDateTime → Prop}
    (instants : List.Forall₂ ZonedDateTime.AtOneInstant ys zs)
    (tune : ∀ x, kind x → ∀ z ∈ ys ++ zs, x.InTune z) :
    List.Forall₂ (ZonedDateTime.StandsLike kind) ys zs := by
  simp only [List.forall_mem_append, forall_and] at tune
  obtain ⟨hy, hz⟩ := tune
  induction instants with
  | nil => exact .nil
  | cons first _ ih =>
      simp only [List.forall_mem_cons] at hy hz
      exact .cons (fun x within => first.order?_eq (hy x within).1 (hz x within).1)
        (ih (fun x within => (hy x within).2) fun x within => (hz x within).2)

/-- How times are related one by one, they are in both parts, if the front parts are equal. -/
theorem forall₂_split {r : ZonedDateTime → ZonedDateTime → Prop} {ys' zs' : List ZonedDateTime}
    (h : List.Forall₂ r (ys ++ ys') (zs ++ zs'))
    (front : List.Forall₂ ZonedDateTime.SameTime ys zs) :
    List.Forall₂ r ys zs ∧ List.Forall₂ r ys' zs' := by
  induction front with
  | nil => exact ⟨.nil, h⟩
  | cons _ _ ih =>
      cases h with
      | cons first rest =>
          obtain ⟨left, right⟩ := ih rest
          exact ⟨.cons first left, right⟩

end

namespace Value

mutual

/-- The times in a value and in the items of lists and tuples, at every depth. -/
def times : Value → List ZonedDateTime
  | datetime clock zone => [.ofClock clock zone]
  | list items | tuple items => itemTimes items
  | _ => []

def itemTimes : List Value → List ZonedDateTime
  | [] => []
  | v :: rest => v.times ++ itemTimes rest

end

theorem times_of_items? {v : Value} {items : List Value} (h : v.items? = some items) :
    v.times = itemTimes items := by
  cases v with
  | list | tuple =>
      cases h
      rw [times]
  | _ => cases h

end Value

namespace Literal

mutual

theorem sameTimes_of_same {l l' : Literal} (h : l.same l' = true) :
    List.Forall₂ ZonedDateTime.SameTime l.times l'.times := by
  cases l with
  | datetime z =>
      cases l' with
      | datetime z' => exact .cons (ZonedDateTime.same_iff.mp h) .nil
      | _ => cases h
  | list items =>
      cases l' with
      | list items' => exact sameTimes_of_sameLiterals h
      | _ => cases h
  | _ => cases l' <;> first | exact .nil | cases h
termination_by structural l

private theorem sameTimes_of_sameLiterals {items items' : List Literal}
    (h : sameLiterals items items' = true) :
    List.Forall₂ ZonedDateTime.SameTime (itemTimes items) (itemTimes items') := by
  cases items with
  | nil =>
      rw [sameLiterals, List.isEmpty_iff] at h
      rw [h]
      exact .nil
  | cons l rest =>
      cases items' with
      | nil => cases h
      | cons l' rest' =>
          rw [sameLiterals, Bool.and_eq_true] at h
          exact List.rel_append (sameTimes_of_same h.1) (sameTimes_of_sameLiterals h.2)
termination_by structural items

end

end Literal

private theorem Condition.sameTimes_of_same {c d : Condition} (h : c.same d = true) :
    List.Forall₂ ZonedDateTime.SameTime c.literal.times d.literal.times := by
  simp only [Condition.same, Bool.and_eq_true] at h
  exact Literal.sameTimes_of_same h.2

mutual

private theorem Node.sameTimes_of_same {node node' : Node} (h : node.same node' = true) :
    List.Forall₂ ZonedDateTime.SameTime (timesOf node.conditions) (timesOf node'.conditions) := by
  cases node with
  | condition c =>
      cases node' with
      | condition d =>
          simp only [Node.conditions, timesOf, List.flatMap_singleton]
          exact Condition.sameTimes_of_same h
      | _ => cases h
  | group members =>
      cases node' with
      | group members' => exact sameTimes_of_sameLevels h
      | _ => cases h
  | foreign v =>
      cases node' with
      | foreign w => exact .nil
      | _ => cases h
termination_by structural node

theorem Predicate.sameTimes_of_same {p q : Predicate} (h : p.same q = true) :
    List.Forall₂ ZonedDateTime.SameTime (timesOf p.conditions) (timesOf q.conditions) := by
  cases p with
  | linked node link =>
      cases q with
      | linked node' link' =>
          rw [Predicate.same, Bool.and_eq_true] at h
          exact Node.sameTimes_of_same h.1
      | _ => cases h
  | foreign v =>
      cases q with
      | foreign w => exact .nil
      | _ => cases h
termination_by structural p

/-- The times of equal trees are equal one by one, in text order. -/
theorem sameTimes_of_sameLevels {ps qs : List Predicate} (h : sameLevels ps qs = true) :
    List.Forall₂ ZonedDateTime.SameTime (timesOf (conditionsOf ps)) (timesOf (conditionsOf qs)) := by
  cases ps with
  | nil =>
      rw [sameLevels, List.isEmpty_iff] at h
      rw [h]
      exact .nil
  | cons p ps =>
      cases qs with
      | nil => cases h
      | cons q qs =>
          rw [sameLevels, Bool.and_eq_true] at h
          rw [conditionsOf, conditionsOf, timesOf_append, timesOf_append]
          exact List.rel_append (Predicate.sameTimes_of_same h.1) (sameTimes_of_sameLevels h.2)
termination_by structural ps

end

end RecordFilter
