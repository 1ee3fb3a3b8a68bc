import RecordFilter.Predicate.Print
import RecordFilter.Predicate.Same
import RecordFilter.Proofs.Numeric.Exact
import RecordFilter.Proofs.Predicate.Spellable
import RecordFilter.Proofs.Predicate.Times

/-! # Trees whose times go by offsets

The text of a tree has the offsets of its times and nothing else of their zones. A tree equals the
one whose times go by these offsets as long as the clock of each shows its time once.
-/

namespace RecordFilter

namespace Literal

mutual

theorem same_atOffsets_iff {l : Literal} (h : l.atOffsets.Spellable) :
    l.atOffsets.same l = true ↔ ∀ z ∈ l.times, z.zone.isSettled = true := by
  cases l with
  | null => exact iff_of_true rfl (List.forall_mem_nil _)
  | bool b => exact iff_of_true (beq_self_eq_true b) (List.forall_mem_nil _)
  | number n =>
      exact iff_of_true (beq_iff_eq.mpr ((n.order?_eq_iff n).mpr rfl)) (List.forall_mem_nil _)
  | text s => exact iff_of_true (beq_self_eq_true s) (List.forall_mem_nil _)
  | date d => exact iff_of_true (beq_self_eq_true d) (List.forall_mem_nil _)
  | datetime z =>
      rw [times, List.forall_mem_singleton, ← ZonedDateTime.sameTime_atOffset_iff]
      exact ZonedDateTime.same_iff.trans ⟨.symm, .symm⟩
  | list items =>
      cases h with
      | list _ each => exact sameLiterals_itemsAtOffsets_iff each
  | misdated clock zone => cases h
  | blank => cases h
  | foreign v => cases h
termination_by structural l

private theorem sameLiterals_itemsAtOffsets_iff {items : List Literal}
    (h : ∀ l ∈ itemsAtOffsets items, l.Spellable) :
    sameLiterals (itemsAtOffsets items) items = true ↔
      ∀ z ∈ itemTimes items, z.zone.isSettled = true := by
  cases items with
  | nil => exact iff_of_true rfl (List.forall_mem_nil _)
  | cons l rest =>
      rw [itemsAtOffsets, List.forall_mem_cons] at h
      rw [itemsAtOffsets, sameLiterals, Bool.and_eq_true, same_atOffsets_iff h.1,
        sameLiterals_itemsAtOffsets_iff h.2, itemTimes, List.forall_mem_append]
termination_by structural items

end

end Literal

def Condition.atOffsets (c : Condition) : Condition := { c with literal := c.literal.atOffsets }

mutual

def Node.atOffsets : Node → Node
  | .condition c => .condition c.atOffsets
  | .group members => .group (levelAtOffsets members)
  | .foreign v => .foreign v

def Predicate.atOffsets : Predicate → Predicate
  | .linked node link => .linked node.atOffsets link
  | .foreign v => .foreign v

/-- The level with each of its times going by the offset that it has now. -/
def levelAtOffsets : List Predicate → List Predicate
  | [] => []
  | p :: rest => p.atOffsets :: levelAtOffsets rest

end

mutual

private theorem Node.atOffsets_eq {node : Node}
    (h : ∀ z ∈ timesOf node.conditions, z.zone.isFixed = true) : node.atOffsets = node := by
  cases node with
  | condition c =>
      simp only [Node.conditions, timesOf, List.flatMap_singleton] at h
      rw [Node.atOffsets, Condition.atOffsets, Literal.atOffsets_eq h]
  | group members => rw [Node.atOffsets, levelAtOffsets_eq h]
  | foreign v => rfl
termination_by structural node

private theorem Predicate.atOffsets_eq {p : Predicate}
    (h : ∀ z ∈ timesOf p.conditions, z.zone.isFixed = true) : p.atOffsets = p := by
  cases p with
  | linked node link => rw [Predicate.atOffsets, Node.atOffsets_eq h]
  | foreign v => rfl
termination_by structural p

theorem levelAtOffsets_eq {level : List Predicate}
    (h : ∀ z ∈ timesOf (conditionsOf level), z.zone.isFixed = true) :
    levelAtOffsets level = level := by
  cases level with
  | nil => rfl
  | cons p rest =>
      rw [conditionsOf, timesOf_append, List.forall_mem_append] at h
      rw [levelAtOffsets, Predicate.atOffsets_eq h.1, levelAtOffsets_eq h.2]
termination_by structural level

end

mutual

private theorem Node.queryText_atOffsets (node : Node) :
    node.atOffsets.queryText = node.queryText := by
  cases node with
  | condition c =>
      rw [Node.atOffsets, Node.queryText, Condition.atOffsets, Literal.queryText_atOffsets,
        Node.queryText]
  | group members =>
      rw [Node.atOffsets, Node.queryText, queryTexts_levelAtOffsets members, Node.queryText]
  | foreign v => rfl
termination_by structural node

private theorem Predicate.queryText_atOffsets (p : Predicate) :
    p.atOffsets.queryText = p.queryText := by
  cases p with
  | linked node link =>
      rw [Predicate.atOffsets, Predicate.queryText, Node.queryText_atOffsets node,
        Predicate.queryText]
  | foreign v => rfl
termination_by structural p

private theorem queryTexts_levelAtOffsets (level : List Predicate) :
    queryTexts (levelAtOffsets level) = queryTexts level := by
  cases level with
  | nil => rfl
  | cons p rest =>
      rw [levelAtOffsets, queryTexts, Predicate.queryText_atOffsets p,
        queryTexts_levelAtOffsets rest, queryTexts]
termination_by structural level

end

theorem serialize_levelAtOffsets (level : List Predicate) :
    serialize (levelAtOffsets level) = serialize level := by
  rw [serialize, queryTexts_levelAtOffsets, serialize]

mutual

theorem Node.same_atOffsets_iff {node : Node} (chained : node.atOffsets.Chained)
    (h : ∀ c ∈ node.atOffsets.conditions, c.Spellable) :
    node.atOffsets.same node = true ↔ ∀ z ∈ timesOf node.conditions, z.zone.isSettled = true := by
  cases node with
  | condition c =>
      have literal := (h _ (List.mem_singleton_self c.atOffsets)).literal
      simp only [Node.atOffsets, Node.same, Condition.same, Condition.atOffsets, beq_self_eq_true,
        Bool.true_and, Node.conditions, timesOf, List.flatMap_singleton]
      exact Literal.same_atOffsets_iff literal
  | group members =>
      cases chained with
      | group within => exact sameLevels_levelAtOffsets_iff within h
  | foreign v => cases chained
termination_by structural node

theorem sameLevels_levelAtOffsets_iff {level : List Predicate}
    (chained : Chained (levelAtOffsets level))
    (h : ∀ c ∈ conditionsOf (levelAtOffsets level), c.Spellable) :
    sameLevels (levelAtOffsets level) level = true ↔
      ∀ z ∈ timesOf (conditionsOf level), z.zone.isSettled = true := by
  cases level with
  | nil => cases chained
  | cons p rest =>
      cases p with
      | foreign v => cases chained
      | linked node link =>
          rw [levelAtOffsets, conditionsOf, List.forall_mem_append] at h
          rw [levelAtOffsets, Predicate.atOffsets] at chained
          rw [levelAtOffsets, Predicate.atOffsets, sameLevels, Predicate.same, beq_self_eq_true,
            Bool.and_true, Bool.and_eq_true, conditionsOf, timesOf_append, List.forall_mem_append,
            Predicate.conditions]
          cases rest with
          | nil =>
              cases chained with
              | last chained =>
                  rw [Node.same_atOffsets_iff chained h.1]
                  exact and_congr_right fun _ => iff_of_true rfl (List.forall_mem_nil _)
              | more _ others => cases others
          | cons q rest =>
              cases chained with
              | more chained others =>
                  rw [Node.same_atOffsets_iff chained h.1,
                    sameLevels_levelAtOffsets_iff others h.2]
termination_by structural level

end

end RecordFilter
