import RecordFilter.Proofs.Identifier
import RecordFilter.Proofs.Literal.Genuine
import RecordFilter.Proofs.Predicate.Compile

/-! # Levels that a query can spell

A level can be spelled if it is chained at every depth, its identifiers are dotted names without a
reserved suffix, its literals can be spelled, and nothing in it is nested deeper than the limit.
Such a level has no defects; and a level that was compiled from a query and has no defects is of
this kind.
-/

namespace RecordFilter

mutual

/-- How deep groups are nested in a node. -/
def Node.groupDepth : Node → Nat
  | .group members => groupDepthOf members + 1
  | _ => 0

def Predicate.groupDepth : Predicate → Nat
  | .linked node _ => node.groupDepth
  | .foreign _ => 0

def groupDepthOf : List Predicate → Nat
  | [] => 0
  | p :: rest => max p.groupDepth (groupDepthOf rest)

end

mutual

inductive Node.Chained : Node → Prop where
  | condition (c : Condition) : Node.Chained (.condition c)
  | group {members} : Chained members → Node.Chained (.group members)

/-- Every predicate but the last is linked to the next one, at every depth. -/
inductive Chained : List Predicate → Prop where
  | last {node} : node.Chained → Chained [.linked node none]
  | more {node c rest} : node.Chained → Chained rest → Chained (.linked node (some c) :: rest)

end

structure Condition.Spellable (c : Condition) : Prop where
  names : ∀ piece ∈ Identifier.pieces c.identifier, Identifier.isName piece = true
  unreserved : ¬ Identifier.IsReserved c.identifier
  literal : c.literal.Spellable

/-- A query can spell the level when groups and lists may be nested `limit` deep. -/
structure Spellable (limit : Nat) (level : List Predicate) : Prop where
  chained : Chained level
  conditions : ∀ c ∈ conditionsOf level, c.Spellable
  groups : groupDepthOf level ≤ limit
  lists : ∀ c ∈ conditionsOf level, c.literal.listDepth ≤ limit

theorem Chained.ne_nil {level} (h : Chained level) : level ≠ [] := by
  cases h <;> exact List.cons_ne_nil _ _

theorem conditionsOf_append (l₁ l₂ : List Predicate) :
    conditionsOf (l₁ ++ l₂) = conditionsOf l₁ ++ conditionsOf l₂ := by
  induction l₁ with
  | nil => rfl
  | cons p rest ih => simp only [List.cons_append, conditionsOf, ih, List.append_assoc]

theorem groupDepthOf_append (l₁ l₂ : List Predicate) :
    groupDepthOf (l₁ ++ l₂) = max (groupDepthOf l₁) (groupDepthOf l₂) := by
  induction l₁ with
  | nil => simp [groupDepthOf]
  | cons p rest ih => simp only [List.cons_append, groupDepthOf, ih, Nat.max_assoc]

namespace Condition

theorem identifierDefects_eq_nil_iff {identifier : String} :
    identifierDefects identifier = [] ↔
      Identifier.fault? identifier = none ∧ ¬ Identifier.IsReserved identifier := by
  rw [← Identifier.reservedSuffix?_eq_none_iff, identifierDefects]
  cases Identifier.fault? identifier with
  | some fault => simp
  | none =>
      cases Identifier.reservedSuffix? identifier with
      | some suffix => simp
      | none => simp

private theorem Spellable.defects_eq {c : Condition} (h : c.Spellable) : c.defects = [] := by
  have identifier : identifierDefects c.identifier = [] :=
    identifierDefects_eq_nil_iff.mpr ⟨Identifier.fault?_eq_none_of_names h.names, h.unreserved⟩
  rw [defects, identifier, h.literal.genuine.defects_eq]
  rfl

end Condition

theorem Chained.checkChain_eq {level} (h : Chained level) :
    Predicate.checkChain level = .ok () := by
  induction level with
  | nil => cases h
  | cons p rest ih =>
      cases h with
      | last hn => exact Predicate.checkChain_last _
      | more hn hr => rw [Predicate.checkChain_cons _ _ hr.ne_nil, ih hr]

theorem Chained.chainDefects_eq {level} (h : Chained level) : chainDefects level = .ok [] := by
  rw [chainDefects, h.checkChain_eq]

mutual

private theorem Node.Chained.defects_eq {node : Node} (h : node.Chained) :
    node.defects = .ok (node.conditions.flatMap Condition.defects) := by
  cases h with
  | condition c => rw [Node.defects, Node.conditions, List.flatMap_singleton]
  | group hm =>
      rw [Node.defects, hm.chainDefects_eq, ok_bind, hm.memberDefects_eq]
      rfl

private theorem Chained.memberDefects_eq {level} (h : Chained level) :
    memberDefects level = .ok ((conditionsOf level).flatMap Condition.defects) := by
  cases h with
  | last hn =>
      rw [memberDefects, Predicate.defects, hn.defects_eq, conditionsOf, List.flatMap_append]
      rfl
  | more hn hr =>
      rw [memberDefects, Predicate.defects, hn.defects_eq, ok_bind, hr.memberDefects_eq,
        conditionsOf, List.flatMap_append]
      rfl

end

/-- A chained level has no defects but those of its conditions. -/
theorem Chained.levelDefects_eq {level} (h : Chained level) :
    levelDefects level = .ok ((conditionsOf level).flatMap Condition.defects) := by
  rw [levelDefects, h.chainDefects_eq, ok_bind, h.memberDefects_eq]
  rfl

theorem Spellable.validate_eq {limit level} (h : Spellable limit level) :
    validate level = .ok () := by
  have clean : (conditionsOf level).flatMap Condition.defects = [] :=
    List.flatMap_eq_nil_iff.mpr fun c hc => (h.conditions c hc).defects_eq
  rw [validate, h.chained.levelDefects_eq, clean]
  rfl

theorem append_defects_eq_ok_nil {x y : Except Failure (List Defect)}
    (h : (do return (← x) ++ (← y)) = Except.ok ([] : List Defect)) : x = .ok [] ∧ y = .ok [] := by
  obtain ⟨xs, hx, hr⟩ := bind_eq_ok_iff.mp h
  obtain ⟨ys, hy, he⟩ := bind_eq_ok_iff.mp hr
  obtain ⟨rfl, rfl⟩ := List.append_eq_nil_iff.mp (pure_eq_ok_iff.mp he)
  exact ⟨hx, hy⟩

mutual

private theorem Node.conditions_clean {node : Node} (h : node.defects = .ok []) :
    ∀ c ∈ node.conditions, c.defects = [] := by
  cases node with
  | condition c =>
      rw [Node.conditions, List.forall_mem_singleton]
      exact Except.ok.inj h
  | group members =>
      rw [Node.conditions]
      rw [Node.defects] at h
      exact conditionsOf_clean (append_defects_eq_ok_nil h).2
  | foreign v => exact List.forall_mem_nil _

private theorem Predicate.conditions_clean {p : Predicate} (h : p.defects = .ok []) :
    ∀ c ∈ p.conditions, c.defects = [] := by
  cases p with
  | linked node link =>
      rw [Predicate.conditions]
      rw [Predicate.defects] at h
      exact Node.conditions_clean h
  | foreign v => exact List.forall_mem_nil _

theorem conditionsOf_clean {level : List Predicate} (h : memberDefects level = .ok []) :
    ∀ c ∈ conditionsOf level, c.defects = [] := by
  cases level with
  | nil => exact List.forall_mem_nil _
  | cons p rest =>
      rw [memberDefects] at h
      obtain ⟨hp, hr⟩ := append_defects_eq_ok_nil h
      rw [conditionsOf, List.forall_mem_append]
      exact ⟨Predicate.conditions_clean hp, conditionsOf_clean hr⟩

end

theorem levelDefects_of_validate {level} (h : validate level = .ok ()) :
    levelDefects level = .ok [] := by
  obtain ⟨found, hf, hr⟩ := bind_eq_ok_iff.mp h
  cases found with
  | nil => exact hf
  | cons d more => cases hr

/-- In a level that was let pass no condition has a defect. -/
theorem defects_eq_nil_of_validate {level} (h : validate level = .ok ()) :
    ∀ c ∈ conditionsOf level, c.defects = [] :=
  conditionsOf_clean (append_defects_eq_ok_nil (levelDefects_of_validate h)).2

mutual

private theorem CompiledNode.chained {limit item node} (h : CompiledNode limit item node) :
    node.Chained := by
  cases h with
  | condition => exact .condition _
  | group hr => exact .group hr.chained

theorem CompiledRun.chained {limit items level} (h : CompiledRun limit none items level) :
    Chained level := by
  cases h with
  | last hn => exact .last hn.chained
  | more hn hr => exact .more hn.chained hr.chained

end

end RecordFilter
