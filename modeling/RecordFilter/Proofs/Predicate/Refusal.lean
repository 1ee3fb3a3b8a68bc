import RecordFilter.Proofs.Effect
import RecordFilter.Proofs.Grammar.Derivation
import RecordFilter.Proofs.Predicate.Compile

/-! # What compiling refuses

In the stream of a derivation nodes and connectives alternate, at every depth. Compiling such a
stream fails in its casts and nowhere else: the builder takes every node and every connective. So,
but for the level that it gives, compiling is going through the literals.
-/

namespace RecordFilter

mutual

/-- A comparison or a group, whose literals all have the property. -/
inductive StreamItem.IsNode (P : Token → Prop) : StreamItem → Prop where
  | comparison {identifier operator token} : P token →
      StreamItem.IsNode P (.comparison identifier operator token)
  | group {items position} : Alternates P items → StreamItem.IsNode P (.group items position)

/-- Nodes with connectives between them. -/
inductive Alternates (P : Token → Prop) : List StreamItem → Prop where
  | last {item} : item.IsNode P → Alternates P [item]
  | more {item c items} : item.IsNode P → Alternates P items →
      Alternates P (item :: .connective c :: items)

end

theorem Alternates.append {P : Token → Prop} {xs ys : List StreamItem} (hx : Alternates P xs)
    (c : Connective) (hy : Alternates P ys) : Alternates P (xs ++ .connective c :: ys) := by
  match xs with
  | [] => cases hx
  | [x] =>
      cases hx with
      | last node => exact .more node hy
  | x :: y :: xs =>
      cases hx with
      | more node rest => exact .more node (rest.append c hy)

namespace Grammar

variable {P : Token → Prop}

mutual

theorem Expression.alternates (e : Expression)
    (h : ∀ t ∈ e.tokens, t.kind.isLiteral = true → P t) : Alternates P e.stream := by
  cases e with
  | term t => exact t.alternates h
  | or e link t =>
      rw [Expression.tokens, List.forall_mem_append, List.forall_mem_cons] at h
      exact (e.alternates h.1).append .or (t.alternates h.2.2)

private theorem Term.alternates (t : Term) (h : ∀ u ∈ t.tokens, u.kind.isLiteral = true → P u) :
    Alternates P t.stream := by
  cases t with
  | factor f => exact .last (f.isNode h)
  | and t link f =>
      rw [Term.tokens, List.forall_mem_append, List.forall_mem_cons] at h
      exact (t.alternates h.1).append .and (.last (f.isNode h.2.2))

private theorem Factor.isNode (f : Factor) (h : ∀ t ∈ f.tokens, t.kind.isLiteral = true → P t) :
    f.item.IsNode P := by
  cases f with
  | clause c =>
      rw [Factor.tokens, Clause.tokens, List.forall_mem_cons, List.forall_mem_append,
        List.forall_mem_singleton] at h
      exact .comparison (h.2.2 c.is_literal)
  | group opening body closing =>
      rw [Factor.tokens, List.forall_mem_cons, List.forall_mem_append] at h
      exact .group (body.alternates h.2.1)

end

end Grammar

mutual

/-- The literal tokens of an item in text order. -/
def StreamItem.literals : StreamItem → List Token
  | .comparison _ _ literal => [literal]
  | .group items _ => literalsOf items
  | .connective _ => []

def literalsOf : List StreamItem → List Token
  | [] => []
  | item :: rest => item.literals ++ literalsOf rest

end

section

variable {limit : Except Failure Int} {P : Token → Prop}

mutual

private theorem StreamItem.IsNode.literals {item : StreamItem} (h : item.IsNode P) :
    ∀ t ∈ item.literals, P t := by
  cases h with
  | comparison ht =>
      rw [StreamItem.literals, List.forall_mem_singleton]
      exact ht
  | group hi => exact hi.literals

theorem Alternates.literals {items : List StreamItem} (h : Alternates P items) :
    ∀ t ∈ literalsOf items, P t := by
  cases h with
  | last node =>
      rw [literalsOf, List.forall_mem_append]
      exact ⟨node.literals, List.forall_mem_nil _⟩
  | more node rest =>
      rw [literalsOf, List.forall_mem_append]
      exact ⟨node.literals, rest.literals⟩

end

mutual

private theorem StreamItem.IsNode.effectOf_toNode {item : StreamItem} (h : item.IsNode P) :
    effectOf (item.toNode limit) =
      forM item.literals fun t => effectOf (Literal.castToken limit 0 t) := by
  cases h with
  | comparison ht =>
      rw [StreamItem.toNode, effectOf_bind_pure]
      simp [StreamItem.literals]
  | @group items position hi =>
      rw [StreamItem.literals, StreamItem.toNode_group,
        ← hi.effectOf_compileFrom Builder.allLinked_empty]
      -- A level that was built makes up a group, so that only its own literals can fail.
      cases built : compileFrom limit .empty items with
      | error failure => rfl
      | ok level =>
          obtain ⟨run, hr, rfl⟩ := (compileFrom_eq_ok_iff items Builder.allLinked_empty).mp built
          exact congrArg effectOf hr.ofLevel_eq

/-- But for the level that it gives, compiling is casting the literals one after the other. -/
theorem Alternates.effectOf_compileFrom {items : List StreamItem} (h : Alternates P items)
    {b : Builder} (hb : b.AllLinked) : effectOf (compileFrom limit b items) =
      forM (literalsOf items) fun t => effectOf (Literal.castToken limit 0 t) := by
  cases h with
  | last node =>
      rw [compileFrom_singleton hb, effectOf_bind_pure, literalsOf, literalsOf, List.append_nil,
        ← node.effectOf_toNode]
  | @more item c items node rest =>
      rw [compileFrom_connective hb, effectOf_bind, literalsOf, literalsOf, StreamItem.literals,
        List.nil_append, List.forM_append, ← node.effectOf_toNode]
      simp only [rest.effectOf_compileFrom (Builder.allLinked_push hb _ c)]
      rw [← bind_eq_effectOf_bind]

end

/-- A stream in which nodes and connectives alternate is refused for the first of its literals that
    cannot be cast. -/
theorem Alternates.exists_refused {items : List StreamItem} (h : Alternates P items)
    {failure : Failure} (failed : compileStream limit items = .error failure) :
    ∃ before t after, literalsOf items = before ++ t :: after ∧
      (∀ u ∈ before, ∃ l, Literal.castToken limit 0 u = .ok l) ∧ P t ∧
      Literal.castToken limit 0 t = .error failure := by
  have effect : (forM (literalsOf items) fun t => effectOf (Literal.castToken limit 0 t)) =
      .error failure := by
    rw [← h.effectOf_compileFrom Builder.allLinked_empty, effectOf_eq_error_iff]
    exact failed
  obtain ⟨before, t, after, whole, passed, fails⟩ := forM_effectOf_eq_error_iff.mp effect
  refine ⟨before, t, after, whole, passed, ?_, fails⟩
  apply h.literals
  rw [whole]
  exact List.mem_append_right _ List.mem_cons_self

end

end RecordFilter
