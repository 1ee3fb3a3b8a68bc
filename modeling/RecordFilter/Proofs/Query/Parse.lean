import RecordFilter.Proofs.Grammar.Recognition
import RecordFilter.Proofs.Predicate.Spellable
import RecordFilter.Query.Basic

/-! # What parsing gives

A text parses if it is read as a stream, the stream becomes a level and the level has no defects.
The groups of the level are the parentheses of the derivation and its conditions are the clauses, so
the limit that held for the one holds for the other.
-/

namespace RecordFilter

theorem parseWithin_eq_ok_iff {n : Nat} {text level} :
    parseWithin n text = .ok level ↔ ∃ items, StreamItem.ofText n text = .ok items ∧
      CompiledRun (.ok n) none items level ∧ validate level = .ok () := by
  simp only [parseWithin, bind_eq_ok_iff, pure_eq_ok_iff, compileStream_eq_ok_iff]
  constructor
  · rintro ⟨items, hi, _, hc, ⟨⟩, hv, rfl⟩
    exact ⟨items, hi, hc, hv⟩
  · rintro ⟨items, hi, hc, hv⟩
    exact ⟨items, hi, level, hc, (), hv, rfl⟩

/-- What the clause and the cast tell of a condition. -/
structure Condition.OfClause (limit : Nat) (c : Condition) : Prop where
  names : ∀ piece ∈ Identifier.pieces c.identifier, Identifier.isName piece = true
  literal : c.literal.Spellable
  depth : c.literal.listDepth ≤ limit

structure Node.OfFactor (limit depth : Nat) (node : Node) : Prop where
  depth_eq : node.groupDepth = depth
  conditions : ∀ c ∈ node.conditions, c.OfClause limit

/-- What a derivation with parentheses of this depth tells of its level. -/
structure OfDerivation (limit depth : Nat) (level : List Predicate) : Prop where
  depth_eq : groupDepthOf level = depth
  conditions : ∀ c ∈ conditionsOf level, c.OfClause limit

section

variable {limit : Nat}

private theorem Node.OfFactor.level {depth} {node : Node} (h : node.OfFactor limit depth)
    (link : Option Connective) : OfDerivation limit depth [.linked node link] where
  depth_eq := by
    rw [groupDepthOf, groupDepthOf, Predicate.groupDepth, Nat.max_zero, h.depth_eq]
  conditions := by
    rw [conditionsOf, conditionsOf, Predicate.conditions, List.append_nil]
    exact h.conditions

theorem OfDerivation.append {d₁ d₂} {l₁ l₂ : List Predicate} (h₁ : OfDerivation limit d₁ l₁)
    (h₂ : OfDerivation limit d₂ l₂) : OfDerivation limit (max d₁ d₂) (l₁ ++ l₂) where
  depth_eq := by
    rw [groupDepthOf_append, h₁.depth_eq, h₂.depth_eq]
  conditions := by
    rw [conditionsOf_append, List.forall_mem_append]
    exact ⟨h₁.conditions, h₂.conditions⟩

namespace Grammar

private theorem Clause.ofFactor (c : Clause) {node} (h : CompiledNode (.ok limit) c.item node) :
    node.OfFactor limit 0 := by
  cases h with
  | condition cast =>
      rw [Literal.castToken_eq] at cast
      obtain ⟨spellable, depth⟩ := Literal.spellable_of_castWithin cast
      refine ⟨rfl, ?_⟩
      rw [Node.conditions, List.forall_mem_singleton]
      exact ⟨c.field.names, spellable, depth⟩

mutual

theorem Expression.ofDerivation (e : Expression) {link level}
    (h : CompiledRun (.ok limit) link e.stream level) : OfDerivation limit e.depth level := by
  cases e with
  | term t => exact t.ofDerivation h
  | or e link t =>
      obtain ⟨l₁, l₂, rfl, first, second⟩ := CompiledRun.exists_append h
      exact (e.ofDerivation first).append (t.ofDerivation second)

private theorem Term.ofDerivation (t : Term) {link level}
    (h : CompiledRun (.ok limit) link t.stream level) : OfDerivation limit t.depth level := by
  cases t with
  | factor f =>
      cases h with
      | last hn => exact (f.ofFactor hn).level _
  | and t link f =>
      obtain ⟨l₁, l₂, rfl, first, second⟩ := CompiledRun.exists_append h
      cases second with
      | last hn => exact (t.ofDerivation first).append ((f.ofFactor hn).level _)

private theorem Factor.ofFactor (f : Factor) {node} (h : CompiledNode (.ok limit) f.item node) :
    node.OfFactor limit f.depth := by
  cases f with
  | clause c => exact c.ofFactor h
  | group opening body closing =>
      cases h with
      | group hr =>
          have inside := body.ofDerivation hr
          exact ⟨congrArg (· + 1) inside.depth_eq, inside.conditions⟩

end

end Grammar

end

/-- What is compiled from a query can be spelled unless a path in it is reserved. -/
theorem spellable_of_compiled {limit : Nat} {text items level}
    (stream : StreamItem.ofText limit text = .ok items)
    (run : CompiledRun (.ok limit) none items level)
    (unreserved : ∀ c ∈ conditionsOf level, ¬ Identifier.IsReserved c.identifier) :
    Spellable limit level := by
  obtain ⟨e, position, _, rfl, bound⟩ := Grammar.exists_expression_of_ofText stream
  have derived := e.ofDerivation run
  refine ⟨run.chained, ?_, derived.depth_eq ▸ bound, ?_⟩
  · intro c hc
    have told := derived.conditions c hc
    exact ⟨told.names, unreserved c hc, told.literal⟩
  · exact fun c hc => (derived.conditions c hc).depth

/-- What is read from a query can be spelled. -/
theorem spellable_of_parseWithin {limit text level} (h : parseWithin limit text = .ok level) :
    Spellable limit level := by
  obtain ⟨items, stream, run, valid⟩ := parseWithin_eq_ok_iff.mp h
  refine spellable_of_compiled stream run fun c hc => ?_
  have clean := defects_eq_nil_of_validate valid c hc
  exact (Condition.identifierDefects_eq_nil_iff.mp (List.append_eq_nil_iff.mp clean).1).2

end RecordFilter
