import Mathlib
import RecordFilter.Proofs.Predicate.Folding
import RecordFilter.Proofs.Query.Parse

/-! # What a query means

An expression says that one of its terms holds, a term that all of its factors do. The stream of a
derivation keeps no layers and the level that it becomes only keeps links, so the fold has to find
the terms again: from inside a term it adds one result after the other, and at an `or` it starts a
new term.
-/

namespace RecordFilter

section

variable {lookup : Lookup} {record : Value}

/-- The elements of a level all have results, which are these. -/
def Yields (lookup : Lookup) (record : Value) (level : List Predicate)
    (results : List (Option Connective × Bool)) : Prop :=
  gather (resultsOf lookup record level) = .ok results

theorem Yields.append {l₁ l₂ : List Predicate} {r₁ r₂} (h₁ : Yields lookup record l₁ r₁)
    (h₂ : Yields lookup record l₂ r₂) : Yields lookup record (l₁ ++ l₂) (r₁ ++ r₂) := by
  have both : resultsOf lookup record (l₁ ++ l₂) =
      resultsOf lookup record l₁ ++ resultsOf lookup record l₂ := by
    clear h₁ h₂
    induction l₁ with
    | nil => rfl
    | cons p rest ih => rw [List.cons_append, resultsOf, resultsOf, ih, List.cons_append]
  rw [Yields] at h₁ h₂ ⊢
  rw [both, gather_append, h₁, h₂]
  rfl

theorem yields_singleton {node : Node} {link : Option Connective} {b : Bool}
    (h : node.holds lookup record = .ok b) :
    Yields lookup record [.linked node link] [(link, b)] := by
  simp only [Yields, resultsOf, Predicate.result, h]
  rfl

theorem Yields.through_eq {level : List Predicate} {results}
    (h : Yields lookup record level results) :
    Folding.start.through (resultsOf lookup record level) = .ok (foldFrom true false results) := by
  rw [Folding.through_eq, h]
  rfl

end

namespace Grammar

mutual

def Expression.meaning (truth : Clause → Bool) : Expression → Bool
  | .term t => t.meaning truth
  | .or e _ t => e.meaning truth || t.meaning truth

def Term.meaning (truth : Clause → Bool) : Term → Bool
  | .factor f => f.meaning truth
  | .and t _ f => t.meaning truth && f.meaning truth

def Factor.meaning (truth : Clause → Bool) : Factor → Bool
  | .clause c => truth c
  | .group _ body _ => body.meaning truth

end

/-- Whether a clause holds of a record: its literal is cast and compared with the field. -/
def Clause.result (limit : Int) (lookup : Lookup) (record : Value) (c : Clause) :
    Except Failure Bool := do
  let l ← Literal.castToken (.ok limit) 0 c.literal
  Condition.holds lookup record ⟨c.field.name, c.operator.comparison, l⟩

section

variable {limit : Int} {lookup : Lookup} {record : Value} {truth : Clause → Bool}

private theorem Clause.holds_eq {c : Clause} {node} (h : CompiledNode (.ok limit) c.item node)
    (hc : c.result limit lookup record = .ok (truth c)) :
    node.holds lookup record = .ok (truth c) := by
  cases h with
  | condition hl =>
      rw [result, hl, ok_bind] at hc
      simpa only [Node.holds] using hc

mutual

private theorem Expression.fold_eq (e : Expression) {link level}
    (h : CompiledRun (.ok limit) link e.stream level) (hl : link ≠ some .and)
    (leaves : ∀ c ∈ e.clauses, c.result limit lookup record = .ok (truth c)) :
    ∃ results, Yields lookup record level results ∧ ∀ rest,
      foldFrom true false (results ++ rest) =
        (e.meaning truth || foldFrom true false rest) := by
  cases e with
  | term t =>
      obtain ⟨results, hr, hf⟩ := Term.fold_eq t h leaves
      refine ⟨results, hr, fun rest => ?_⟩
      rw [hf, if_neg hl, Bool.true_and, Expression.meaning]
  | or e o t =>
      rw [Expression.clauses, List.forall_mem_append] at leaves
      obtain ⟨l₁, l₂, rfl, first, second⟩ := CompiledRun.exists_append h
      obtain ⟨r₁, h₁, f₁⟩ := Expression.fold_eq e first (by decide) leaves.1
      obtain ⟨r₂, h₂, f₂⟩ := Term.fold_eq t second leaves.2
      refine ⟨r₁ ++ r₂, h₁.append h₂, fun rest => ?_⟩
      rw [List.append_assoc, f₁, f₂, if_neg hl, Bool.true_and, Expression.meaning, Bool.or_assoc]

private theorem Term.fold_eq (t : Term) {link level}
    (h : CompiledRun (.ok limit) link t.stream level)
    (leaves : ∀ c ∈ t.clauses, c.result limit lookup record = .ok (truth c)) :
    ∃ results, Yields lookup record level results ∧ ∀ running pending rest,
      foldFrom running pending (results ++ rest) =
        if link = some .and then foldFrom (running && t.meaning truth) true rest
        else (running && t.meaning truth) || foldFrom true false rest := by
  cases t with
  | factor f =>
      cases h with
      | last hn =>
          have hf := Factor.holds_eq f hn leaves
          exact ⟨_, yields_singleton hf, fun _ _ _ => rfl⟩
  | and t a f =>
      rw [Term.clauses, List.forall_mem_append] at leaves
      obtain ⟨l₁, l₂, rfl, first, second⟩ := CompiledRun.exists_append h
      obtain ⟨r₁, h₁, f₁⟩ := Term.fold_eq t first leaves.1
      cases second with
      | last hn =>
          have hf := Factor.holds_eq f hn leaves.2
          refine ⟨_, h₁.append (yields_singleton hf), fun running pending rest => ?_⟩
          rw [List.append_assoc, f₁, if_pos rfl, Term.meaning, ← Bool.and_assoc]
          rfl

private theorem Factor.holds_eq (f : Factor) {node} (h : CompiledNode (.ok limit) f.item node)
    (leaves : ∀ c ∈ f.clauses, c.result limit lookup record = .ok (truth c)) :
    node.holds lookup record = .ok (f.meaning truth) := by
  cases f with
  | clause c => exact c.holds_eq h (leaves c List.mem_cons_self)
  | group opening body closing =>
      cases h with
      | group hr =>
          obtain ⟨results, hm, hf⟩ := Expression.fold_eq body hr (by decide) leaves
          have whole := hf []
          rw [List.append_nil] at whole
          rw [Node.holds, hm.through_eq, whole, foldFrom, Factor.meaning, Bool.false_and,
            Bool.or_false]

end

/-- A level means what the derivation of its stream does. -/
theorem Expression.evaluateLevel_eq (e : Expression) {level}
    (h : CompiledRun (.ok limit) none e.stream level)
    (leaves : ∀ c ∈ e.clauses, c.result limit lookup record = .ok (truth c)) :
    evaluateLevel lookup record level = .ok (e.meaning truth) := by
  obtain ⟨results, hr, hf⟩ := e.fold_eq h (by decide) leaves
  have whole := hf []
  rw [List.append_nil] at whole
  rw [evaluateLevel, hr.through_eq, whole, foldFrom, Bool.false_and, Bool.or_false]

end

/-- Derivations of one token sequence have one stream. -/
theorem Expression.stream_eq_of_tokens_eq {e d : Expression} (h : e.tokens = d.tokens) :
    e.stream = d.stream := by
  let limit : Int := (max e.depth d.depth : Nat)
  have he : StreamItem.ofScan limit ⟨e.tokens, .finish 0⟩ = .ok e.stream :=
    e.ofScan_eq (by omega) 0
  have hd : StreamItem.ofScan limit ⟨d.tokens, .finish 0⟩ = .ok d.stream :=
    d.ofScan_eq (by omega) 0
  rw [h, hd] at he
  exact (Except.ok.inj he).symm

/-- A query that parses has a derivation, and it matches a record if and only if the derivation says
    so, provided that no clause fails. -/
theorem evaluate_eq_meaning {settings : Settings} {text level}
    (h : parse (.ok settings) text = .ok level) :
    (∃ (e : Expression) (position : Int), Scan.ofText 0 text = ⟨e.tokens, .finish position⟩) ∧
    ∀ e : Expression, e.tokens = (Scan.ofText 0 text).tokens →
      ∀ (lookup : Lookup) (record : Value) (truth : Clause → Bool),
        (∀ c ∈ e.clauses, c.result settings.maxNestingDepth lookup record = .ok (truth c)) →
        (Query.text text).evaluate (.ok settings) lookup record = .ok ⟨e.meaning truth, none⟩ := by
  have hp : parseWithin settings.maxNestingDepth text = .ok level := h
  obtain ⟨items, hi, hc, _⟩ := parseWithin_eq_ok_iff.mp hp
  obtain ⟨d, position, hs, rfl, _⟩ := exists_expression_of_ofText hi
  refine ⟨⟨d, position, hs⟩, ?_⟩
  intro e he lookup record truth leaves
  have same : e.stream = d.stream := by
    apply Expression.stream_eq_of_tokens_eq
    rw [he, hs]
  rw [← same] at hc
  simp only [Query.evaluate, Query.predicates, h, e.evaluateLevel_eq hc leaves]
  rfl

/-- A clause `name == digit` at a position. -/
def Clause.ofDigit (name : String)
    (names : ∀ piece ∈ Identifier.pieces name, Identifier.isName piece = true)
    (digit : String) (position : Int) : Clause where
  field := ⟨⟨.identifier, some name, position, none⟩, rfl, names⟩
  operator := .single ⟨.equal, some "==", position + 2, none⟩ .equal rfl
  literal := ⟨.number, some digit, position + 5, none⟩
  is_literal := rfl

def orOfAnd : Expression :=
  .or (.term (.factor (.clause (.ofDigit "a" (by decide) "1" 0)))) ⟨⟨.or, some "OR", 7, none⟩, rfl⟩
    (.and (.factor (.clause (.ofDigit "b" (by decide) "2" 10))) ⟨⟨.and, some "AND", 17, none⟩, rfl⟩
      (.group ⟨⟨.openParen, some "(", 21, none⟩, rfl⟩
        (.term (.factor (.clause (.ofDigit "c" (by decide) "3" 22))))
        ⟨⟨.closeParen, some ")", 28, none⟩, rfl⟩))

theorem evaluate_or_of_and : ∃ level,
    parse (.ok .standard) "a == 1 OR b == 2 AND (c == 3)" = .ok level ∧
    (Query.text "a == 1 OR b == 2 AND (c == 3)").evaluate (.ok .standard) Lookup.path
      (.dict [("a", .number (.int 1))]) = .ok ⟨true, none⟩ := by
  have h : parse (.ok .standard) "a == 1 OR b == 2 AND (c == 3)" = .ok
      [.linked (.condition ⟨"a", .equal, .number ⟨.int 1, rfl⟩⟩) (some .or),
       .linked (.condition ⟨"b", .equal, .number ⟨.int 2, rfl⟩⟩) (some .and),
       .linked (.group [.linked (.condition ⟨"c", .equal, .number ⟨.int 3, rfl⟩⟩) none]) none] := by
    cbv
  refine ⟨_, h, ?_⟩
  apply (evaluate_eq_meaning h).2 orOfAnd (by cbv) _ _ (fun c => c.field.name == "a")
  intro c hc
  simp only [orOfAnd, Expression.clauses, Term.clauses, Factor.clauses, List.mem_append,
    List.mem_singleton] at hc
  rcases hc with rfl | rfl | rfl <;> cbv

end Grammar
end RecordFilter
