import Mathlib.Data.List.Forall2
import RecordFilter.Proofs.Grammar.Completeness
import RecordFilter.Proofs.Grammar.Soundness
import RecordFilter.Proofs.Token.Scan

/-! # Which texts are queries

A text is a query if it is scanned to its end and its tokens have a derivation whose parentheses are
within the limit. The stream that is read can be written out as tokens again: it keeps everything of
them but the positions of words and marks and the letter case of operators.
-/

namespace RecordFilter

/-- What a stream tells of one token. -/
inductive Symbol where
  /-- A word that names a field. -/
  | field (name : String)
  /-- An operator, a connective or a closing parenthesis. -/
  | mark (kind : TokenKind)
  | opening (position : Option Int)
  | literal (t : Token)

/-- The token is what the symbol tells. -/
def Symbol.Describes : Symbol → Token → Prop
  | field name, t => t.kind = .ofWord name ∧ t.text = some name ∧ t.cast = none
  | mark kind, t => t.kind = kind
  | opening position, t => t.kind = .openParen ∧ position = some t.position
  | literal u, t => t = u

/-- The tokens that spell an operator. -/
def Comparison.kinds : Comparison → List TokenKind
  | equal => [.equal]
  | notEqual => [.notEqual]
  | greater => [.greater]
  | greaterOrEqual => [.greaterOrEqual]
  | less => [.less]
  | lessOrEqual => [.lessOrEqual]
  | memberOf => [.memberOf]
  | contains => [.contains]
  | notContains => [.not, .contains]

/-- The token that spells a connective. -/
def Connective.kind : Connective → TokenKind
  | and => .and
  | or => .or

mutual

/-- The tokens of a stream item. -/
def StreamItem.symbols : StreamItem → List Symbol
  | .comparison identifier operator literal =>
    .field identifier :: (operator.kinds.map .mark ++ [.literal literal])
  | .group items position => .opening position :: (symbolsOf items ++ [.mark .closeParen])
  | .connective c => [.mark c.kind]

/-- The tokens of a stream, in order. -/
def symbolsOf : List StreamItem → List Symbol
  | [] => []
  | item :: rest => item.symbols ++ symbolsOf rest

end

theorem symbolsOf_append (xs ys : List StreamItem) :
    symbolsOf (xs ++ ys) = symbolsOf xs ++ symbolsOf ys := by
  induction xs with
  | nil => rfl
  | cons x xs ih => simp only [List.cons_append, symbolsOf, ih, List.append_assoc]

theorem symbolsOf_singleton (item : StreamItem) : symbolsOf [item] = item.symbols := by
  simp only [symbolsOf, List.append_nil]

namespace Grammar

private theorem OperatorPhrase.describes (o : OperatorPhrase) :
    List.Forall₂ Symbol.Describes (o.comparison.kinds.map .mark) o.tokens := by
  cases o with
  | single t c h =>
      have hk : c.kinds = [t.kind] := by
        revert h
        cases t.kind <;> cases c <;> first | (intro _; rfl) | (intro h; nomatch h)
      rw [comparison, hk]
      exact .cons rfl .nil
  | notContains n t => exact .cons n.2 (.cons t.2 .nil)

private theorem Clause.describes (c : Clause) (word : c.field.token.IsWordToken) :
    List.Forall₂ Symbol.Describes c.item.symbols c.tokens := by
  obtain ⟨chars, _, kind, text, cast⟩ := word
  have name : c.field.name = String.ofList chars := by
    rw [FieldName.name, Token.content, text, Option.getD_some]
  refine .cons ⟨?_, ?_, cast⟩ (List.rel_append c.operator.describes (.cons rfl .nil))
  · rw [name, kind]
  · rw [name, text]

mutual

private theorem Expression.describes (e : Expression)
    (words : ∀ t ∈ e.tokens, t.kind.isWord = true → t.IsWordToken) :
    List.Forall₂ Symbol.Describes (symbolsOf e.stream) e.tokens := by
  cases e with
  | term t => exact Term.describes t words
  | or e link t =>
      rw [Expression.stream, symbolsOf_append]
      simp only [Expression.tokens, List.forall_mem_append, List.forall_mem_cons] at words ⊢
      exact List.rel_append (Expression.describes e words.1)
        (.cons link.2 (Term.describes t words.2.2))

private theorem Term.describes (t : Term)
    (words : ∀ u ∈ t.tokens, u.kind.isWord = true → u.IsWordToken) :
    List.Forall₂ Symbol.Describes (symbolsOf t.stream) t.tokens := by
  cases t with
  | factor f =>
      rw [Term.stream, symbolsOf_singleton]
      exact Factor.describes f words
  | and t link f =>
      rw [Term.stream, symbolsOf_append]
      simp only [Term.tokens, List.forall_mem_append, List.forall_mem_cons] at words ⊢
      refine List.rel_append (Term.describes t words.1) (.cons link.2 ?_)
      rw [symbolsOf_singleton]
      exact Factor.describes f words.2.2

private theorem Factor.describes (f : Factor)
    (words : ∀ t ∈ f.tokens, t.kind.isWord = true → t.IsWordToken) :
    List.Forall₂ Symbol.Describes f.item.symbols f.tokens := by
  cases f with
  | clause c => exact c.describes (words _ List.mem_cons_self c.field.is_word)
  | group opening body closing =>
      simp only [Factor.tokens, List.forall_mem_append, List.forall_mem_cons] at words
      exact .cons ⟨opening.2, rfl⟩
        (List.rel_append (Expression.describes body words.2.1) (.cons closing.2 .nil))

end

theorem exists_expression_of_ofText {limit : Int} {text items}
    (h : StreamItem.ofText limit text = .ok items) :
    ∃ (e : Expression) (position : Int), Scan.ofText 0 text = ⟨e.tokens, .finish position⟩ ∧
      e.stream = items ∧ e.depth ≤ limit.toNat :=
  exists_expression_of_ofScan
    (fun _ ht hk => (Scan.isWordToken_of_mem ht hk).newline_not_mem) h

/-- Reading accepts exactly the grammar, and what it gives can be written out again as the tokens of
    the text. A limit below zero lets no parentheses through, as zero does. -/
theorem ofText_accepts_grammar (limit : Int) (text : String) :
    ((∃ items, StreamItem.ofText limit text = .ok items) ↔
      ∃ (e : Expression) (position : Int),
        Scan.ofText 0 text = ⟨e.tokens, .finish position⟩ ∧ e.depth ≤ limit.toNat) ∧
    ∀ items, StreamItem.ofText limit text = .ok items →
      List.Forall₂ Symbol.Describes (symbolsOf items) (Scan.ofText 0 text).tokens := by
  refine ⟨⟨?_, ?_⟩, ?_⟩
  · rintro ⟨items, h⟩
    obtain ⟨e, position, hs, _, hd⟩ := exists_expression_of_ofText h
    exact ⟨e, position, hs, hd⟩
  · rintro ⟨e, position, hs, hd⟩
    refine ⟨e.stream, ?_⟩
    rw [StreamItem.ofText, hs]
    exact e.ofScan_eq hd position
  · intro items h
    obtain ⟨e, position, hs, rfl, _⟩ := exists_expression_of_ofText h
    have tokens : (Scan.ofText 0 text).tokens = e.tokens := congrArg Scan.tokens hs
    rw [tokens]
    apply e.describes
    intro t ht hk
    exact Scan.isWordToken_of_mem (tokens ▸ ht) hk

end Grammar
end RecordFilter
