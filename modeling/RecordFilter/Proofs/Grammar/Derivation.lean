import RecordFilter.Identifier
import RecordFilter.Stream.Basic

/-! # Derivations of the query grammar

An expression is terms joined by `or`, a term is factors joined by `and`, and a factor is a clause
or an expression in parentheses. A derivation keeps the tokens that it is made of, so its leaves
read from left to right are a token sequence. The stream of a derivation forgets the layers: it is
what reading those tokens has to give.
-/

namespace RecordFilter.Grammar

/-- A token of one kind. -/
abbrev TokenOf (kind : TokenKind) := { t : Token // t.kind = kind }

/-- A word that names a field: an identifier or a keyword with names between its dots. -/
structure FieldName where
  token : Token
  is_word : token.kind.isWord = true
  names : ∀ piece ∈ Identifier.pieces token.content, Identifier.isName piece = true

/-- The operator of a clause: one token, or `not` with `contains` after it. -/
inductive OperatorPhrase where
  | single (token : Token) (comparison : Comparison)
      (spells : token.kind.comparison? = some comparison)
  | notContains (negation : TokenOf .not) (token : TokenOf .contains)

/-- A field name, an operator and a literal. -/
structure Clause where
  field : FieldName
  operator : OperatorPhrase
  literal : Token
  is_literal : literal.kind.isLiteral = true

mutual

inductive Expression where
  | term (t : Term)
  | or (e : Expression) (link : TokenOf .or) (t : Term)

inductive Term where
  | factor (f : Factor)
  | and (t : Term) (link : TokenOf .and) (f : Factor)

inductive Factor where
  | clause (c : Clause)
  | group (opening : TokenOf .openParen) (body : Expression) (closing : TokenOf .closeParen)

end

namespace FieldName

def name (f : FieldName) : String := f.token.content

end FieldName

namespace OperatorPhrase

def comparison : OperatorPhrase → Comparison
  | single _ c _ => c
  | notContains .. => .notContains

def tokens : OperatorPhrase → List Token
  | single t .. => [t]
  | notContains n t => [n.1, t.1]

end OperatorPhrase

namespace Clause

def tokens (c : Clause) : List Token := c.field.token :: (c.operator.tokens ++ [c.literal])

def item (c : Clause) : StreamItem := .comparison c.field.name c.operator.comparison c.literal

end Clause

mutual

def Expression.tokens : Expression → List Token
  | .term t => t.tokens
  | .or e link t => e.tokens ++ link.1 :: t.tokens

def Term.tokens : Term → List Token
  | .factor f => f.tokens
  | .and t link f => t.tokens ++ link.1 :: f.tokens

def Factor.tokens : Factor → List Token
  | .clause c => c.tokens
  | .group opening body closing => opening.1 :: (body.tokens ++ [closing.1])

end

mutual

def Expression.stream : Expression → List StreamItem
  | .term t => t.stream
  | .or e _ t => e.stream ++ .connective .or :: t.stream

def Term.stream : Term → List StreamItem
  | .factor f => [f.item]
  | .and t _ f => t.stream ++ [.connective .and, f.item]

def Factor.item : Factor → StreamItem
  | .clause c => c.item
  | .group opening body _ => .group body.stream (some opening.1.position)

end

mutual

/-- How deep the parentheses of a derivation are nested. -/
def Expression.depth : Expression → Nat
  | .term t => t.depth
  | .or e _ t => max e.depth t.depth

def Term.depth : Term → Nat
  | .factor f => f.depth
  | .and t _ f => max t.depth f.depth

def Factor.depth : Factor → Nat
  | .clause _ => 0
  | .group _ body _ => body.depth + 1

end

mutual

/-- The clauses of a derivation in text order. -/
def Expression.clauses : Expression → List Clause
  | .term t => t.clauses
  | .or e _ t => e.clauses ++ t.clauses

def Term.clauses : Term → List Clause
  | .factor f => f.clauses
  | .and t _ f => t.clauses ++ f.clauses

def Factor.clauses : Factor → List Clause
  | .clause c => [c]
  | .group _ body _ => body.clauses

end

private theorem eq_and_of_connective? {kind : TokenKind} (h : kind.connective? = some .and) :
    kind = .and := by
  cases kind <;> first | rfl | nomatch h

private theorem eq_or_of_connective? {kind : TokenKind} (h : kind.connective? = some .or) :
    kind = .or := by
  cases kind <;> first | rfl | nomatch h

/-- Joins a factor to the end of an expression. An `and` binds it to the last term. -/
def Expression.link (e : Expression) (t : Token) :
    (c : Connective) → t.kind.connective? = some c → Factor → Expression
  | .or, h, f => .or e ⟨t, eq_or_of_connective? h⟩ (.factor f)
  | .and, h, f =>
    match e with
    | .term u => .term (.and u ⟨t, eq_and_of_connective? h⟩ f)
    | .or e' o u => .or e' o (.and u ⟨t, eq_and_of_connective? h⟩ f)

section Link

variable (e : Expression) (t : Token) {c : Connective} (h : t.kind.connective? = some c) (f : Factor)

theorem Expression.tokens_link : (e.link t c h f).tokens = e.tokens ++ t :: f.tokens := by
  cases c with
  | or => simp only [Expression.link, Expression.tokens, Term.tokens]
  | and =>
      cases e with
      | term u => simp only [Expression.link, Expression.tokens, Term.tokens]
      | or e' o u =>
          simp only [Expression.link, Expression.tokens, Term.tokens, List.append_assoc,
            List.cons_append]

theorem Expression.stream_link :
    (e.link t c h f).stream = e.stream ++ [.connective c, f.item] := by
  cases c with
  | or => simp only [Expression.link, Expression.stream, Term.stream]
  | and =>
      cases e with
      | term u => simp only [Expression.link, Expression.stream, Term.stream]
      | or e' o u =>
          simp only [Expression.link, Expression.stream, Term.stream, List.append_assoc,
            List.cons_append]

theorem Expression.depth_link : (e.link t c h f).depth = max e.depth f.depth := by
  cases c with
  | or => simp only [Expression.link, Expression.depth, Term.depth]
  | and =>
      cases e with
      | term u => simp only [Expression.link, Expression.depth, Term.depth]
      | or e' o u => simp only [Expression.link, Expression.depth, Term.depth, Nat.max_assoc]

end Link

private theorem Term.exists_join (e : Expression) {token : Token} {c : Connective}
    (h : token.kind.connective? = some c) (t : Term) :
    ∃ joined : Expression, joined.tokens = e.tokens ++ token :: t.tokens ∧
      joined.stream = e.stream ++ .connective c :: t.stream ∧
      joined.depth = max e.depth t.depth := by
  cases t with
  | factor f => exact ⟨e.link token c h f, e.tokens_link .., e.stream_link .., e.depth_link ..⟩
  | and u link f =>
      obtain ⟨joined, tokens, stream, depth⟩ := Term.exists_join e h u
      have spells : link.1.kind.connective? = some .and := by rw [link.2]; rfl
      refine ⟨joined.link link.1 .and spells f, ?_, ?_, ?_⟩
      · rw [joined.tokens_link, tokens, Term.tokens, List.append_assoc, List.cons_append]
      · rw [joined.stream_link, stream, Term.stream, List.append_assoc, List.cons_append]
      · rw [joined.depth_link, depth, Term.depth, Nat.max_assoc]

/-- Two expressions can be joined. An `and` between them binds the last term of the one to the first
    of the other. -/
theorem Expression.exists_join (e : Expression) {token : Token} {c : Connective}
    (h : token.kind.connective? = some c) (d : Expression) :
    ∃ joined : Expression, joined.tokens = e.tokens ++ token :: d.tokens ∧
      joined.stream = e.stream ++ .connective c :: d.stream ∧
      joined.depth = max e.depth d.depth := by
  cases d with
  | term t => exact t.exists_join e h
  | or d link t =>
      obtain ⟨first, tokens, stream, depth⟩ := Expression.exists_join e h d
      have spells : link.1.kind.connective? = some .or := by rw [link.2]; rfl
      obtain ⟨joined, tokens', stream', depth'⟩ := t.exists_join first spells
      refine ⟨joined, ?_, ?_, ?_⟩
      · rw [tokens', tokens, Expression.tokens, List.append_assoc, List.cons_append]
      · rw [stream', stream, Expression.stream, List.append_assoc, List.cons_append]
      · rw [depth', depth, Expression.depth, Nat.max_assoc]

end RecordFilter.Grammar
