import Mathlib.Data.List.Chain
import RecordFilter.Proofs.Grammar.Derivation
import RecordFilter.Proofs.Predicate.Compile

/-! # Places in a derivation

What a word is depends on where it stands: `in` names a field in one place and is an operator in
another. A derivation tells the place of each of its tokens, and the places tell which tokens can be
neighbours. Tokens that keep what counts at their places make up a derivation of the same level.
-/

namespace RecordFilter.Grammar

/-- What a token of a derivation stands for. -/
inductive Place where
  | field
  /-- The `not` before `contains`. -/
  | negation
  | operator
  | literal
  | link
  | opening
  | closing
  deriving DecidableEq

namespace Place

/-- The kinds of the tokens that can stand at a place. -/
@[reducible]
def Allows : Place → TokenKind → Prop
  | field, kind => kind.isWord = true
  | negation, kind => kind = .not
  | operator, kind => kind.comparison? ≠ none
  | literal, kind => kind.isLiteral = true
  | link, kind => kind.connective? ≠ none
  | opening, kind => kind = .openParen
  | closing, kind => kind = .closeParen

/-- The places that can be next to a place on its right. -/
def next : Place → List Place
  | field => [negation, operator]
  | negation => [operator]
  | operator => [literal]
  | literal => [link, closing]
  | link => [field, opening]
  | opening => [field, opening]
  | closing => [link, closing]

section

variable {place : Place} {kind : TokenKind}

/-- The tokens at these places are keywords, operators and parentheses. -/
theorem keyword_of_allows (h : place.Allows kind) (field : place ≠ .field)
    (literal : place ≠ .literal) : kind.isLiteral = false ∧ kind ≠ .identifier := by
  cases place with
  | field => exact absurd rfl field
  | literal => exact absurd rfl literal
  | _ =>
      revert h
      cases kind <;>
        simp [Allows, TokenKind.isLiteral, TokenKind.comparison?, TokenKind.connective?]

theorem eq_literal_of_allows (h : place.Allows kind) (number : kind = .number) :
    place = .literal := by
  subst number
  cases place with
  | literal => rfl
  | _ => simp [Allows, TokenKind.isWord, TokenKind.comparison?, TokenKind.connective?] at h

end

end Place

/-- A token at its place. -/
structure PlacedToken where
  place : Place
  token : Token
  allowed : place.Allows token.kind

def OperatorPhrase.placed : OperatorPhrase → List PlacedToken
  | single t _ spells => [⟨.operator, t, fun none => nomatch spells.symm.trans none⟩]
  | notContains n t => [⟨.negation, n.1, n.2⟩, ⟨.operator, t.1, by rw [t.2]; exact nofun⟩]

def Clause.placed (c : Clause) : List PlacedToken :=
  ⟨.field, c.field.token, c.field.is_word⟩ ::
    (c.operator.placed ++ [⟨.literal, c.literal, c.is_literal⟩])

mutual

/-- The tokens of a derivation at their places, from left to right. -/
def Expression.placed : Expression → List PlacedToken
  | .term t => t.placed
  | .or e link t => e.placed ++ ⟨.link, link.1, by rw [link.2]; exact nofun⟩ :: t.placed

def Term.placed : Term → List PlacedToken
  | .factor f => f.placed
  | .and t link f => t.placed ++ ⟨.link, link.1, by rw [link.2]; exact nofun⟩ :: f.placed

def Factor.placed : Factor → List PlacedToken
  | .clause c => c.placed
  | .group opening body closing =>
    ⟨.opening, opening.1, opening.2⟩ :: (body.placed ++ [⟨.closing, closing.1, closing.2⟩])

end

private theorem OperatorPhrase.tokens_placed (o : OperatorPhrase) :
    o.placed.map PlacedToken.token = o.tokens := by
  cases o <;> rfl

private theorem Clause.tokens_placed (c : Clause) : c.placed.map PlacedToken.token = c.tokens := by
  simp only [placed, tokens, List.map_cons, List.map_append, List.map_nil,
    OperatorPhrase.tokens_placed]

mutual

theorem Expression.tokens_placed (e : Expression) : e.placed.map PlacedToken.token = e.tokens := by
  cases e with
  | term t => exact t.tokens_placed
  | or e link t =>
      simp only [Expression.placed, Expression.tokens, List.map_append, List.map_cons,
        e.tokens_placed, t.tokens_placed]

private theorem Term.tokens_placed (t : Term) : t.placed.map PlacedToken.token = t.tokens := by
  cases t with
  | factor f => exact f.tokens_placed
  | and t link f =>
      simp only [Term.placed, Term.tokens, List.map_append, List.map_cons, t.tokens_placed,
        f.tokens_placed]

private theorem Factor.tokens_placed (f : Factor) : f.placed.map PlacedToken.token = f.tokens := by
  cases f with
  | clause c => exact c.tokens_placed
  | group opening body closing =>
      simp only [Factor.placed, Factor.tokens, List.map_cons, List.map_append, List.map_nil,
        body.tokens_placed]

end

/-- The places allow the tokens to be neighbours. -/
def PlacedToken.Leads (p q : PlacedToken) : Prop := q.place ∈ p.place.next

/-- Neighbouring tokens are at places that can be neighbours, and the first is at one of these. -/
structure Lined (first : List Place) (ps : List PlacedToken) : Prop where
  chain : ps.IsChain PlacedToken.Leads
  head : ∀ p ∈ ps.head?, p.place ∈ first

namespace Lined

theorem nil (first : List Place) : Lined first [] := by
  refine ⟨.nil, ?_⟩
  intro p hp
  cases hp

theorem cons {first : List Place} {place token allowed} {ps : List PlacedToken}
    (h : Lined place.next ps) (hp : place ∈ first) :
    Lined first (⟨place, token, allowed⟩ :: ps) := by
  refine ⟨h.chain.cons h.head, ?_⟩
  intro q hq
  cases hq
  exact hp

end Lined

private theorem Clause.lined (c : Clause) {rest} (h : Lined Place.literal.next rest) :
    Lined Place.link.next (c.placed ++ rest) := by
  have ending : Lined [.literal] (⟨.literal, c.literal, c.is_literal⟩ :: rest) :=
    .cons h List.mem_cons_self
  rw [Clause.placed, List.cons_append, List.append_assoc, List.singleton_append]
  refine .cons ?_ List.mem_cons_self
  cases c.operator with
  | single t comparison spells => exact .cons ending (by decide)
  | notContains n t => exact .cons (.cons ending (by decide)) (by decide)

mutual

theorem Expression.lined (e : Expression) {rest} (h : Lined Place.literal.next rest) :
    Lined Place.link.next (e.placed ++ rest) := by
  cases e with
  | term t => exact t.lined h
  | or e link t =>
      rw [Expression.placed, List.append_assoc]
      exact e.lined (.cons (t.lined h) (by decide))

private theorem Term.lined (t : Term) {rest} (h : Lined Place.literal.next rest) :
    Lined Place.link.next (t.placed ++ rest) := by
  cases t with
  | factor f => exact f.lined h
  | and t link f =>
      rw [Term.placed, List.append_assoc]
      exact t.lined (.cons (f.lined h) (by decide))

private theorem Factor.lined (f : Factor) {rest} (h : Lined Place.literal.next rest) :
    Lined Place.link.next (f.placed ++ rest) := by
  cases f with
  | clause c => exact c.lined h
  | group opening body closing =>
      rw [Factor.placed, List.cons_append, List.append_assoc]
      exact .cons (body.lined (.cons h (by decide))) (by decide)

end

section

variable {limit : Except Failure Int}

private theorem OperatorPhrase.place_ne_literal (o : OperatorPhrase) :
    ∀ p ∈ o.placed, p.place ≠ .literal := by
  cases o with
  | single => exact List.forall_mem_singleton.mpr nofun
  | notContains => exact List.forall_mem_cons.mpr ⟨nofun, List.forall_mem_singleton.mpr nofun⟩

private theorem Clause.exists_cast (c : Clause) {node} (h : CompiledNode limit c.item node) :
    ∀ p ∈ c.placed, p.place = .literal → ∃ l, Literal.castToken limit 0 p.token = .ok l := by
  cases h with
  | condition cast =>
      rw [Clause.placed, List.forall_mem_cons, List.forall_mem_append, List.forall_mem_singleton]
      refine ⟨nofun, ?_, fun _ => ⟨_, cast⟩⟩
      intro p hp literal
      exact absurd literal (c.operator.place_ne_literal p hp)

mutual

/-- The literals of a derivation that becomes a level can be cast. -/
theorem Expression.exists_cast (e : Expression) {link level}
    (h : CompiledRun limit link e.stream level) :
    ∀ p ∈ e.placed, p.place = .literal → ∃ l, Literal.castToken limit 0 p.token = .ok l := by
  cases e with
  | term t => exact t.exists_cast h
  | or e link t =>
      obtain ⟨l₁, l₂, rfl, first, second⟩ := CompiledRun.exists_append h
      rw [Expression.placed, List.forall_mem_append, List.forall_mem_cons]
      exact ⟨e.exists_cast first, nofun, t.exists_cast second⟩

private theorem Term.exists_cast (t : Term) {link level}
    (h : CompiledRun limit link t.stream level) :
    ∀ p ∈ t.placed, p.place = .literal → ∃ l, Literal.castToken limit 0 p.token = .ok l := by
  cases t with
  | factor f =>
      cases h with
      | last hn => exact f.exists_cast hn
  | and t link f =>
      obtain ⟨l₁, l₂, rfl, first, second⟩ := CompiledRun.exists_append h
      rw [Term.placed, List.forall_mem_append, List.forall_mem_cons]
      cases second with
      | last hn => exact ⟨t.exists_cast first, nofun, f.exists_cast hn⟩

private theorem Factor.exists_cast (f : Factor) {node} (h : CompiledNode limit f.item node) :
    ∀ p ∈ f.placed, p.place = .literal → ∃ l, Literal.castToken limit 0 p.token = .ok l := by
  cases f with
  | clause c => exact c.exists_cast h
  | group opening body closing =>
      cases h with
      | group members =>
          rw [Factor.placed, List.forall_mem_cons, List.forall_mem_append, List.forall_mem_singleton]
          exact ⟨nofun, body.exists_cast members, nofun⟩

end

/-- The token has what counts of another one at its place: the kind, the name of a field, the value
    of a literal. -/
structure PlacedToken.Kept (limit : Except Failure Int) (p : PlacedToken) (u : Token) : Prop where
  kind : u.kind = p.token.kind
  name : p.place = .field → u.content = p.token.content
  literal : p.place = .literal → ∀ l, Literal.castToken limit 0 p.token = .ok l →
    Literal.castToken limit 0 u = .ok l

private theorem OperatorPhrase.exists_kept (o : OperatorPhrase) {us}
    (h : List.Forall₂ (PlacedToken.Kept limit) o.placed us) :
    ∃ d : OperatorPhrase, d.tokens = us ∧ d.comparison = o.comparison := by
  cases o with
  | single t comparison spells =>
      cases h with
      | cons first rest =>
          cases rest
          exact ⟨.single _ comparison (first.kind ▸ spells), rfl, rfl⟩
  | notContains n t =>
      cases h with
      | cons first rest =>
          cases rest with
          | cons second rest =>
              cases rest
              exact ⟨.notContains ⟨_, first.kind.trans n.2⟩ ⟨_, second.kind.trans t.2⟩, rfl, rfl⟩

private theorem Clause.exists_kept (c : Clause) {us}
    (h : List.Forall₂ (PlacedToken.Kept limit) c.placed us) :
    ∃ d : Clause, d.tokens = us ∧
      ∀ {node}, CompiledNode limit c.item node → CompiledNode limit d.item node := by
  cases h with
  | @cons _ field _ _ first rest =>
      obtain ⟨us, last, rfl, operators, ending⟩ := exists_append_of_forall₂ rest
      obtain ⟨operator, rfl, same⟩ := c.operator.exists_kept operators
      cases ending with
      | @cons _ literal _ _ ending none =>
          cases none
          have name : field.content = c.field.name := first.name rfl
          obtain ⟨named, rfl⟩ : ∃ f : FieldName, f.token = field :=
            ⟨⟨field, first.kind ▸ c.field.is_word, name ▸ c.field.names⟩, rfl⟩
          refine ⟨⟨named, operator, literal, ending.kind ▸ c.is_literal⟩, rfl, ?_⟩
          rintro node ⟨cast⟩
          have whole : CompiledNode limit (.comparison named.name operator.comparison literal) _ :=
            .condition (ending.literal rfl _ cast)
          rw [FieldName.name, name, same] at whole
          rw [Clause.item, FieldName.name, name, same]
          exact whole

mutual

theorem Expression.exists_kept (e : Expression) {us}
    (h : List.Forall₂ (PlacedToken.Kept limit) e.placed us) :
    ∃ d : Expression, d.tokens = us ∧ d.depth = e.depth ∧
      ∀ {link level}, CompiledRun limit link e.stream level →
        CompiledRun limit link d.stream level := by
  cases e with
  | term t =>
      obtain ⟨d, tokens, depth, run⟩ := t.exists_kept h
      exact ⟨.term d, tokens, depth, run⟩
  | or e link t =>
      obtain ⟨us, rest, rfl, first, rest⟩ := exists_append_of_forall₂ h
      cases rest with
      | cons middle second =>
          obtain ⟨d, rfl, depth, run⟩ := e.exists_kept first
          obtain ⟨d', rfl, depth', run'⟩ := t.exists_kept second
          refine ⟨.or d ⟨_, middle.kind.trans link.2⟩ d', rfl, ?_, fun h => ?_⟩
          · rw [Expression.depth, depth, depth', Expression.depth]
          · obtain ⟨l₁, l₂, rfl, first, second⟩ := CompiledRun.exists_append h
            exact (run first).append (run' second)

private theorem Term.exists_kept (t : Term) {us}
    (h : List.Forall₂ (PlacedToken.Kept limit) t.placed us) :
    ∃ d : Term, d.tokens = us ∧ d.depth = t.depth ∧
      ∀ {link level}, CompiledRun limit link t.stream level →
        CompiledRun limit link d.stream level := by
  cases t with
  | factor f =>
      obtain ⟨d, tokens, depth, node⟩ := f.exists_kept h
      refine ⟨.factor d, tokens, depth, fun h => ?_⟩
      cases h with
      | last hn => exact .last (node hn)
  | and t link f =>
      obtain ⟨us, rest, rfl, first, rest⟩ := exists_append_of_forall₂ h
      cases rest with
      | cons middle second =>
          obtain ⟨d, rfl, depth, run⟩ := t.exists_kept first
          obtain ⟨d', rfl, depth', node⟩ := f.exists_kept second
          refine ⟨.and d ⟨_, middle.kind.trans link.2⟩ d', rfl, ?_, fun h => ?_⟩
          · rw [Term.depth, depth, depth', Term.depth]
          · obtain ⟨l₁, l₂, rfl, first, second⟩ := CompiledRun.exists_append h
            cases second with
            | last hn => exact (run first).append (.last (node hn))

private theorem Factor.exists_kept (f : Factor) {us}
    (h : List.Forall₂ (PlacedToken.Kept limit) f.placed us) :
    ∃ d : Factor, d.tokens = us ∧ d.depth = f.depth ∧
      ∀ {node}, CompiledNode limit f.item node → CompiledNode limit d.item node := by
  cases f with
  | clause c =>
      obtain ⟨d, tokens, node⟩ := c.exists_kept h
      exact ⟨.clause d, tokens, rfl, node⟩
  | group opening body closing =>
      cases h with
      | cons first rest =>
          obtain ⟨us, last, rfl, inside, ending⟩ := exists_append_of_forall₂ rest
          cases ending with
          | cons ending none =>
              cases none
              obtain ⟨d, rfl, depth, run⟩ := body.exists_kept inside
              refine ⟨.group ⟨_, first.kind.trans opening.2⟩ d ⟨_, ending.kind.trans closing.2⟩, rfl,
                congrArg (· + 1) depth, fun h => ?_⟩
              cases h with
              | group members => exact .group (run members)

end

end

end RecordFilter.Grammar
