import RecordFilter.Proofs.Grammar.Derivation
import RecordFilter.Proofs.Identifier
import RecordFilter.Stream.Reader

/-! # Derivations are read

A reader that waits for an item takes all tokens of a derivation, provided that the parentheses
around it and in it are within the limit, and then waits for a connective with the stream of the
derivation behind it.
-/

namespace RecordFilter.Grammar

open Reader

variable {limit : Int}

/-- An item can begin: the level is new, or a connective has been taken. -/
def Awaits (limit : Int) (r : Reader) : Prop :=
  r.expecting = .start ∨ r.expecting = .item ∨ (r.expecting = .opened ∧ r.isTooDeep limit = false)

theorem step_of_awaits {r t} (h : Awaits limit r) (hk : t.kind ≠ .closeParen) :
    r.step limit t = r.beginItem t := by
  rcases h with h | h | ⟨h, hd⟩
  · simp only [step, h]
  · simp only [step, h]
  · simp only [step, h, if_neg hk, hd, Bool.false_eq_true, if_false]

private theorem isTooDeep_eq_false {r : Reader} (h : r.outer.length ≤ limit.toNat)
    (ho : r.outer ≠ []) :
    r.isTooDeep limit = false := by
  have hpos := List.length_pos_iff.mpr ho
  simp only [isTooDeep, decide_eq_false_iff_not]
  omega

private theorem FieldName.step_eq (f : FieldName) {r} (h : Awaits limit r) :
    r.step limit f.token = .ok { r with expecting := .operator f.name } := by
  have hopen : f.token.kind ≠ .openParen := by
    intro hk
    exact absurd f.is_word (by rw [hk]; decide)
  have hclose : f.token.kind ≠ .closeParen := by
    intro hk
    exact absurd f.is_word (by rw [hk]; decide)
  rw [step_of_awaits h hclose, beginItem, if_neg hopen, if_pos f.is_word,
    Identifier.fault?_eq_none_of_names f.names]
  rfl

private theorem OperatorPhrase.foldlM_eq (o : OperatorPhrase) {identifier items outer} :
    o.tokens.foldlM (step limit) ⟨.operator identifier, items, outer⟩ =
      .ok ⟨.literal identifier o.comparison, items, outer⟩ := by
  cases o with
  | single t c h =>
      simp only [tokens, List.foldlM_cons, List.foldlM_nil, step, takeOperator, h, comparison]
      rfl
  | notContains n t =>
      simp only [tokens, List.foldlM_cons, List.foldlM_nil, step, takeOperator, n.2]
      simp only [TokenKind.comparison?, if_true, takeContains, t.2, comparison, bind, Except.bind]
      rfl

private theorem Clause.foldlM_eq (c : Clause) {r} (h : Awaits limit r) :
    c.tokens.foldlM (step limit) r = .ok ⟨.link, r.items ++ [c.item], r.outer⟩ := by
  rw [tokens, List.foldlM_cons, c.field.step_eq h]
  simp only [bind, Except.bind]
  rw [List.foldlM_append, OperatorPhrase.foldlM_eq]
  simp only [bind, Except.bind, List.foldlM_cons, List.foldlM_nil, step, takeLiteral, c.is_literal,
    if_true, pure, Except.pure, item]

theorem awaits_item {items outer} : Awaits limit ⟨.item, items, outer⟩ := .inr (.inl rfl)

theorem step_connective {items outer} {t : Token} {c} (h : t.kind.connective? = some c) :
    step limit ⟨.link, items, outer⟩ t = .ok ⟨.item, items ++ [.connective c], outer⟩ := by
  simp only [step, takeLink, h]

theorem step_closeParen {items group outer} (t : TokenOf .closeParen) :
    step limit ⟨.link, items, group :: outer⟩ t.1 =
      .ok ⟨.link, group.before ++ [.group items (some group.position)], outer⟩ := by
  simp only [step, takeLink, t.2, TokenKind.connective?, if_true]

mutual

private theorem Expression.foldlM_eq (e : Expression) {r} (h : Awaits limit r)
    (hd : r.outer.length + e.depth ≤ limit.toNat) :
    e.tokens.foldlM (step limit) r = .ok ⟨.link, r.items ++ e.stream, r.outer⟩ := by
  cases e with
  | term t => exact Term.foldlM_eq t h hd
  | or e link t =>
      rw [Expression.depth] at hd
      have hl : link.1.kind.connective? = some .or := by rw [link.2]; rfl
      rw [Expression.tokens, List.foldlM_append, Expression.foldlM_eq e h (by omega)]
      simp only [bind, Except.bind, List.foldlM_cons, step_connective hl]
      rw [Term.foldlM_eq t awaits_item (by simp only; omega)]
      simp only [Expression.stream, List.append_assoc, List.singleton_append]

private theorem Term.foldlM_eq (t : Term) {r} (h : Awaits limit r)
    (hd : r.outer.length + t.depth ≤ limit.toNat) :
    t.tokens.foldlM (step limit) r = .ok ⟨.link, r.items ++ t.stream, r.outer⟩ := by
  cases t with
  | factor f => exact Factor.foldlM_eq f h hd
  | and t link f =>
      rw [Term.depth] at hd
      have hl : link.1.kind.connective? = some .and := by rw [link.2]; rfl
      rw [Term.tokens, List.foldlM_append, Term.foldlM_eq t h (by omega)]
      simp only [bind, Except.bind, List.foldlM_cons, step_connective hl]
      rw [Factor.foldlM_eq f awaits_item (by simp only; omega)]
      simp only [Term.stream, List.append_assoc, List.singleton_append]

private theorem Factor.foldlM_eq (f : Factor) {r} (h : Awaits limit r)
    (hd : r.outer.length + f.depth ≤ limit.toNat) :
    f.tokens.foldlM (step limit) r = .ok ⟨.link, r.items ++ [f.item], r.outer⟩ := by
  cases f with
  | clause c => exact c.foldlM_eq h
  | group opening body closing =>
      rw [Factor.depth] at hd
      have hne : opening.1.kind ≠ .closeParen := by rw [opening.2]; decide
      rw [Factor.tokens, List.foldlM_cons, step_of_awaits h hne, beginItem, if_pos opening.2]
      simp only [bind, Except.bind]
      have inside : Awaits limit ⟨.opened, [], ⟨opening.1.position, r.items⟩ :: r.outer⟩ := by
        refine .inr (.inr ⟨rfl, isTooDeep_eq_false ?_ (List.cons_ne_nil _ _)⟩)
        simp only [List.length_cons]
        omega
      rw [List.foldlM_append, Expression.foldlM_eq body inside
        (by simp only [List.length_cons]; omega)]
      simp only [bind, Except.bind, List.foldlM_cons, List.foldlM_nil, step_closeParen, pure,
        Except.pure, Factor.item, List.nil_append]

end

/-- The tokens of a derivation make up a query if its parentheses are within the limit. -/
theorem Expression.ofScan_eq (e : Expression) (hd : e.depth ≤ limit.toNat) (position : Int) :
    StreamItem.ofScan limit ⟨e.tokens, .finish position⟩ = .ok e.stream := by
  have hr : e.tokens.foldlM (step limit) Reader.start = .ok ⟨.link, [] ++ e.stream, []⟩ :=
    e.foldlM_eq (.inl rfl) (by simpa [Reader.start] using hd)
  rw [StreamItem.ofScan, hr]
  rfl

end RecordFilter.Grammar
