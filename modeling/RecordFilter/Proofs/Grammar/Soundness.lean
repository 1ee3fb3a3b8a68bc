import RecordFilter.Proofs.Grammar.Derivation
import RecordFilter.Proofs.Identifier
import RecordFilter.Stream.Reader

/-! # What is read has a derivation

The tokens that a reader has taken split into those of the levels around, each of which ends with an
open parenthesis, and those of the current level, which lead to what the reader waits for. Every
token that is taken keeps this, so a query that is complete is a derivation.
-/

namespace RecordFilter.Grammar

open Reader

variable {limit : Int}

/-- What a level holds where a factor is to come: nothing, or an expression and a connective. -/
inductive Lead where
  | empty
  | linked (e : Expression) (token : Token) (c : Connective) (spells : token.kind.connective? = some c)

namespace Lead

def tokens : Lead → List Token
  | empty => []
  | linked e t .. => e.tokens ++ [t]

def stream : Lead → List StreamItem
  | empty => []
  | linked e _ c _ => e.stream ++ [.connective c]

def depth : Lead → Nat
  | empty => 0
  | linked e .. => e.depth

/-- The expression that a factor completes. -/
def complete : Lead → Factor → Expression
  | empty, f => .term (.factor f)
  | linked e t c h, f => e.link t c h f

variable (lead : Lead) (f : Factor)

theorem tokens_complete : (lead.complete f).tokens = lead.tokens ++ f.tokens := by
  cases lead with
  | empty => rfl
  | linked e t c h => simp [complete, tokens, Expression.tokens_link]

theorem stream_complete : (lead.complete f).stream = lead.stream ++ [f.item] := by
  cases lead with
  | empty => rfl
  | linked e t c h => simp [complete, stream, Expression.stream_link]

theorem depth_complete : (lead.complete f).depth = max lead.depth f.depth := by
  cases lead with
  | empty => exact (Nat.zero_max _).symm
  | linked e t c h => exact Expression.depth_link e t h f

end Lead

/-- The tokens of a level, `level` parentheses deep, that lead to what a reader waits for. -/
inductive Begun (limit level : Nat) : Expecting → List StreamItem → List Token → Prop where
  | start : level = 0 → Begun limit level .start [] []
  | opened : Begun limit level .opened [] []
  | item (lead : Lead) : level + lead.depth ≤ limit → Begun limit level .item lead.stream lead.tokens
  | operator (lead : Lead) (f : FieldName) : level + lead.depth ≤ limit →
      Begun limit level (.operator f.name) lead.stream (lead.tokens ++ [f.token])
  | afterNot (lead : Lead) (f : FieldName) (n : TokenOf .not) : level + lead.depth ≤ limit →
      Begun limit level (.afterNot f.name n.1.position) lead.stream
        (lead.tokens ++ [f.token, n.1])
  | literal (lead : Lead) (f : FieldName) (o : OperatorPhrase) : level + lead.depth ≤ limit →
      Begun limit level (.literal f.name o.comparison) lead.stream
        (lead.tokens ++ f.token :: o.tokens)
  | link (e : Expression) : level + e.depth ≤ limit → Begun limit level .link e.stream e.tokens

/-- The tokens of the levels around the current one. -/
inductive Enclosing (limit : Nat) : List OpenGroup → List Token → Prop where
  | nil : Enclosing limit [] []
  | cons {outer ts} (lead : Lead) (opening : TokenOf .openParen) : Enclosing limit outer ts →
      outer.length + lead.depth ≤ limit →
      Enclosing limit (⟨opening.1.position, lead.stream⟩ :: outer)
        (ts ++ (lead.tokens ++ [opening.1]))

/-- `ts` are tokens that have brought a reader where it is. -/
inductive Reached (limit : Nat) (r : Reader) : List Token → Prop where
  | parts {before current} : Enclosing limit r.outer before →
      Begun limit r.outer.length r.expecting r.items current → Reached limit r (before ++ current)

theorem reached_start (limit : Nat) : Reached limit Reader.start [] := by
  have h : Reached limit Reader.start ([] ++ []) := .parts .nil (.start rfl)
  exact h

section Step

variable {items : List StreamItem} {outer : List OpenGroup} {before : List Token} {t : Token}
  {r' : Reader}

private theorem reached_beginItem {expecting} (lead : Lead)
    (around : Enclosing limit.toNat outer before)
    (room : outer.length + lead.depth ≤ limit.toNat)
    (word : t.kind.isWord = true → '\n' ∉ t.content.toList)
    (h : beginItem ⟨expecting, lead.stream, outer⟩ t = .ok r') :
    Reached limit.toNat r' (before ++ lead.tokens ++ [t]) := by
  simp only [beginItem] at h
  split at h
  · next hk =>
      cases h
      rw [List.append_assoc, ← List.append_nil (before ++ _)]
      exact .parts (.cons lead ⟨t, hk⟩ around room) .opened
  · split at h
    · next hw =>
        cases hf : Identifier.fault? t.content with
        | some fault => simp [hf, fail] at h
        | none =>
            simp only [hf, Except.ok.injEq] at h
            subst h
            have names := Identifier.names_of_fault?_eq_none hf (word hw)
            rw [List.append_assoc]
            exact .parts around (.operator lead ⟨t, hw, names⟩ room)
    · simp [fail] at h

private theorem reached_takeOperator (lead : Lead) (f : FieldName)
    (around : Enclosing limit.toNat outer before) (room : outer.length + lead.depth ≤ limit.toNat)
    (h : takeOperator ⟨.operator f.name, lead.stream, outer⟩ f.name t = .ok r') :
    Reached limit.toNat r' (before ++ (lead.tokens ++ [f.token]) ++ [t]) := by
  rw [List.append_assoc, List.append_assoc, List.singleton_append]
  unfold takeOperator at h
  cases hc : t.kind.comparison? with
  | some c =>
      simp only [hc, Except.ok.injEq] at h
      subst h
      exact .parts around (.literal lead f (.single t c hc) room)
  | none =>
      simp only [hc] at h
      split at h
      · next hn =>
          cases h
          exact .parts around (.afterNot lead f ⟨t, hn⟩ room)
      · split at h <;> simp [fail] at h

private theorem reached_takeContains (lead : Lead) (f : FieldName) (n : TokenOf .not)
    (around : Enclosing limit.toNat outer before) (room : outer.length + lead.depth ≤ limit.toNat)
    (h : takeContains ⟨.afterNot f.name n.1.position, lead.stream, outer⟩ f.name n.1.position t =
      .ok r') :
    Reached limit.toNat r' (before ++ (lead.tokens ++ [f.token, n.1]) ++ [t]) := by
  rw [List.append_assoc, List.append_assoc]
  unfold takeContains at h
  split at h
  · next hk =>
      cases h
      exact .parts around (.literal lead f (.notContains n ⟨t, hk⟩) room)
  · split at h <;> simp [fail] at h

private theorem reached_takeLiteral (lead : Lead) (f : FieldName) (o : OperatorPhrase)
    (around : Enclosing limit.toNat outer before) (room : outer.length + lead.depth ≤ limit.toNat)
    (h : takeLiteral ⟨.literal f.name o.comparison, lead.stream, outer⟩ f.name o.comparison t =
      .ok r') :
    Reached limit.toNat r' (before ++ (lead.tokens ++ f.token :: o.tokens) ++ [t]) := by
  unfold takeLiteral at h
  split at h
  · next hl =>
      cases h
      let e := lead.complete (.clause ⟨f, o, t, hl⟩)
      have hs : e.stream = lead.stream ++ [.comparison f.name o.comparison t] :=
        lead.stream_complete _
      have ht : e.tokens = lead.tokens ++ f.token :: o.tokens ++ [t] := by
        rw [Lead.tokens_complete]
        simp [Factor.tokens, Clause.tokens]
      have hd : outer.length + e.depth ≤ limit.toNat := by
        rw [Lead.depth_complete, Factor.depth]
        omega
      rw [List.append_assoc, ← ht]
      rw [← hs]
      exact .parts around (.link e hd)
  · simp [fail] at h

private theorem reached_takeLink (e : Expression) (around : Enclosing limit.toNat outer before)
    (room : outer.length + e.depth ≤ limit.toNat)
    (h : takeLink ⟨.link, e.stream, outer⟩ t = .ok r') :
    Reached limit.toNat r' (before ++ e.tokens ++ [t]) := by
  unfold takeLink at h
  cases hc : t.kind.connective? with
  | some c =>
      simp only [hc, Except.ok.injEq] at h
      subst h
      rw [List.append_assoc]
      exact .parts around (.item (.linked e t c hc) room)
  | none =>
      simp only [hc] at h
      cases around with
      | nil => simp only at h; split at h <;> simp [fail] at h
      | @cons outer ts lead opening around fits =>
          simp only at h
          split at h
          · next hk =>
              cases h
              let body : Factor := .group opening e ⟨t, hk⟩
              have hs : (lead.complete body).stream =
                  lead.stream ++ [.group e.stream (some opening.1.position)] :=
                lead.stream_complete _
              have ht : ts ++ (lead.complete body).tokens =
                  ts ++ (lead.tokens ++ [opening.1]) ++ e.tokens ++ [t] := by
                rw [Lead.tokens_complete]
                simp [body, Factor.tokens]
              have hd : outer.length + (lead.complete body).depth ≤ limit.toNat := by
                rw [Lead.depth_complete, Factor.depth]
                simp only [List.length_cons] at room
                omega
              rw [← ht, ← hs]
              exact .parts around (.link _ hd)
          · simp [fail] at h

end Step

theorem Reached.step {r ts t r'} (h : Reached limit.toNat r ts)
    (word : t.kind.isWord = true → '\n' ∉ t.content.toList) (hs : r.step limit t = .ok r') :
    Reached limit.toNat r' (ts ++ [t]) := by
  obtain ⟨expecting, items, outer⟩ := r
  obtain @⟨before, current, around, begun⟩ := h
  cases begun with
  | start none =>
      refine reached_beginItem .empty around ?_ word hs
      simp only at none
      simp only [Lead.depth]
      omega
  | opened =>
      simp only [Reader.step] at hs
      split at hs
      · simp [fail] at hs
      · split at hs
        · simp [fail] at hs
        · next hd =>
            refine reached_beginItem .empty around ?_ word hs
            simp only [isTooDeep, decide_eq_true_eq] at hd
            simp only [Lead.depth]
            omega
  | item lead room => exact reached_beginItem lead around room word hs
  | operator lead f room => exact reached_takeOperator lead f around room hs
  | afterNot lead f n room => exact reached_takeContains lead f n around room hs
  | literal lead f o room => exact reached_takeLiteral lead f o around room hs
  | link e room => exact reached_takeLink e around room hs

theorem Reached.foldlM {r ts more r'} (h : Reached limit.toNat r ts)
    (words : ∀ t ∈ more, t.kind.isWord = true → '\n' ∉ t.content.toList)
    (hf : more.foldlM (Reader.step limit) r = .ok r') : Reached limit.toNat r' (ts ++ more) := by
  induction more generalizing r ts with
  | nil =>
      cases hf
      simpa only [List.append_nil] using h
  | cons t more ih =>
      rw [List.foldlM_cons] at hf
      cases hs : r.step limit t with
      | error failure => simp [hs, bind, Except.bind] at hf
      | ok next =>
          simp only [hs, bind, Except.bind] at hf
          have stepped := h.step (words t (by simp)) hs
          have rest := ih stepped (fun u hu => words u (List.mem_cons_of_mem _ hu)) hf
          simpa only [List.append_assoc, List.singleton_append] using rest

private theorem Reached.finish {r ts items} (h : Reached limit.toNat r ts) {position : Int}
    (hf : r.finish limit position = .ok items) :
    ∃ e : Expression, e.tokens = ts ∧ e.stream = items ∧ e.depth ≤ limit.toNat := by
  obtain ⟨expecting, found, outer⟩ := r
  obtain @⟨before, current, around, begun⟩ := h
  cases begun with
  | link e room =>
      cases around with
      | nil =>
          cases hf
          exact ⟨e, rfl, rfl, by simpa using room⟩
      | cons => simp [Reader.finish, fail] at hf
  | opened => simp only [Reader.finish] at hf; split at hf <;> simp [fail] at hf
  | _ => simp [Reader.finish, fail] at hf

/-- A scan makes up a query only if it ends well and its tokens have a derivation. -/
theorem exists_expression_of_ofScan {s : Scan} {items}
    (words : ∀ t ∈ s.tokens, t.kind.isWord = true → '\n' ∉ t.content.toList)
    (h : StreamItem.ofScan limit s = .ok items) :
    ∃ (e : Expression) (position : Int), s = ⟨e.tokens, .finish position⟩ ∧ e.stream = items ∧
      e.depth ≤ limit.toNat := by
  obtain ⟨tokens, ending⟩ := s
  simp only [StreamItem.ofScan, bind, Except.bind] at h
  cases hr : tokens.foldlM (Reader.step limit) Reader.start with
  | error failure => simp [hr] at h
  | ok r =>
      simp only [hr] at h
      cases ending with
      | failed failure => simp at h
      | finish position =>
          have reached := (reached_start limit.toNat).foldlM words hr
          obtain ⟨e, rfl, hs, hd⟩ := reached.finish h
          exact ⟨e, position, rfl, hs, hd⟩

end RecordFilter.Grammar
