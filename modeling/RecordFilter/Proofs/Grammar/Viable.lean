import Mathlib.Order.Bounds.Basic
import RecordFilter.Proofs.Grammar.Completeness
import RecordFilter.Proofs.Grammar.Soundness

/-! # Prefixes that can still become a query

A prefix is viable if some sequence of tokens that is read begins with it. Whatever a reader has
taken is viable: a clause completes the level that the reader is in, and a parenthesis each of the
groups around it, if these are not too deep already.
-/

namespace RecordFilter

/-- Tokens, with the end of the text as the last of them, that are read as a stream. -/
def Accepted (limit : Int) (ts : List Token) : Prop :=
  ∃ tokens position items, ts = tokens ++ [Token.finish position] ∧
    StreamItem.ofScan limit ⟨tokens, .finish position⟩ = .ok items

/-- Some tokens that are read begin with these. -/
def Viable (limit : Int) (ts : List Token) : Prop := ∃ whole, Accepted limit whole ∧ ts <+: whole

variable {limit : Int}

private theorem Viable.of_prefix {xs ys : List Token} (h : Viable limit ys) (hp : xs <+: ys) :
    Viable limit xs := by
  obtain ⟨whole, accepted, begins⟩ := h
  exact ⟨whole, accepted, hp.trans begins⟩

/-- Where viability ends is the first place that it is missing. -/
theorem Viable.isLeast {before after : List Token} {t : Token} (h : Viable limit before)
    (refused : ¬ Viable limit (before ++ [t])) :
    IsLeast {k | ¬ Viable limit ((before ++ t :: after).take (k + 1))} before.length := by
  constructor
  · have upto : (before ++ t :: after).take (before.length + 1) = before ++ [t] := by
      rw [List.take_length_add_append]
      rfl
    rw [Set.mem_ofPred_eq, upto]
    exact refused
  · intro k hk
    by_contra earlier
    have within : k + 1 ≤ before.length := by omega
    rw [Set.mem_ofPred_eq, List.take_append_of_le_length within] at hk
    exact hk (h.of_prefix (List.take_prefix _ _))

namespace Grammar

/-- A field name, an operator, a literal and the end of a group, to complete a query with. -/
def sampleField : FieldName :=
  ⟨⟨.identifier, some "a", 0, none⟩, rfl, by decide⟩

def sampleOperator : OperatorPhrase := .single ⟨.equal, some "==", 0, none⟩ .equal rfl

def sampleContains : TokenOf .contains := ⟨⟨.contains, some "contains", 0, none⟩, rfl⟩

def sampleLiteral : Token := ⟨.null, some "null", 0, none⟩

def sampleClosing : TokenOf .closeParen := ⟨⟨.closeParen, some ")", 0, none⟩, rfl⟩

private theorem Lead.exists_expression (lead : Lead) (c : Clause) {level most : Nat}
    {ts : List Token}
    (hp : ts <+: c.tokens) (room : level + lead.depth ≤ most) :
    ∃ e : Expression, lead.tokens ++ ts <+: e.tokens ∧ level + e.depth ≤ most := by
  refine ⟨lead.complete (.clause c), ?_, ?_⟩
  · rw [lead.tokens_complete, Factor.tokens]
    exact (List.prefix_append_right_inj lead.tokens).mpr hp
  · rw [lead.depth_complete, Factor.depth, Nat.max_zero]
    exact room

/-- The tokens that lead to what a reader waits for begin an expression. -/
theorem Begun.exists_expression {most level : Nat} {expecting items current}
    (h : Begun most level expecting items current) (room : level ≤ most) :
    ∃ e : Expression, current <+: e.tokens ∧ level + e.depth ≤ most := by
  have sample : ∃ e : Expression, [] <+: e.tokens ∧ level + e.depth ≤ most :=
    Lead.empty.exists_expression ⟨sampleField, sampleOperator, sampleLiteral, rfl⟩
      List.nil_prefix room
  cases h with
  | start => exact sample
  | opened => exact sample
  | item lead room =>
      obtain ⟨e, begins, fits⟩ := lead.exists_expression
        ⟨sampleField, sampleOperator, sampleLiteral, rfl⟩ List.nil_prefix room
      rw [List.append_nil] at begins
      exact ⟨e, begins, fits⟩
  | operator lead f room =>
      exact lead.exists_expression ⟨f, sampleOperator, sampleLiteral, rfl⟩
        (List.prefix_append [f.token] _) room
  | afterNot lead f n room =>
      exact lead.exists_expression ⟨f, .notContains n sampleContains, sampleLiteral, rfl⟩
        (List.prefix_append [f.token, n.1] _) room
  | literal lead f o room =>
      exact lead.exists_expression ⟨f, o, sampleLiteral, rfl⟩
        (List.prefix_append (f.token :: o.tokens) _) room
  | link e room => exact ⟨e, List.prefix_rfl, room⟩

/-- An expression that the current level begins makes up, in its groups, one that all of it begins.
    -/
theorem Enclosing.exists_expression {most : Nat} {outer before}
    (h : Enclosing most outer before) {current : List Token} {e : Expression}
    (begins : current <+: e.tokens) (room : outer.length + e.depth ≤ most) :
    ∃ whole : Expression, before ++ current <+: whole.tokens ∧ whole.depth ≤ most := by
  -- From the innermost group outwards: the group completes the level that it stands in.
  induction h generalizing current e with
  | nil =>
      refine ⟨e, begins, ?_⟩
      simpa using room
  | @cons outer ts lead opening _ fits ih =>
      have group : lead.tokens ++ opening.1 :: current <+:
          (lead.complete (.group opening e sampleClosing)).tokens := by
        rw [lead.tokens_complete, Factor.tokens, List.prefix_append_right_inj, List.cons_prefix_cons]
        exact ⟨rfl, begins.trans (List.prefix_append _ _)⟩
      have depth : outer.length + (lead.complete (.group opening e sampleClosing)).depth ≤ most := by
        rw [lead.depth_complete, Factor.depth]
        rw [List.length_cons] at room
        omega
      obtain ⟨whole, all, bound⟩ := ih group depth
      refine ⟨whole, ?_, bound⟩
      simpa only [List.append_assoc, List.singleton_append] using all

/-- What a reader has taken is viable if its groups are not too deep. -/
theorem Reached.viable {r ts} (h : Reached limit.toNat r ts) (room : r.outer.length ≤ limit.toNat) :
    Viable limit ts := by
  obtain @⟨before, current, around, begun⟩ := h
  obtain ⟨e, begins, fits⟩ := begun.exists_expression room
  obtain ⟨whole, all, bound⟩ := around.exists_expression begins fits
  refine ⟨whole.tokens ++ [.finish 0], ⟨whole.tokens, 0, whole.stream, rfl, ?_⟩, ?_⟩
  · exact whole.ofScan_eq bound 0
  · exact all.trans (List.prefix_append _ _)

end Grammar

end RecordFilter
