import RecordFilter.Proofs.Literal.Failure
import RecordFilter.Proofs.Predicate.Refusal
import RecordFilter.Proofs.Query.Parse
import RecordFilter.Proofs.Stream.Refusal

/-! # Queries that do not parse

A text is scanned, read as a stream, compiled and validated. The first three fail at a position of
the text. Validation tells no position; but a compiled level is well chained, its identifiers are
names and its literals can be spelled, so only a reserved path is left for it to refuse.
-/

namespace RecordFilter

/-- Reads and compiles a query, which leaves only its validation. -/
def compileWithin (limit : Nat) (text : String) : Except Failure (List Predicate) := do
  compileStream (.ok limit) (← StreamItem.ofText limit text)

section

variable (limit : Nat) (text : String)

private theorem parseWithin_eq : parseWithin limit text = do
    let level ← compileWithin limit text
    validate level
    return level := by
  rw [parseWithin, compileWithin, bind_assoc]

/-- What fails before validation fails at a position of the text. -/
theorem located_compileWithin :
    Located 0 text.length (fun _ => True) (compileWithin limit text) := by
  have inside := Scan.inside_ofText 0 text
  rw [Int.zero_add, String.length_toList] at inside
  refine (StreamItem.located_ofScan limit inside).result.bind fun items stream => ?_
  obtain ⟨e, position, scan, rfl, _⟩ := Grammar.exists_expression_of_ofText stream
  rw [scan] at inside
  have alternates : Alternates (Token.Inside 0 text.length) e.stream :=
    e.alternates fun t ht _ => inside.tokens t ht
  cases compiled : compileStream (.ok limit) e.stream with
  | ok level => exact .ok trivial
  | error failure =>
      obtain ⟨_, t, _, _, _, ht, fails⟩ := alternates.exists_refused compiled
      rw [Literal.castToken_eq] at fails
      have located := (Literal.located_castWithin limit t).widen ht.first ht.last
      rw [fails] at located
      exact .error located.within

end

/-- Validation refuses a chained level only for its defects. -/
theorem Chained.validate_eq {level} (h : Chained level) :
    validate level = .ok () ∨ ∃ found, validate level = .error (.query (.defects found) none) := by
  rw [validate, h.levelDefects_eq]
  cases (conditionsOf level).flatMap Condition.defects with
  | nil => exact .inl rfl
  | cons d more => exact .inr ⟨d :: more, rfl⟩

/-- A query parses, or what is wrong stands at a position of its text, or its level is built and
    only the validation refuses it, because a path in it is reserved. -/
theorem parseWithin_ok_or_located (limit : Nat) (text : String) :
    (∃ level, parseWithin limit text = .ok level) ∨
    ∃ failure, parseWithin limit text = .error failure ∧ failure.isParseFailure = true ∧
      ((compileWithin limit text = .error failure ∧
        ∃ position, failure.position? = some position ∧ 0 ≤ position ∧ position ≤ text.length) ∨
      ∃ level, compileWithin limit text = .ok level ∧ validate level = .error failure ∧
        failure.position? = none ∧
        ∃ c ∈ conditionsOf level, Identifier.IsReserved c.identifier) := by
  have located := located_compileWithin limit text
  rw [parseWithin_eq]
  cases hc : compileWithin limit text with
  | error failure =>
      rw [hc] at located
      exact .inr ⟨failure, rfl, located.within.parse, .inl ⟨rfl, located.within.located⟩⟩
  | ok level =>
      obtain ⟨items, stream, compiled⟩ := bind_eq_ok_iff.mp hc
      have run := compileStream_eq_ok_iff.mp compiled
      rw [ok_bind]
      rcases run.chained.validate_eq with valid | ⟨found, invalid⟩
      · exact .inl ⟨level, by rw [valid]; rfl⟩
      · refine .inr ⟨_, by rw [invalid]; rfl, rfl, .inr ⟨level, rfl, invalid, rfl, ?_⟩⟩
        by_contra unreserved
        have clean := (spellable_of_compiled stream run fun c hc reserved =>
          unreserved ⟨c, hc, reserved⟩).validate_eq
        rw [clean] at invalid
        cases invalid

end RecordFilter
