import Mathlib
import RecordFilter.Proofs.Literal.Refusal
import RecordFilter.Proofs.Predicate.Building
import RecordFilter.Proofs.Query.Failure

/-! # Streams that are read compile

The reader, the compiler, the builder and the validator each ask that nodes and connectives
alternate. What the reader lets pass has this form at every depth, so the others find nothing to
refuse in it: all that is left to fail are the literals, one by one in text order, and then the
reserved paths.
-/

namespace RecordFilter

mutual

private theorem Node.Chained.checked {node : Node} (h : node.Chained) : node.Checked := by
  cases h with
  | condition c => exact .condition c
  | group hm => exact .group hm.checkChain_eq hm.checked

/-- Every group of a chained level is well chained. -/
theorem Chained.checked {level} (h : Chained level) : ∀ p ∈ level, p.Checked := by
  cases h with
  | last hn =>
      rw [List.forall_mem_singleton]
      exact .linked hn.checked
  | more hn hr =>
      rw [List.forall_mem_cons]
      exact ⟨.linked hn.checked, hr.checked⟩

end

/-- However the limit is told, what could be cast under it can be cast under some number. -/
theorem Literal.exists_levels (limit : Except Failure Int) :
    ∃ n : Nat, ∀ t l, castToken limit 0 t = .ok l → castToken (.ok n) 0 t = .ok l := by
  cases limit with
  | ok n =>
      refine ⟨n.toNat, fun t l cast => ?_⟩
      rw [castToken_eq_castWithin, Int.sub_zero] at cast
      rw [castToken_eq]
      exact cast
  | error failure =>
      refine ⟨0, fun t l cast => ?_⟩
      unfold castToken at cast
      split at cast
      · cases cast
      · next scalar =>
          rw [castToken_eq, castWithin_eq_castScalar scalar]
          exact cast

/-- All that can be wrong with the condition of a clause is that its path is reserved. -/
theorem Condition.OfClause.reserved_of_mem {n : Nat} {c : Condition} (h : c.OfClause n) {d : Defect}
    (hd : d ∈ c.defects) : ∃ suffix, Identifier.reservedSuffix? c.identifier = some suffix ∧
      d = .reservedSuffix c.identifier suffix := by
  rw [defects, h.literal.genuine.defects_eq, List.append_nil, identifierDefects,
    Identifier.fault?_eq_none_of_names h.names] at hd
  cases reserved : Identifier.reservedSuffix? c.identifier with
  | none => simp [reserved] at hd
  | some suffix =>
      simp only [reserved, List.mem_singleton] at hd
      exact ⟨suffix, rfl, hd⟩

private theorem Chained.mem_defects_of_validate {level} (h : Chained level) {failure : Failure}
    (invalid : validate level = .error failure) : ∃ found, failure = .query (.defects found) none ∧
      found ≠ [] ∧ ∀ d ∈ found, ∃ c ∈ conditionsOf level, d ∈ c.defects := by
  rw [validate, h.levelDefects_eq, ok_bind] at invalid
  split at invalid
  · cases invalid
  · next some =>
      exact ⟨_, (Except.error.inj invalid).symm, some, fun d hd => List.mem_flatMap.mp hd⟩

/-- In a stream that is read nodes and connectives alternate, at every depth, and every comparison
    has a literal. Compiling it fails only with the first literal in text order that cannot be cast,
    as a cast, or because the limit for lists cannot be told; otherwise it gives a level that
    mirrors the stream and is well chained at every depth, in which validation finds nothing but
    reserved paths. -/
theorem compileStream_of_ofText {limit : Int} {text : String} {items : List StreamItem}
    (read : StreamItem.ofText limit text = .ok items) (levels : Except Failure Int) :
    Alternates (fun t => t.kind.isLiteral = true) items ∧
    (∀ failure, compileStream levels items = .error failure →
      (∃ before t after, literalsOf items = before ++ t :: after ∧
        (∀ u ∈ before, ∃ l, Literal.castToken levels 0 u = .ok l) ∧
        Literal.castToken levels 0 t = .error failure) ∧
      (failure.IsCast ∨ levels = .error failure)) ∧
    ∀ level, compileStream levels items = .ok level →
      CompiledRun levels none items level ∧
      Predicate.checkChain level = .ok () ∧ (∀ p ∈ level, p.Checked) ∧
      ∀ failure, validate level = .error failure →
        ∃ found, failure = .query (.defects found) none ∧ found ≠ [] ∧
          ∀ d ∈ found, ∃ c ∈ conditionsOf level, ∃ suffix,
            Identifier.reservedSuffix? c.identifier = some suffix ∧
            d = .reservedSuffix c.identifier suffix := by
  obtain ⟨e, _, _, rfl, _⟩ := Grammar.exists_expression_of_ofText read
  have alternates : Alternates (fun t => t.kind.isLiteral = true) e.stream :=
    e.alternates fun t _ literal => literal
  refine ⟨alternates, fun failure failed => ?_, fun level compiled => ?_⟩
  · obtain ⟨before, t, after, whole, passed, literal, fails⟩ := alternates.exists_refused failed
    exact ⟨⟨before, t, after, whole, passed, fails⟩, Literal.isCast_of_castToken literal fails⟩
  · have run := compileStream_eq_ok_iff.mp compiled
    refine ⟨run, run.checkChain_eq, run.chained.checked, fun failure invalid => ?_⟩
    obtain ⟨found, same, some, from_conditions⟩ := run.chained.mem_defects_of_validate invalid
    obtain ⟨n, each⟩ := Literal.exists_levels levels
    have derived := e.ofDerivation (run.mono fun t c _ => each t c.literal)
    refine ⟨found, same, some, fun d hd => ?_⟩
    obtain ⟨c, hc, defect⟩ := from_conditions d hd
    exact ⟨c, hc, (derived.conditions c hc).reserved_of_mem defect⟩

/-- The stream of a query with a reserved path in a group. -/
def reservedItems : List StreamItem :=
  [.group [.comparison "a.size" .memberOf ⟨.list, some "[1]", 11, none⟩, .connective .or,
      .comparison "b" .equal ⟨.null, some "nil", 23, none⟩] (some 0),
    .connective .and, .comparison "c" .greater ⟨.number, some "2", 36, none⟩]

def reservedLevel : List Predicate :=
  [.linked (.group [
      .linked (.condition ⟨"a.size", .memberOf, .list [.number ⟨.int 1, rfl⟩]⟩) (some .or),
      .linked (.condition ⟨"b", .equal, .null⟩) none]) (some .and),
    .linked (.condition ⟨"c", .greater, .number ⟨.int 2, rfl⟩⟩) none]

/-- The path is all that is wrong with the query. -/
theorem compileStream_of_ofText_reserved :
    StreamItem.ofText 1 "(a.size in [1] or b == nil) and c > 2" = .ok reservedItems ∧
    Alternates (fun t => t.kind.isLiteral = true) reservedItems ∧
    compileStream (.ok 1) reservedItems = .ok reservedLevel ∧
    Predicate.checkChain reservedLevel = .ok () ∧ (∀ p ∈ reservedLevel, p.Checked) ∧
    validate reservedLevel = .error (.query (.defects [.reservedSuffix "a.size" "size"]) none) ∧
    ∃ c ∈ conditionsOf reservedLevel, ∃ suffix,
      Identifier.reservedSuffix? c.identifier = some suffix ∧
      Defect.reservedSuffix "a.size" "size" = .reservedSuffix c.identifier suffix := by
  have read : StreamItem.ofText 1 "(a.size in [1] or b == nil) and c > 2" = .ok reservedItems := by
    cbv
  have compiled : compileStream (.ok 1) reservedItems = .ok reservedLevel := by
    cbv
  have failed : validate reservedLevel =
      .error (.query (.defects [.reservedSuffix "a.size" "size"]) none) := by
    cbv
  obtain ⟨alternates, _, built⟩ := compileStream_of_ofText read (.ok 1)
  obtain ⟨_, chain, checked, invalid⟩ := built _ compiled
  obtain ⟨found, same, _, reserved⟩ := invalid _ failed
  cases same
  exact ⟨read, alternates, compiled, chain, checked, failed, reserved _ List.mem_cons_self⟩

end RecordFilter
