import Mathlib
import RecordFilter.Proofs.Literal.Failure
import RecordFilter.Proofs.Predicate.Refusal

/-! # Levels from streams of any form

A stream that nobody has checked can begin or end with a connective, double one or leave one out, at
any depth. It makes up a level exactly if its nodes and connectives alternate everywhere and all of
its literals can be cast. Then each node is paired with the connective behind it; otherwise what is
wrong is a literal or the form of the stream, and is told as a query that does not parse.
-/

namespace RecordFilter

variable {limit : Except Failure Int}

/-- The token can be cast to a literal. -/
def Casts (limit : Except Failure Int) (t : Token) : Prop :=
  ∃ l, Literal.castToken limit 0 t = .ok l

mutual

private theorem StreamItem.IsNode.exists_compiled {item : StreamItem}
    (h : item.IsNode (Casts limit)) :
    ∃ node, CompiledNode limit item node := by
  cases h with
  | comparison cast =>
      obtain ⟨l, hl⟩ := cast
      exact ⟨_, .condition hl⟩
  | group hi =>
      obtain ⟨members, run⟩ := hi.exists_compiled
      exact ⟨_, .group run⟩

private theorem Alternates.exists_compiled {items : List StreamItem}
    (h : Alternates (Casts limit) items) :
    ∃ level, CompiledRun limit none items level := by
  cases h with
  | last node =>
      obtain ⟨n, hn⟩ := node.exists_compiled
      exact ⟨_, .last hn⟩
  | more node rest =>
      obtain ⟨n, hn⟩ := node.exists_compiled
      obtain ⟨level, hr⟩ := rest.exists_compiled
      exact ⟨_, .more hn hr⟩

end

mutual

private theorem CompiledNode.isNode {item : StreamItem} {node : Node}
    (h : CompiledNode limit item node) :
    item.IsNode (Casts limit) := by
  cases h with
  | condition cast => exact .comparison ⟨_, cast⟩
  | group run => exact .group run.alternates

private theorem CompiledRun.alternates {link : Option Connective} {items : List StreamItem}
    {level : List Predicate} (h : CompiledRun limit link items level) :
    Alternates (Casts limit) items := by
  cases h with
  | last hn => exact .last hn.isNode
  | more hn hr => exact .more hn.isNode hr.alternates

end

theorem exists_compileStream_iff {items : List StreamItem} :
    (∃ level, compileStream limit items = .ok level) ↔ Alternates (Casts limit) items := by
  simp only [compileStream_eq_ok_iff]
  constructor
  · rintro ⟨level, run⟩
    exact run.alternates
  · exact Alternates.exists_compiled

section

variable {P Q : Token → Prop}

mutual

private theorem StreamItem.IsNode.of_literals {item : StreamItem} (h : item.IsNode P)
    (each : ∀ t ∈ item.literals, Q t) : item.IsNode Q := by
  cases h with
  | comparison => exact .comparison (each _ (List.mem_singleton.mpr rfl))
  | group hi => exact .group (hi.of_literals each)

private theorem Alternates.of_literals {items : List StreamItem} (h : Alternates P items)
    (each : ∀ t ∈ literalsOf items, Q t) : Alternates Q items := by
  cases h with
  | last node =>
      rw [literalsOf, List.forall_mem_append] at each
      exact .last (node.of_literals each.1)
  | more node rest =>
      rw [literalsOf, literalsOf, List.forall_mem_append, List.forall_mem_append] at each
      exact .more (node.of_literals each.1) (rest.of_literals each.2.2)

end

/-- The literals of a stream have a property in their places as they have it by themselves. -/
theorem alternates_iff {items : List StreamItem} :
    Alternates P items ↔ Alternates (fun _ => True) items ∧ ∀ t ∈ literalsOf items, P t := by
  constructor
  · intro h
    exact ⟨h.of_literals fun _ _ => trivial, h.literals⟩
  · rintro ⟨form, each⟩
    exact form.of_literals each

end

/-- The predicate of a node and the connective behind it. -/
def PairCompiled (limit : Except Failure Int) (pair : StreamItem × Option Connective)
    (p : Predicate) : Prop :=
  ∃ node, CompiledNode limit pair.1 node ∧ p = .linked node pair.2

theorem Pairing.ofStream_cons {item : StreamItem} {node : Node} (h : CompiledNode limit item node)
    (c : Connective) (rest : List StreamItem) :
    ofStream (item :: .connective c :: rest) = cons item (some c) (ofStream rest) := by
  cases h with
  | condition => simp [ofStream]
  | group => simp [ofStream]

theorem Pairing.ofStream_singleton {item : StreamItem} {node : Node}
    (h : CompiledNode limit item node) : ofStream [item] = ⟨[(item, none)], none⟩ := by
  cases h with
  | condition => simp [ofStream]
  | group => simp [ofStream]

private theorem CompiledRun.exists_pairs {items : List StreamItem} {level : List Predicate}
    (h : CompiledRun limit none items level) :
    ∃ pairs, Pairing.ofStream items = ⟨pairs, none⟩ ∧
      List.Forall₂ (PairCompiled limit) pairs level := by
  cases h with
  | last hn => exact ⟨_, Pairing.ofStream_singleton hn, .cons ⟨_, hn, rfl⟩ .nil⟩
  | @more _ item node c items level hn hr =>
      obtain ⟨pairs, paired, each⟩ := hr.exists_pairs
      refine ⟨(item, some c) :: pairs, ?_, .cons ⟨node, hn, rfl⟩ each⟩
      rw [Pairing.ofStream_cons hn, paired]
      rfl

private theorem Literal.refused_of_castToken {t : Token} {failure : Failure}
    (h : castToken limit 0 t = .error failure) :
    failure.isParseFailure = true ∨ limit = .error failure := by
  unfold castToken at h
  split at h
  · rcases bind_eq_error_iff.mp h with failed | ⟨n, _, failed⟩
    · exact .inr failed
    · have place := located_castWithin (n - 0).toNat t
      rw [failed] at place
      exact .inl place.within.parse
  · have place := located_castScalar t
    rw [h] at place
    exact .inl place.within.parse

/-- One of these literals fails so, or it is told that a stream has the wrong form. -/
def Blamed (limit : Except Failure Int) (literals : List Token) (failure : Failure) : Prop :=
  (∃ t ∈ literals, Literal.castToken limit 0 t = .error failure) ∨
    ∃ fault, failure = .query fault none

theorem Blamed.mono {literals literals' : List Token} {failure : Failure}
    (h : Blamed limit literals failure) (sub : literals ⊆ literals') :
    Blamed limit literals' failure := by
  rcases h with ⟨t, ht, failed⟩ | form
  · exact .inl ⟨t, sub ht, failed⟩
  · exact .inr form

private theorem Predicate.exists_fault_of_checkChain {entries : List (Node × Option Connective)}
    {failure : Failure}
    (h : checkChain (entries.map fun (node, link) => .linked node link) = .error failure) :
    ∃ fault, failure = .query fault none := by
  induction entries with
  | nil =>
      cases h
      exact ⟨_, rfl⟩
  | cons entry entries ih =>
      obtain ⟨node, link⟩ := entry
      cases link with
      | none =>
          cases entries with
          | nil => cases h
          | cons =>
              cases h
              exact ⟨_, rfl⟩
      | some c =>
          cases entries with
          | nil =>
              cases h
              exact ⟨_, rfl⟩
          | cons => exact ih h

private theorem Builder.exists_fault_of_build {b : Builder} {failure : Failure}
    (h : build.resultFrom b = .error failure) : ∃ fault, failure = .query fault none := by
  rw [Stateful.resultFrom, runFrom_build] at h
  rcases bind_eq_error_iff.mp h with failed | ⟨_, _, built⟩
  · exact Predicate.exists_fault_of_checkChain failed
  · cases built

private theorem blamed_of_unlinked {item second : StreamItem} (hs : ∀ c, second ≠ .connective c)
    {rest : List StreamItem} {b : Builder} {failure : Failure} {literals : List Token}
    (h : compileFrom limit b (item :: second :: rest) = .error failure) :
    Blamed limit literals failure := by
  obtain ⟨fault, hf⟩ : ∃ fault, compileFrom limit b (item :: second :: rest) =
    .error (.query fault none) := compileFrom_eq_error b item hs rest
  rw [hf] at h
  cases h
  exact .inr ⟨fault, rfl⟩

mutual

private theorem StreamItem.blamed_of_toNode (item : StreamItem) {failure : Failure}
    (h : item.toNode limit = .error failure) : Blamed limit item.literals failure := by
  cases item with
  | connective c =>
      cases h
      exact .inr ⟨_, rfl⟩
  | comparison identifier operator token =>
      exact .inl ⟨token, List.mem_singleton.mpr rfl, error_of_bind_pure h⟩
  | group items position =>
      rw [StreamItem.toNode_group] at h
      rcases bind_eq_error_iff.mp h with failed | ⟨level, built, grouped⟩
      · exact blamed_of_compileFrom items Builder.allLinked_empty failed
      · -- A level that was built is well chained, so it makes up a group.
        obtain ⟨run, hr, rfl⟩ :=
          (compileFrom_eq_ok_iff items Builder.allLinked_empty).mp built
        cases hr.ofLevel_eq.symm.trans grouped

private theorem blamed_of_compileFrom (items : List StreamItem) {b : Builder} (hb : b.AllLinked)
    {failure : Failure} (h : compileFrom limit b items = .error failure) :
    Blamed limit (literalsOf items) failure := by
  match items with
  | [] =>
      rw [compileFrom_nil] at h
      exact .inr (Builder.exists_fault_of_build h)
  | [item] =>
      rw [compileFrom_singleton hb] at h
      exact (item.blamed_of_toNode (error_of_bind_pure h)).mono (List.subset_append_left _ _)
  | item :: .connective c :: rest =>
      rw [compileFrom_connective hb] at h
      rcases bind_eq_error_iff.mp h with failed | ⟨node, _, failed⟩
      · exact (item.blamed_of_toNode failed).mono (List.subset_append_left _ _)
      · have others := blamed_of_compileFrom rest (Builder.allLinked_push hb node c) failed
        exact others.mono (List.subset_append_right _ _)
  | item :: .comparison identifier operator token :: rest => exact blamed_of_unlinked (by simp) h
  | item :: .group members position :: rest => exact blamed_of_unlinked (by simp) h

end

/-- Compiling succeeds exactly if nodes and connectives alternate at every depth, beginning and
    ending with a node, and every literal can be cast. Then there is one predicate for each node in
    order, with the connective behind it as its link and the level of its own items if it is a
    group. If compiling fails, one of the literals or the form of the stream is at fault, and the
    failure is that of a query that does not parse, unless it cannot be told how deep lists may be
    nested. -/
theorem compileStream_alternating (limit : Except Failure Int) (items : List StreamItem) :
    ((∃ level, compileStream limit items = .ok level) ↔ Alternates (fun _ => True) items ∧
      ∀ t ∈ literalsOf items, ∃ l, Literal.castToken limit 0 t = .ok l) ∧
    (∀ level, compileStream limit items = .ok level →
      CompiledRun limit none items level ∧ ∃ pairs, Pairing.ofStream items = ⟨pairs, none⟩ ∧
        List.Forall₂ (PairCompiled limit) pairs level) ∧
    ∀ failure, compileStream limit items = .error failure →
      ((∃ t ∈ literalsOf items, Literal.castToken limit 0 t = .error failure) ∨
        ¬ Alternates (fun _ => True) items ∧ ∃ fault, failure = .query fault none) ∧
      (failure.isParseFailure = true ∨ limit = .error failure) := by
  refine ⟨exists_compileStream_iff.trans alternates_iff, ?_, ?_⟩
  · intro level compiled
    have run := compileStream_eq_ok_iff.mp compiled
    exact ⟨run, run.exists_pairs⟩
  · intro failure failed
    have blamed := blamed_of_compileFrom items Builder.allLinked_empty failed
    constructor
    · by_cases form : Alternates (fun _ => True) items
      · obtain ⟨before, t, after, whole, _, _, refused⟩ := form.exists_refused failed
        refine .inl ⟨t, ?_, refused⟩
        rw [whole]
        exact List.mem_append_right _ List.mem_cons_self
      · exact blamed.imp_right fun fault => ⟨form, fault⟩
    · rcases blamed with ⟨t, _, refused⟩ | ⟨fault, rfl⟩
      · exact Literal.refused_of_castToken refused
      · exact .inl rfl

/-- A group with a list behind a condition, and the same group with a connective at its end. -/
theorem compileStream_alternating_group :
    let one := StreamItem.comparison "a" .equal (.plain .number 5 ['1'])
    let two := StreamItem.comparison "b" .memberOf (.plain .list 16 ['[', '2', ']'])
    let level := [Predicate.linked (.condition ⟨"a", .equal, .number ⟨.int 1, rfl⟩⟩) (some .and),
      .linked (.group
        [.linked (.condition ⟨"b", .memberOf, .list [.number ⟨.int 2, rfl⟩]⟩) none]) none]
    let fault := QueryFault.chain (.danglingConnective "OR")
    compileStream (.ok 1) [one, .connective .and, .group [two] (some 11)] = .ok level ∧
    (∃ pairs, Pairing.ofStream [one, .connective .and, .group [two] (some 11)] = ⟨pairs, none⟩ ∧
      List.Forall₂ (PairCompiled (.ok 1)) pairs level) ∧
    compileStream (.ok 1) [one, .connective .and, .group [two, .connective .or] (some 11)] =
      .error (.query fault none) ∧
    (Failure.query fault none).isParseFailure = true := by
  intro one two level fault
  have compiled : compileStream (.ok 1) [one, .connective .and, .group [two] (some 11)] =
      .ok level := by cbv
  have failed : compileStream (.ok 1)
      [one, .connective .and, .group [two, .connective .or] (some 11)] =
        .error (.query fault none) := by
    cbv
  have parse := ((compileStream_alternating _ _).2.2 _ failed).2
  exact ⟨compiled, ((compileStream_alternating _ _).2.1 _ compiled).2, failed,
    parse.resolve_right (by simp)⟩

end RecordFilter
