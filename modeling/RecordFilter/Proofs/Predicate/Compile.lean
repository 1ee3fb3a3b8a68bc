import RecordFilter.Predicate.Compile
import RecordFilter.Proofs.Predicate.Builder

/-! # What compiling a stream gives

Compiling succeeds if nodes and connectives alternate at every depth, beginning and ending with a
node, and every literal can be cast. The level has one predicate for each node, in order, linked by
the connective that follows it. The inductive relation says this without the builder.
-/

namespace RecordFilter

open Stateful

mutual

/-- A stream item and the node that it becomes. -/
inductive CompiledNode (limit : Except Failure Int) : StreamItem → Node → Prop where
  | condition {identifier operator token l} : Literal.castToken limit 0 token = .ok l →
      CompiledNode limit (.comparison identifier operator token)
        (.condition ⟨identifier, operator, l⟩)
  | group {items members position} : CompiledRun limit none items members →
      CompiledNode limit (.group items position) (.group members)

/-- A stream and the predicates that it becomes, the last of which is linked onward by `link`. -/
inductive CompiledRun (limit : Except Failure Int) :
    Option Connective → List StreamItem → List Predicate → Prop where
  | last {link item node} : CompiledNode limit item node →
      CompiledRun limit link [item] [.linked node link]
  | more {link item node c items level} : CompiledNode limit item node →
      CompiledRun limit link items level →
      CompiledRun limit link (item :: .connective c :: items) (.linked node (some c) :: level)

end

section

variable {limit : Except Failure Int}

namespace CompiledRun

theorem ne_nil {link items level} (h : CompiledRun limit link items level) : level ≠ [] := by
  cases h <;> exact List.cons_ne_nil _ _

/-- A stream that a connective divides becomes two runs, the first linked by that connective. -/
theorem exists_append {link c} {ys : List StreamItem} :
    ∀ {xs level}, CompiledRun limit link (xs ++ .connective c :: ys) level →
      ∃ l₁ l₂, level = l₁ ++ l₂ ∧ CompiledRun limit (some c) xs l₁ ∧ CompiledRun limit link ys l₂
  | [], _, h => by
      cases h with
      | last hn => cases hn
      | more hn => cases hn
  | [x], _, h => by
      cases h with
      | more hn hr => exact ⟨[_], _, rfl, .last hn, hr⟩
  | x :: y :: xs, _, h => by
      cases h with
      | more hn hr =>
          obtain ⟨l₁, l₂, rfl, first, second⟩ := exists_append hr
          exact ⟨_ :: l₁, l₂, rfl, .more hn first, second⟩

/-- A run that is linked onward goes on with another one. -/
theorem append {link c} {xs ys : List StreamItem} {l₁ l₂} :
    CompiledRun limit (some c) xs l₁ → CompiledRun limit link ys l₂ →
      CompiledRun limit link (xs ++ .connective c :: ys) (l₁ ++ l₂)
  | .last hn, second => .more hn second
  | .more hn rest, second => .more hn (append rest second)

end CompiledRun

section

variable {limit' : Except Failure Int}

mutual

theorem CompiledNode.mono {item node} (h : CompiledNode limit item node)
    (each : ∀ t, ∀ c ∈ node.conditions, Literal.castToken limit 0 t = .ok c.literal →
      Literal.castToken limit' 0 t = .ok c.literal) : CompiledNode limit' item node := by
  cases h with
  | condition cast => exact .condition (each _ _ (List.mem_singleton.mpr rfl) cast)
  | group hr => exact .group (hr.mono each)

/-- A level is compiled under another limit too if its literals are cast under that one. -/
theorem CompiledRun.mono {link items level} (h : CompiledRun limit link items level)
    (each : ∀ t, ∀ c ∈ conditionsOf level, Literal.castToken limit 0 t = .ok c.literal →
      Literal.castToken limit' 0 t = .ok c.literal) : CompiledRun limit' link items level := by
  cases h with
  | last hn => exact .last (hn.mono fun t c hc => each t c (List.mem_append_left _ hc))
  | more hn hr =>
      exact .more (hn.mono fun t c hc => each t c (List.mem_append_left _ hc))
        (hr.mono fun t c hc => each t c (List.mem_append_right _ hc))

end

end

namespace Predicate

theorem checkChain_cons (node : Node) (c : Connective) {rest} (h : rest ≠ []) :
    checkChain (.linked node (some c) :: rest) = checkChain rest := by
  cases rest with
  | nil => exact absurd rfl h
  | cons p rest => rfl

theorem checkChain_linked_append {entries : List (Node × Option Connective)}
    (h : ∀ entry ∈ entries, entry.2 ≠ none) {rest} (hr : rest ≠ []) :
    checkChain (entries.map (fun (node, link) => .linked node link) ++ rest) = checkChain rest := by
  induction entries with
  | nil => rfl
  | cons entry entries ih =>
      obtain ⟨node, link⟩ := entry
      rw [List.forall_mem_cons] at h
      obtain ⟨c, rfl⟩ := Option.ne_none_iff_exists'.mp h.1
      rw [List.map_cons, List.cons_append,
        checkChain_cons _ _ (List.append_ne_nil_of_right_ne_nil _ hr), ih h.2]

theorem checkChain_predicates_append {b : Builder} (h : b.AllLinked) {rest} (hr : rest ≠ []) :
    checkChain (b.predicates ++ rest) = checkChain rest :=
  checkChain_linked_append (fun entry he => h.linked entry.2 (List.of_mem_zip he).2) hr

theorem checkChain_last (node : Node) : checkChain [.linked node none] = .ok () := rfl

theorem checkChain_predicates_ne_ok {b : Builder} (h : b.AllLinked) :
    checkChain b.predicates ≠ .ok () := by
  have linked : ∀ entry ∈ b.entries, entry.2 ≠ none :=
    fun entry he => h.linked entry.2 (List.of_mem_zip he).2
  rw [Builder.predicates]
  rcases List.eq_nil_or_concat b.entries with none | ⟨before, ⟨node, link⟩, whole⟩
  · rw [none]
    intro hc
    cases hc
  · rw [List.concat_eq_append] at whole
    rw [whole, List.forall_mem_append] at linked
    obtain ⟨c, rfl⟩ := Option.ne_none_iff_exists'.mp (linked.2 (node, link) List.mem_cons_self)
    rw [whole, List.map_append, List.map_singleton,
      checkChain_linked_append linked.1 (List.cons_ne_nil _ _)]
    intro hc
    cases hc

end Predicate

theorem Builder.build_eq_ok_iff {b : Builder} {level} : build.resultFrom b = .ok level ↔
    Predicate.checkChain b.predicates = .ok () ∧ level = b.predicates := by
  rw [resultFrom, runFrom_build, bind_eq_ok_iff]
  constructor
  · rintro ⟨⟨⟩, hc, hp⟩
    exact ⟨hc, (pure_eq_ok_iff.mp hp).symm⟩
  · rintro ⟨hc, rfl⟩
    exact ⟨(), hc, rfl⟩

theorem Builder.build_push {b : Builder} (h : b.AllLinked) (node : Node) :
    build.resultFrom (b.push node none) = .ok (b.predicates ++ [.linked node none]) := by
  rw [build_eq_ok_iff, predicates_push h.paired,
    Predicate.checkChain_predicates_append h (List.cons_ne_nil _ _), Predicate.checkChain_last]
  exact ⟨rfl, rfl⟩

theorem CompiledRun.checkChain_eq {items level} (h : CompiledRun limit none items level) :
    Predicate.checkChain level = .ok () := by
  induction level generalizing items with
  | nil => exact absurd rfl h.ne_nil
  | cons p rest ih =>
      cases h with
      | last hn => exact Predicate.checkChain_last _
      | more hn hr => rw [Predicate.checkChain_cons _ _ hr.ne_nil, ih hr]

/-- A level that is built makes up a group. -/
theorem CompiledRun.ofLevel_eq {items level} (h : CompiledRun limit none items level) :
    Node.ofLevel level = .ok (.group level) := by
  rw [Node.ofLevel, h.checkChain_eq]
  rfl

/-- What is built of a stream behind what a builder holds already. -/
def compileFrom (limit : Except Failure Int) (b : Builder) (items : List StreamItem) :
    Except Failure (List Predicate) :=
  (addStream limit items >>= fun _ => Builder.build).resultFrom b

theorem StreamItem.toNode_group (items : List StreamItem) (position : Option Int) :
    (StreamItem.group items position).toNode limit =
      compileFrom limit .empty items >>= Node.ofLevel := by
  rw [StreamItem.toNode]
  rfl

theorem compileFrom_nil (b : Builder) :
    compileFrom limit b [] = Builder.build.resultFrom b := by
  rw [compileFrom, addStream, pure_bind]

theorem compileFrom_singleton {b : Builder} (h : b.AllLinked) (item : StreamItem) :
    compileFrom limit b [item] = do
      return b.predicates ++ [.linked (← item.toNode limit) none] := by
  rw [compileFrom, addStream, resultFrom, bind_assoc, runFrom_lift_bind]
  cases item.toNode limit with
  | error failure => rfl
  | ok node =>
      simp only [runFrom_bind_of_ok (Builder.runFrom_add_of_open h.isOpen node)]
      exact Builder.build_push h node

theorem compileFrom_connective {b : Builder} (h : b.AllLinked) (item : StreamItem)
    (c : Connective) (rest : List StreamItem) :
    compileFrom limit b (item :: .connective c :: rest) =
      item.toNode limit >>= fun node => compileFrom limit (b.push node (some c)) rest := by
  have added : addStream limit (item :: .connective c :: rest) =
      liftM (item.toNode limit) >>= fun node => Builder.add node >>= fun _ =>
        Builder.link c >>= fun _ => addStream limit rest := by
    cases item with
    | connective d => rfl
    | comparison identifier operator token => rw [addStream]; simp
    | group items position => rw [addStream]; simp
  rw [compileFrom, added, resultFrom, bind_assoc, runFrom_lift_bind]
  cases item.toNode limit with
  | error failure => rfl
  | ok node =>
      simp only [bind_assoc, runFrom_bind_of_ok (Builder.runFrom_add_of_open h.isOpen node),
        runFrom_bind_of_ok (Builder.runFrom_link_push b node c)]
      rfl

theorem compileFrom_eq_error (b : Builder) (item : StreamItem) {second : StreamItem}
    (hs : ∀ c, second ≠ .connective c) (rest : List StreamItem) :
    ∃ fault, compileFrom limit b (item :: second :: rest) = .error (.query fault none) := by
  cases item with
  | connective d => exact ⟨_, rfl⟩
  | comparison identifier operator token =>
      cases second with
      | connective c => exact absurd rfl (hs c)
      | comparison => exact ⟨_, rfl⟩
      | group => exact ⟨_, rfl⟩
  | group items position =>
      cases second with
      | connective c => exact absurd rfl (hs c)
      | comparison => exact ⟨_, rfl⟩
      | group => exact ⟨_, rfl⟩

/-- Two nodes without a connective between them make up no level. -/
theorem not_connective_iff {b : Builder} (item : StreamItem) {second : StreamItem}
    (hs : ∀ c, second ≠ .connective c) (rest : List StreamItem) {level} :
    compileFrom limit b (item :: second :: rest) = .ok level ↔
      ∃ run, CompiledRun limit none (item :: second :: rest) run ∧ level = b.predicates ++ run := by
  obtain ⟨fault, hf⟩ : ∃ fault, compileFrom limit b (item :: second :: rest) =
    .error (.query fault none) := compileFrom_eq_error b item hs rest
  rw [hf]
  constructor
  · intro h
    cases h
  · rintro ⟨run, hr, _⟩
    cases hr with
    | more => exact absurd rfl (hs _)

mutual

theorem toNode_eq_ok_iff (item : StreamItem) {node : Node} :
    item.toNode limit = .ok node ↔ CompiledNode limit item node := by
  cases item with
  | connective c =>
      constructor
      · intro h
        simp [StreamItem.toNode] at h
      · intro h
        cases h
  | comparison identifier operator token =>
      rw [StreamItem.toNode, bind_eq_ok_iff]
      constructor
      · rintro ⟨l, hl, hn⟩
        cases hn
        exact .condition hl
      · intro h
        cases h with
        | condition hl => exact ⟨_, hl, rfl⟩
  | group items position =>
      rw [StreamItem.toNode_group, bind_eq_ok_iff]
      constructor
      · rintro ⟨level, built, grouped⟩
        obtain ⟨run, hr, rfl⟩ :=
          (compileFrom_eq_ok_iff items Builder.allLinked_empty).mp built
        cases (CompiledRun.ofLevel_eq hr).symm.trans grouped
        exact .group hr
      · intro h
        cases h with
        | @group _ members _ hr =>
            exact ⟨members, (compileFrom_eq_ok_iff items Builder.allLinked_empty).mpr
              ⟨members, hr, rfl⟩, hr.ofLevel_eq⟩

theorem compileFrom_eq_ok_iff (items : List StreamItem) {b : Builder} (h : b.AllLinked) {level} :
    compileFrom limit b items = .ok level ↔
      ∃ run, CompiledRun limit none items run ∧ level = b.predicates ++ run := by
  match items with
  | [] =>
      constructor
      · intro hb
        rw [compileFrom_nil] at hb
        exact absurd (Builder.build_eq_ok_iff.mp hb).1 (Predicate.checkChain_predicates_ne_ok h)
      · rintro ⟨run, hr, _⟩
        cases hr
  | [item] =>
      rw [compileFrom_singleton h, bind_eq_ok_iff]
      constructor
      · rintro ⟨node, hn, hl⟩
        exact ⟨_, .last ((toNode_eq_ok_iff item).mp hn), (pure_eq_ok_iff.mp hl).symm⟩
      · rintro ⟨run, hr, hl⟩
        cases hr with
        | last hn => exact ⟨_, (toNode_eq_ok_iff item).mpr hn, pure_eq_ok_iff.mpr hl.symm⟩
  | item :: .connective c :: rest =>
      rw [compileFrom_connective h, bind_eq_ok_iff]
      constructor
      · rintro ⟨node, hn, hb⟩
        obtain ⟨run, hr, hl⟩ :=
          (compileFrom_eq_ok_iff rest (Builder.allLinked_push h node c)).mp hb
        refine ⟨_, .more ((toNode_eq_ok_iff item).mp hn) hr, ?_⟩
        rw [hl, Builder.predicates_push h.paired, List.append_assoc, List.singleton_append]
      · rintro ⟨run, hr, hl⟩
        cases hr with
        | @more _ _ node _ _ run hn hr =>
            refine ⟨node, (toNode_eq_ok_iff item).mpr hn, ?_⟩
            apply (compileFrom_eq_ok_iff rest (Builder.allLinked_push h node c)).mpr
            refine ⟨run, hr, ?_⟩
            rw [hl, Builder.predicates_push h.paired, List.append_assoc, List.singleton_append]
  | item :: .comparison identifier operator token :: rest =>
      exact not_connective_iff item (by simp) rest
  | item :: .group members position :: rest =>
      exact not_connective_iff item (by simp) rest

end

/-- Compiling succeeds exactly on streams whose nodes and connectives alternate, beginning and
    ending with a node, and gives one linked predicate for each node. -/
theorem compileStream_eq_ok_iff {items level} :
    compileStream limit items = .ok level ↔ CompiledRun limit none items level := by
  constructor
  · intro hc
    obtain ⟨run, hr, hl⟩ := (compileFrom_eq_ok_iff items Builder.allLinked_empty).mp hc
    rw [hl]
    exact hr
  · intro hr
    exact (compileFrom_eq_ok_iff items Builder.allLinked_empty).mpr ⟨level, hr, rfl⟩

end

end RecordFilter
