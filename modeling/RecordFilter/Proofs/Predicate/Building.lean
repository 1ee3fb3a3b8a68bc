import Mathlib
import RecordFilter.Proofs.Predicate.Compile

/-! # Builders in use

Several builders are asked one thing after another, and any of it may fail. What a call needs is
said by the state of its builder, and whatever fails does so before the first change. So a builder
holds what was added to it by the calls that did not fail, in order and nothing else, and that is
what it builds.
-/

namespace RecordFilter

mutual

/-- Every group in the node is well chained. -/
inductive Node.Checked : Node → Prop where
  | condition (c : Condition) : Node.Checked (.condition c)
  | group {members : List Predicate} : Predicate.checkChain members = .ok () →
      (∀ p ∈ members, Predicate.Checked p) → Node.Checked (.group members)
  | foreign (v : Value) : Node.Checked (.foreign v)

/-- Every group in the predicate is well chained. -/
inductive Predicate.Checked : Predicate → Prop where
  | linked {node : Node} {link : Option Connective} : Node.Checked node →
      Predicate.Checked (.linked node link)
  | foreign (v : Value) : Predicate.Checked (.foreign v)

end

/-- The groups that the call brings along have been checked when they were made. -/
def BuilderCall.Checked : BuilderCall → Prop
  | .add node => node.Checked
  | .addGroup members => ∀ p ∈ members, p.Checked
  | _ => True

/-- What a builder is given at a time. -/
inductive Addition where
  | node (node : Node)
  | link (c : Connective)

/-- How the predicate was added. -/
def Predicate.additions : Predicate → List Addition
  | .linked node link => .node node :: (link.map .link).toList
  | .foreign _ => []

theorem Node.ofLevel_eq_ok_iff {members : List Predicate} {node : Node} :
    Node.ofLevel members = .ok node ↔
      Predicate.checkChain members = .ok () ∧ node = .group members := by
  rw [Node.ofLevel, bind_eq_ok_iff]
  constructor
  · rintro ⟨_, chained, made⟩
    exact ⟨chained, (pure_eq_ok_iff.mp made).symm⟩
  · rintro ⟨chained, rfl⟩
    exact ⟨(), chained, rfl⟩

open Stateful

namespace Builder

def additions (b : Builder) : List Addition := b.predicates.flatMap Predicate.additions

/-- Each node has its operator, all of them but the last are set, and the builder holds what was
    added to it. -/
structure Sound (b : Builder) (history : List Addition) : Prop where
  paired : b.operators.length = b.nodes.length
  linked : ∀ link ∈ b.operators.dropLast, link ≠ none
  checked : ∀ node ∈ b.nodes, node.Checked
  additions : b.additions = history

theorem additions_push {b : Builder} (h : b.AllLinked) (node : Node) (link : Option Connective) :
    (b.push node link).additions = b.additions ++ .node node :: (link.map .link).toList := by
  rw [additions, predicates_push h.paired, List.flatMap_append, List.flatMap_singleton]
  rfl

theorem sound_empty : empty.Sound [] where
  paired := rfl
  linked := fun _ none => absurd none List.not_mem_nil
  checked := fun _ none => absurd none List.not_mem_nil
  additions := rfl

theorem sound_push {b : Builder} (h : b.AllLinked) (checked : ∀ node ∈ b.nodes, node.Checked)
    {node : Node} (hn : node.Checked) (link : Option Connective) :
    (b.push node link).Sound (b.additions ++ .node node :: (link.map .link).toList) where
  paired := paired_push h.paired node link
  linked := by
    rw [push, List.dropLast_concat]
    exact h.linked
  checked := List.forall_mem_append.mpr ⟨checked, List.forall_mem_singleton.mpr hn⟩
  additions := additions_push h node link

variable {b : Builder} {history : List Addition}

/-- Either every node is linked, or every node but the last. -/
theorem Sound.allLinked_or_push (h : b.Sound history) :
    b.AllLinked ∨ ∃ before node, AllLinked before ∧ b = before.push node none := by
  obtain ⟨nodes, operators⟩ := b
  have paired := h.paired
  have linked := h.linked
  rcases List.eq_nil_or_concat operators with rfl | ⟨links, link, rfl⟩
  · exact .inl ⟨paired, fun _ none => absurd none List.not_mem_nil⟩
  · rw [List.concat_eq_append] at paired linked ⊢
    rw [List.dropLast_concat] at linked
    cases link with
    | some c =>
        exact .inl ⟨paired, List.forall_mem_append.mpr
          ⟨linked, List.forall_mem_singleton.mpr (Option.some_ne_none c)⟩⟩
    | none =>
        right
        -- There are as many nodes as operators, so the last operator is that of the last node.
        rcases List.eq_nil_or_concat nodes with rfl | ⟨before, node, rfl⟩
        · rw [List.length_append] at paired
          cases paired
        · rw [List.concat_eq_append] at paired ⊢
          rw [List.length_append, List.length_append] at paired
          exact ⟨⟨before, links⟩, node, ⟨Nat.add_right_cancel paired, linked⟩, rfl⟩

/-- What comes of an operation for which the builder has to be `ready`: it succeeds and leaves a
    builder of which `P` holds, or it fails and leaves the builder as it was. -/
inductive Outcome (b : Builder) (ready : Prop) (P : Builder → Prop) :
    Except Failure Unit × Builder → Prop where
  | done {b' : Builder} : ready → P b' → Outcome b ready P (.ok (), b')
  | failed {failure : Failure} : ¬ready → Outcome b ready P (.error failure, b)

theorem outcome_add (h : b.Sound history) (node : Node) :
    b.Outcome b.Open (fun b' => node.Checked → b'.Sound (history ++ [.node node]))
      ((add node).runFrom b) := by
  rcases h.allLinked_or_push with linked | ⟨before, last, _, rfl⟩
  · rw [runFrom_add_of_open linked.isOpen]
    refine .done linked.isOpen fun checked => ?_
    rw [← h.additions]
    exact sound_push linked h.checked checked none
  · have closed := before.closed_push last
    rw [runFrom_add_of_closed closed]
    exact .failed fun opened => not_closed_of_open opened closed

private theorem outcome_link (h : b.Sound history) (c : Connective) :
    b.Outcome b.Closed (·.Sound (history ++ [.link c])) ((link c).runFrom b) := by
  rcases h.allLinked_or_push with linked | ⟨before, last, linked, rfl⟩
  · rw [runFrom_link_of_open linked.isOpen]
    exact .failed (not_closed_of_open linked.isOpen)
  · rw [runFrom_link_push]
    refine .done (before.closed_push last) ?_
    have checked := List.forall_mem_append.mp h.checked
    rw [← h.additions, additions_push linked, List.append_assoc]
    exact sound_push linked checked.1 (checked.2 last List.mem_cons_self) (some c)

/-- A node that cannot be made is not added. -/
theorem outcome_add_lift {α : Type} (h : b.Sound history) (made : Except Failure α)
    (node : α → Node) :
    b.Outcome ((∃ a, made = .ok a) ∧ b.Open)
      (fun b' => ∀ a, made = .ok a → (node a).Checked → b'.Sound (history ++ [.node (node a)]))
      ((liftM made >>= fun a => add (node a)).runFrom b) := by
  rw [runFrom_add_lift]
  cases made with
  | error failure =>
      refine .failed ?_
      rintro ⟨⟨_, made⟩, _⟩
      cases made
  | ok a =>
      have outcome := outcome_add h (node a)
      change b.Outcome _ _ ((add (node a)).runFrom b)
      generalize (add (node a)).runFrom b = after at outcome
      cases outcome with
      | done opened sound =>
          refine .done ⟨⟨a, rfl⟩, opened⟩ fun made same checked => ?_
          cases same
          exact sound checked
      | failed closed => exact .failed fun ready => closed ready.2

theorem exists_build_iff (h : b.Sound history) :
    (∃ level, build.resultFrom b = .ok level) ↔ b.Closed := by
  rcases h.allLinked_or_push with linked | ⟨before, last, linked, rfl⟩
  · refine iff_of_false ?_ (not_closed_of_open linked.isOpen)
    rintro ⟨level, built⟩
    exact Predicate.checkChain_predicates_ne_ok linked (build_eq_ok_iff.mp built).1
  · exact iff_of_true ⟨_, build_push linked last⟩ (before.closed_push last)

/-- What is built is well chained at every depth, and is what was added. -/
theorem Sound.level (h : b.Sound history) {level : List Predicate}
    (built : build.resultFrom b = .ok level) :
    Predicate.checkChain level = .ok () ∧ (∀ p ∈ level, p.Checked) ∧
      level.flatMap Predicate.additions = history := by
  obtain ⟨chained, rfl⟩ := build_eq_ok_iff.mp built
  refine ⟨chained, ?_, h.additions⟩
  intro p hp
  obtain ⟨⟨node, link⟩, entry, rfl⟩ := List.mem_map.mp hp
  exact .linked (h.checked node (List.of_mem_zip entry).1)

end Builder

private theorem lookup_cons_ite {α : Type} (name key : String) (v : α)
    (entries : List (String × α)) :
    ((key, v) :: entries).lookup name = if name = key then some v else entries.lookup name := by
  rw [List.lookup_cons]
  by_cases same : name = key
  · rw [if_pos same, beq_iff_eq.mpr same]
  · rw [if_neg same, beq_false_of_ne same]

private theorem lookup_putEntry {α : Type} (key : String) (v : α) (entries : List (String × α))
    (name : String) :
    (putEntry key v entries).lookup name =
      if name = key then some v else entries.lookup name := by
  induction entries with
  | nil => exact lookup_cons_ite name key v []
  | cons entry entries ih =>
      obtain ⟨k, old⟩ := entry
      by_cases same : k = key
      · subst same
        rw [putEntry, if_pos rfl, lookup_cons_ite, lookup_cons_ite]
        split <;> rfl
      · rw [putEntry, if_neg same, lookup_cons_ite, lookup_cons_ite, ih]
        split
        · next here =>
            subst here
            rw [if_neg same]
        · rfl

/-- What the call adds to its builder if it succeeds. -/
def BuilderCall.additions (w : Workbench) : BuilderCall → List Addition
  | .add node => [.node node]
  | .addCondition identifier operator v =>
      match Condition.ofText identifier operator v with
      | .ok c => [.node (.condition c)]
      | .error _ => []
  | .link c => [.link c]
  | .addGroupOf source =>
      match Builder.build.resultFrom (w.get source) with
      | .ok level => [.node (.group level)]
      | .error _ => []
  | .addGroup members => [.node (.group members)]
  | .build => []

namespace Workbench

/-- When a call on the builder of a name succeeds. -/
def Allows (w : Workbench) (name : String) : BuilderCall → Prop
  | .add _ => (w.get name).Open
  | .addCondition identifier operator v =>
      (∃ c, Condition.ofText identifier operator v = .ok c) ∧ (w.get name).Open
  | .link _ => (w.get name).Closed
  | .addGroupOf source => (w.get source).Closed ∧ (w.get name).Open
  | .addGroup members => Predicate.checkChain members = .ok () ∧ (w.get name).Open
  | .build => (w.get name).Closed

/-- The builders after one call after the other. -/
def run (w : Workbench) : List (String × BuilderCall) → Workbench
  | [] => w
  | (name, c) :: calls => run ((call name c).runFrom w).2 calls

/-- What the call on the builder of a name adds to the builder that is looked at. -/
def added (w : Workbench) (name : String) (c : BuilderCall) (looked : String) : List Addition :=
  if looked = name ∧ ((call name c).runFrom w).1.isOk then c.additions w else []

/-- What the calls that succeed add to the builder that is looked at, in order. -/
def history (w : Workbench) (looked : String) : List (String × BuilderCall) → List Addition
  | [] => []
  | (name, c) :: calls =>
      w.added name c looked ++ history ((call name c).runFrom w).2 looked calls

/-- Every builder is sound for what was added to it. -/
def Sound (w : Workbench) (past : String → List Addition) : Prop :=
  ∀ name, (w.get name).Sound (past name)

variable {w : Workbench} {past : String → List Addition} {name : String}

theorem get_putEntry (w : Workbench) (name : String) (b : Builder) (looked : String) :
    get (putEntry name b w) looked = if looked = name then b else w.get looked := by
  rw [get, lookup_putEntry]
  split <;> rfl

theorem get_putEntry_self (w : Workbench) (name looked : String) :
    get (putEntry name (w.get name) w) looked = w.get looked := by
  rw [get_putEntry]
  split
  · next here => rw [here]
  · rfl

/-- What comes of a call for which the builders have to be `ready`: it succeeds and leaves builders
    of which `P` holds, or it fails and leaves every builder as it was. -/
inductive Outcome (w : Workbench) (ready : Prop) (P : Workbench → Prop) :
    Except Failure BuilderAnswer × Workbench → Prop where
  | done {answer : BuilderAnswer} {w' : Workbench} : ready → P w' →
      Outcome w ready P (.ok answer, w')
  | failed {failure : Failure} {w' : Workbench} : ¬ready → (∀ looked, w'.get looked = w.get looked) →
      Outcome w ready P (.error failure, w')

theorem Outcome.imp {ready ready' : Prop} {P Q : Workbench → Prop}
    {after : Except Failure BuilderAnswer × Workbench} (h : w.Outcome ready P after)
    (iff : ready ↔ ready') (imp : ∀ w', ready → P w' → Q w') : w.Outcome ready' Q after := by
  cases h with
  | done holds left => exact .done (iff.mp holds) (imp _ holds left)
  | failed fails same => exact .failed (fun holds => fails (iff.mpr holds)) same

theorem Outcome.congr {w₁ : Workbench} {ready : Prop} {P : Workbench → Prop}
    {after : Except Failure BuilderAnswer × Workbench} (h : w₁.Outcome ready P after)
    (same : ∀ looked, w₁.get looked = w.get looked) : w.Outcome ready P after := by
  cases h with
  | done holds left => exact .done holds left
  | failed fails unchanged => exact .failed fails fun looked => (unchanged looked).trans (same looked)

theorem Outcome.exists_ok_iff {ready : Prop} {P : Workbench → Prop}
    {after : Except Failure BuilderAnswer × Workbench} (h : w.Outcome ready P after) :
    (∃ answer, after.1 = .ok answer) ↔ ready := by
  cases h with
  | done holds => exact iff_of_true ⟨_, rfl⟩ holds
  | failed fails => exact iff_of_false (by simp) fails

theorem Outcome.get_of_error {ready : Prop} {P : Workbench → Prop} {failure : Failure}
    {after : Except Failure BuilderAnswer × Workbench} (h : w.Outcome ready P after)
    (fails : after.1 = .error failure) (looked : String) :
    after.2.get looked = w.get looked := by
  cases h with
  | done => cases fails
  | failed _ same => exact same looked

/-- The past of the builders, and what is added to the one of a name. -/
def pastWith (past : String → List Addition) (name : String) (more : List Addition) :
    String → List Addition :=
  fun looked => past looked ++ if looked = name then more else []

theorem runFrom_on {α : Type} (w : Workbench) (name : String) (work : Stateful Builder α) :
    (on name work).runFrom w =
      ((work.runFrom (w.get name)).1, putEntry name (work.runFrom (w.get name)).2 w) := rfl

/-- What comes of an operation on one builder comes of the call that makes it. -/
theorem outcome_change {work : Stateful Builder Unit} {ready : Prop} {P : Builder → Prop}
    (outcome : (w.get name).Outcome ready P (work.runFrom (w.get name))) :
    w.Outcome ready
      (fun w' => P (w'.get name) ∧ ∀ looked, looked ≠ name → w'.get looked = w.get looked)
      ((change name work).runFrom w) := by
  have changed := w.runFrom_on name work
  generalize work.runFrom (w.get name) = after at outcome changed
  cases outcome with
  | @done b holds left =>
      rw [change, runFrom_bind_of_ok changed]
      refine .done holds ⟨?_, fun looked apart => ?_⟩
      · rwa [get_putEntry, if_pos rfl]
      · rw [get_putEntry, if_neg apart]
  | failed fails =>
      rw [change, runFrom_bind_of_error changed]
      exact .failed fails (w.get_putEntry_self name)

theorem Sound.with {w' : Workbench} (h : w.Sound past) {more : List Addition}
    (here : (w'.get name).Sound (past name ++ more))
    (others : ∀ looked, looked ≠ name → w'.get looked = w.get looked) :
    w'.Sound (pastWith past name more) := by
  intro looked
  rw [pastWith]
  by_cases same : looked = name
  · rw [if_pos same, same]
    exact here
  · rw [if_neg same, List.append_nil, others looked same]
    exact h looked

/-- Building changes no builder. -/
theorem runFrom_on_build (w : Workbench) (name : String) :
    (on name Builder.build).runFrom w =
      (Builder.build.resultFrom (w.get name), putEntry name (w.get name) w) := by
  have unchanged : Builder.build.runFrom (w.get name) =
      (Builder.build.resultFrom (w.get name), w.get name) := by
    rw [resultFrom, Builder.runFrom_build]
  rw [runFrom_on, unchanged]

theorem runFrom_call_build (w : Workbench) (name : String) :
    (call name .build).runFrom w =
      ((do return .level (← Builder.build.resultFrom (w.get name))),
        putEntry name (w.get name) w) := by
  rw [call]
  cases built : Builder.build.resultFrom (w.get name) with
  | ok level => exact runFrom_bind_of_ok (built ▸ w.runFrom_on_build name) _
  | error failure => exact runFrom_bind_of_error (built ▸ w.runFrom_on_build name) _

private theorem outcome_addGroup (h : w.Sound past) (name : String) (members : List Predicate) :
    w.Outcome (Predicate.checkChain members = .ok () ∧ (w.get name).Open)
      (fun w' => (∀ p ∈ members, p.Checked) →
        w'.Sound (pastWith past name [.node (.group members)]))
      ((change name (Builder.addGroup members)).runFrom w) := by
  have outcome := outcome_change (Builder.outcome_add_lift (h name) (Node.ofLevel members) id)
  refine outcome.imp (and_congr_left fun _ => ?_) ?_
  · simp only [Node.ofLevel_eq_ok_iff, exists_and_left, exists_eq, and_true]
  · rintro w' ⟨⟨node, made⟩, _⟩ ⟨here, others⟩ checked
    obtain ⟨chained, rfl⟩ := Node.ofLevel_eq_ok_iff.mp made
    exact h.with (here _ made (.group chained checked)) others

/-- A call succeeds if and only if it is allowed, and adds to its builder what it is about. -/
theorem outcome_call (h : w.Sound past) (name : String) (c : BuilderCall) :
    w.Outcome (w.Allows name c)
      (fun w' => c.Checked → w'.Sound (pastWith past name (c.additions w)))
      ((call name c).runFrom w) := by
  cases c with
  | add node =>
      exact (outcome_change (Builder.outcome_add (h name) node)).imp .rfl
        fun _ _ left checked => h.with (left.1 checked) left.2
  | addCondition identifier operator v =>
      have outcome := outcome_change (Builder.outcome_add_lift (h name)
        (Condition.ofText identifier operator v) .condition)
      refine outcome.imp .rfl ?_
      rintro w' ⟨⟨c, made⟩, _⟩ ⟨here, others⟩ _
      rw [BuilderCall.additions, made]
      exact h.with (here c made (.condition c)) others
  | link c =>
      exact (outcome_change (Builder.outcome_link (h name) c)).imp .rfl
        fun _ _ left _ => h.with left.1 left.2
  | addGroupOf source =>
      have unchanged := w.get_putEntry_self source
      rw [call, Allows, ← Builder.exists_build_iff (h source)]
      cases built : Builder.build.resultFrom (w.get source) with
      | error failure =>
          rw [runFrom_bind_of_error (built ▸ w.runFrom_on_build source)]
          refine .failed ?_ unchanged
          rintro ⟨⟨_, made⟩, _⟩
          cases made
      | ok level =>
          rw [runFrom_bind_of_ok (built ▸ w.runFrom_on_build source)]
          have still : Sound (putEntry source (w.get source) w) past := by
            intro looked
            rw [unchanged]
            exact h looked
          obtain ⟨chained, members, _⟩ := (h source).level built
          refine ((outcome_addGroup still name level).congr unchanged).imp ?_ ?_
          · rw [unchanged]
            exact and_congr_left fun _ => iff_of_true chained ⟨level, rfl⟩
          · intro w' _ left _
            rw [BuilderCall.additions, built]
            exact left members
  | addGroup members => exact outcome_addGroup h name members
  | build =>
      rw [runFrom_call_build, Allows, ← Builder.exists_build_iff (h name)]
      cases built : Builder.build.resultFrom (w.get name) with
      | error failure =>
          refine .failed ?_ (w.get_putEntry_self name)
          rintro ⟨_, made⟩
          cases made
      | ok level =>
          refine .done ⟨level, rfl⟩ fun _ looked => ?_
          rw [pastWith, BuilderCall.additions, ite_self, List.append_nil, get_putEntry_self]
          exact h looked

private theorem Sound.call (h : w.Sound past) {c : BuilderCall} (checked : c.Checked)
    (name : String) :
    ((Workbench.call name c).runFrom w).2.Sound fun looked =>
      past looked ++ w.added name c looked := by
  have outcome := outcome_call h name c
  simp only [added]
  generalize (Workbench.call name c).runFrom w = after at outcome ⊢
  cases outcome with
  | done holds left =>
      simp only [Except.isOk, Except.toBool, and_true]
      exact left checked
  | failed fails same =>
      intro looked
      simp only [Except.isOk, Except.toBool, Bool.false_eq_true, and_false, if_false,
        List.append_nil, same]
      exact h looked

theorem sound_nil : Sound [] fun _ => [] := fun _ => Builder.sound_empty

private theorem Sound.run {calls : List (String × BuilderCall)} (h : w.Sound past)
    (checked : ∀ call ∈ calls, call.2.Checked) :
    (w.run calls).Sound fun looked => past looked ++ w.history looked calls := by
  -- The builders that are left by the first call are sound for a longer past.
  induction calls generalizing w past with
  | nil =>
      simp only [run, history, List.append_nil]
      exact h
  | cons call calls ih =>
      obtain ⟨name, c⟩ := call
      rw [List.forall_mem_cons] at checked
      simp only [run, history, ← List.append_assoc]
      exact ih (h.call checked.1 name) checked.2

/-- After any calls on any builders, each builder has an operator for each node, with all but the
    last one set, and holds what the calls that succeeded have added to it. The next call then
    succeeds if and only if its builder is open or closed as it has to be; if it fails, every
    builder is as before, and so it is when a level is built. A level that is built is what has been
    added to its builder, and it and every group in it is well chained. -/
theorem sound_run {calls : List (String × BuilderCall)}
    (checked : ∀ call ∈ calls, call.2.Checked) :
    (∀ name, ((run [] calls).get name).Sound (history [] name calls)) ∧
    ∀ name c,
      ((∃ answer, ((call name c).runFrom (run [] calls)).1 = .ok answer) ↔
        (run [] calls).Allows name c) ∧
      (∀ failure, ((call name c).runFrom (run [] calls)).1 = .error failure →
        ∀ looked, ((call name c).runFrom (run [] calls)).2.get looked = (run [] calls).get looked) ∧
      (∀ looked, ((call name .build).runFrom (run [] calls)).2.get looked =
        (run [] calls).get looked) ∧
      ∀ level, ((call name .build).runFrom (run [] calls)).1 = .ok (.level level) →
        Predicate.checkChain level = .ok () ∧ (∀ p ∈ level, p.Checked) ∧
        level.flatMap Predicate.additions = history [] name calls := by
  have sound : (run [] calls).Sound fun name => history [] name calls := sound_nil.run checked
  refine ⟨sound, fun name c => ?_⟩
  have outcome := outcome_call sound name c
  refine ⟨outcome.exists_ok_iff, fun failure => outcome.get_of_error, ?_, ?_⟩
  · intro looked
    rw [runFrom_call_build, get_putEntry_self]
  · intro level built
    rw [runFrom_call_build] at built
    obtain ⟨_, built, same⟩ := bind_eq_ok_iff.mp built
    cases same
    exact (sound name).level built

/-- A group is built apart and added. Four of the calls fail: the level is not ready to be built,
    nor to be a group; a builder is closed for its own group; and there is no such operator. -/
def nestedCalls : List (String × BuilderCall) :=
  [("inner", .addCondition "kind" "==" (.text "dog")), ("inner", .link .or), ("inner", .build),
    ("outer", .addGroupOf "inner"), ("inner", .addCondition "vip" "==" (.bool true)),
    ("inner", .addGroupOf "inner"), ("outer", .addGroupOf "inner"), ("outer", .link .and),
    ("outer", .addCondition "vip" "like" (.bool true)),
    ("outer", .add (.group [.linked (.condition ⟨"vip", .equal, .bool true⟩) none]))]

/-- What the calls build. -/
def nestedLevel : List Predicate :=
  [.linked (.group [.linked (.condition ⟨"kind", .equal, .text "dog"⟩) (some .or),
      .linked (.condition ⟨"vip", .equal, .bool true⟩) none]) (some .and),
    .linked (.group [.linked (.condition ⟨"vip", .equal, .bool true⟩) none]) none]

theorem sound_run_nested :
    (∀ call ∈ nestedCalls, call.2.Checked) ∧
    ((run [] nestedCalls).get "outer").Sound (history [] "outer" nestedCalls) ∧
    ((call "outer" .build).runFrom (run [] nestedCalls)).1 = .ok (.level nestedLevel) ∧
    Predicate.checkChain nestedLevel = .ok () ∧ (∀ p ∈ nestedLevel, p.Checked) ∧
    nestedLevel.flatMap Predicate.additions = history [] "outer" nestedCalls := by
  have checked : ∀ call ∈ nestedCalls, call.2.Checked := by
    simp only [nestedCalls, List.forall_mem_cons, BuilderCall.Checked]
    refine ⟨trivial, trivial, trivial, trivial, trivial, trivial, trivial, trivial, trivial,
      .group rfl ?_, fun _ none => absurd none List.not_mem_nil⟩
    intro p hp
    rw [List.mem_singleton.mp hp]
    exact .linked (.condition _)
  obtain ⟨sound, answers⟩ := sound_run checked
  have built : ((call "outer" .build).runFrom (run [] nestedCalls)).1 =
      .ok (.level nestedLevel) := by
    cbv
  exact ⟨checked, sound "outer", built, (answers "outer" .build).2.2.2 nestedLevel built⟩

end Workbench

end RecordFilter
