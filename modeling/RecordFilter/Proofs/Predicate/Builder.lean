import RecordFilter.Predicate.Builder
import RecordFilter.Proofs.Stateful

/-! # What a call on a builder does

A builder is open for a node at first and after every link, and a node closes it. What a call gives
and what it leaves depends on no more than that; a call that fails has not come to the point where
it changes anything.
-/

namespace RecordFilter

open Stateful

namespace Builder

/-- The builder with one more node, linked or not. -/
def push (b : Builder) (node : Node) (link : Option Connective) : Builder :=
  ⟨b.nodes ++ [node], b.operators ++ [link]⟩

/-- There is no node yet, or the last one is linked. -/
def Open (b : Builder) : Prop := b.nodes = [] ∨ ∃ c, b.operators.getLast? = some (some c)

/-- There is a node, and the last one is not linked. -/
def Closed (b : Builder) : Prop := b.nodes ≠ [] ∧ b.operators.getLast? = some none

theorem not_closed_of_open {b : Builder} (h : b.Open) : ¬ b.Closed := by
  rintro ⟨some, last⟩
  rcases h with none | ⟨c, linked⟩
  · exact some none
  · rw [last] at linked
    cases linked

theorem closed_push (b : Builder) (node : Node) : (b.push node none).Closed :=
  ⟨List.append_ne_nil_of_right_ne_nil _ (List.cons_ne_nil _ _), List.getLast?_concat⟩

/-- Every node so far is linked, so that another one can follow. -/
structure AllLinked (b : Builder) : Prop where
  paired : b.operators.length = b.nodes.length
  linked : ∀ link ∈ b.operators, link ≠ none

theorem allLinked_empty : empty.AllLinked := ⟨rfl, fun _ none => absurd none List.not_mem_nil⟩

theorem AllLinked.isOpen {b : Builder} (h : b.AllLinked) : b.Open := by
  rcases List.eq_nil_or_concat b.operators with none | ⟨before, link, whole⟩
  · left
    apply List.eq_nil_of_length_eq_zero
    rw [← h.paired, none, List.length_nil]
  · right
    rw [List.concat_eq_append] at whole
    have last := h.linked link (by rw [whole]; exact List.mem_concat_self)
    obtain ⟨c, rfl⟩ := Option.ne_none_iff_exists'.mp last
    exact ⟨c, by rw [whole, List.getLast?_concat]⟩

theorem paired_push {b : Builder} (h : b.operators.length = b.nodes.length) (node : Node)
    (link : Option Connective) :
    (b.push node link).operators.length = (b.push node link).nodes.length := by
  rw [push, List.length_append, List.length_append, h]
  rfl

theorem allLinked_push {b : Builder} (h : b.AllLinked) (node : Node) (c : Connective) :
    (b.push node (some c)).AllLinked where
  paired := paired_push h.paired node (some c)
  linked := List.forall_mem_append.mpr
    ⟨h.linked, List.forall_mem_singleton.mpr (Option.some_ne_none c)⟩

theorem predicates_push {b : Builder} (h : b.operators.length = b.nodes.length) (node : Node)
    (link : Option Connective) :
    (b.push node link).predicates = b.predicates ++ [.linked node link] := by
  rw [predicates, entries, push, List.zip_append h.symm, List.map_append]
  rfl

variable {b : Builder}

theorem runFrom_lastOperator {link : Option Connective} (h : b.operators.getLast? = some link) :
    lastOperator.runFrom b = (.ok link, b) := by
  rw [lastOperator, runFrom_bind_of_ok (runFrom_get b), h]
  rfl

theorem runFrom_add_of_open (h : b.Open) (node : Node) :
    (add node).runFrom b = (.ok (), b.push node none) := by
  rw [add, runFrom_bind_of_ok (runFrom_get b)]
  by_cases none : b.nodes = []
  · rw [if_neg (not_not_intro none)]
    rfl
  · obtain ⟨c, linked⟩ := h.resolve_left none
    rw [if_pos none, runFrom_bind_of_ok (runFrom_lastOperator linked)]
    rfl

theorem runFrom_add_of_closed (h : b.Closed) (node : Node) :
    (add node).runFrom b = (.error (.query (.chain .missingConnective) none), b) := by
  rw [add, runFrom_bind_of_ok (runFrom_get b), if_pos h.1,
    runFrom_bind_of_ok (runFrom_lastOperator h.2)]
  rfl

theorem runFrom_link_of_open (h : b.Open) (c : Connective) :
    (link c).runFrom b = (.error (.query (.unprecededConnective c) none), b) := by
  rw [link, runFrom_bind_of_ok (runFrom_get b)]
  by_cases none : b.nodes = []
  · rw [if_pos none]
    rfl
  · obtain ⟨d, linked⟩ := h.resolve_left none
    rw [if_neg none, runFrom_bind_of_ok (runFrom_lastOperator linked)]
    rfl

private theorem runFrom_link_of_closed (h : b.Closed) (c : Connective) :
    (link c).runFrom b = (.ok (), ⟨b.nodes, b.operators.dropLast ++ [some c]⟩) := by
  rw [link, runFrom_bind_of_ok (runFrom_get b), if_neg h.1,
    runFrom_bind_of_ok (runFrom_lastOperator h.2)]
  rfl

theorem runFrom_link_push (b : Builder) (node : Node) (c : Connective) :
    (link c).runFrom (b.push node none) = (.ok (), b.push node (some c)) := by
  rw [runFrom_link_of_closed (b.closed_push node), push, push, List.dropLast_concat]

/-- Building changes nothing. -/
theorem runFrom_build (b : Builder) :
    build.runFrom b = ((do
      Predicate.checkChain b.predicates
      return b.predicates), b) := by
  rw [build, runFrom_bind_of_ok (runFrom_get b), runFrom_lift_bind]
  cases Predicate.checkChain b.predicates <;> rfl

/-- A node that may not come to be is made before it is added. -/
theorem runFrom_add_lift {α : Type} (made : Except Failure α) (node : α → Node) :
    (liftM made >>= fun a => add (node a)).runFrom b =
      match made with
      | .ok a => (add (node a)).runFrom b
      | .error failure => (.error failure, b) := runFrom_lift_bind made _ b

end Builder

end RecordFilter
