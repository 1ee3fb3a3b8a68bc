import Mathlib.Data.List.Forall2
import RecordFilter.Failure

/-! # Results that may fail

Two operations in sequence succeed if both do, and one that runs over a list succeeds if it does on
every member.
-/

namespace RecordFilter

variable {α β : Type}

theorem bind_eq_ok_iff {x : Except Failure α} {f : α → Except Failure β} {b : β} :
    (x >>= f) = .ok b ↔ ∃ a, x = .ok a ∧ f a = .ok b := by
  cases x with
  | error failure => simp [bind, Except.bind]
  | ok a => simp [bind, Except.bind]

theorem ok_bind (a : α) (f : α → Except Failure β) : (Except.ok a >>= f) = f a := rfl

theorem error_bind (failure : Failure) (f : α → Except Failure β) :
    (Except.error failure >>= f) = .error failure := rfl

theorem pure_eq_ok_iff {a b : α} : (pure a : Except Failure α) = .ok b ↔ a = b := by
  simp [pure, Except.pure]

theorem error_of_bind_pure {x : Except Failure α} {f : α → β} {failure : Failure}
    (h : (do return f (← x)) = Except.error failure) : x = .error failure := by
  cases x with
  | error failed => exact congrArg Except.error (Except.error.inj h)
  | ok a => cases h

theorem bind_eq_error_iff {x : Except Failure α} {f : α → Except Failure β} {failure : Failure} :
    (x >>= f) = .error failure ↔ x = .error failure ∨ ∃ a, x = .ok a ∧ f a = .error failure := by
  cases x with
  | error failed => simp [bind, Except.bind]
  | ok a => simp [bind, Except.bind]

/-- Only what comes of the first operation matters to the second. -/
theorem bind_congr_of_ok {x : Except Failure α} {f g : α → Except Failure β}
    (h : ∀ a, x = .ok a → f a = g a) : (x >>= f) = x >>= g := by
  cases x with
  | error failure => rfl
  | ok a => exact h a rfl

theorem toOption_bind (x : Except Failure α) (f : α → Except Failure β) :
    (x >>= f).toOption = x.toOption.bind fun a => (f a).toOption := by
  cases x <;> rfl

variable {f : α → Except Failure β} {xs : List α} {ys : List β}

theorem mapM_eq_ok_iff : xs.mapM f = .ok ys ↔ List.Forall₂ (fun x y => f x = .ok y) xs ys := by
  induction xs generalizing ys with
  | nil =>
      rw [List.mapM_nil, pure_eq_ok_iff, List.forall₂_nil_left_iff]
      exact eq_comm
  | cons x xs ih =>
      simp only [List.mapM_cons, bind_eq_ok_iff, pure_eq_ok_iff, ih, List.forall₂_cons_left_iff]
      constructor
      · rintro ⟨y, hy, rest, hr, rfl⟩
        exact ⟨y, rest, hy, hr, rfl⟩
      · rintro ⟨y, rest, hy, hr, rfl⟩
        exact ⟨y, hy, rest, hr, rfl⟩

theorem mapM_congr {g : α → Except Failure β} (h : ∀ x ∈ xs, f x = g x) :
    xs.mapM f = xs.mapM g := by
  induction xs with
  | nil => rfl
  | cons x xs ih =>
      rw [List.forall_mem_cons] at h
      rw [List.mapM_cons, List.mapM_cons, h.1, ih h.2]

theorem forall_mem_of_forall₂ {r : α → β → Prop} {p : α → Prop} (h : List.Forall₂ r xs ys)
    (each : ∀ x y, r x y → p x) : ∀ x ∈ xs, p x :=
  ((List.forall₂_and_left xs ys).mp (h.imp fun x y hr => And.intro (each x y hr) hr)).1

/-- What is related to the members of one list, in two ways, is related to each other. -/
theorem forall₂_of_common {γ : Type} {r : α → β → Prop} {s : α → γ → Prop} {q : β → γ → Prop}
    {zs : List γ} (h : List.Forall₂ r xs ys) (h' : List.Forall₂ s xs zs)
    (each : ∀ x y z, r x y → s x z → q y z) : List.Forall₂ q ys zs := by
  induction h generalizing zs with
  | nil =>
      cases h'
      exact .nil
  | cons first _ ih =>
      cases h' with
      | cons other others => exact .cons (each _ _ _ first other) (ih others)

theorem exists_append_of_forall₂ {r : α → β → Prop} {xs' : List α}
    (h : List.Forall₂ r (xs ++ xs') ys) :
    ∃ first second, ys = first ++ second ∧ List.Forall₂ r xs first ∧ List.Forall₂ r xs' second := by
  induction xs generalizing ys with
  | nil => exact ⟨[], ys, rfl, .nil, h⟩
  | cons x xs ih =>
      cases h with
      | cons hx rest =>
          obtain ⟨first, second, rfl, left, right⟩ := ih rest
          exact ⟨_ :: first, second, rfl, .cons hx left, right⟩

theorem exists_of_mem_mapM (h : xs.mapM f = .ok ys) {y : β} (hy : y ∈ ys) : ∃ x, f x = .ok y := by
  have each := mapM_eq_ok_iff.mp h
  clear h
  induction each with
  | nil => cases hy
  | cons first _ ih =>
      rcases List.mem_cons.mp hy with rfl | hy
      · exact ⟨_, first⟩
      · exact ih hy

theorem exists_error_of_mapM {failure : Failure} (h : xs.mapM f = .error failure) :
    ∃ x ∈ xs, f x = .error failure := by
  induction xs with
  | nil => cases h
  | cons x xs ih =>
      rw [List.mapM_cons, bind_eq_error_iff] at h
      rcases h with first | ⟨y, _, others⟩
      · exact ⟨x, List.mem_cons_self, first⟩
      · obtain ⟨z, hz, fails⟩ := ih (error_of_bind_pure others)
        exact ⟨z, List.mem_cons_of_mem _ hz, fails⟩

/-- An operation that gives the same on every member that has a result gives the same on the list.
    -/
theorem mapM_eq_ok_of_imp {g : α → Except Failure β} (h : xs.mapM f = .ok ys)
    (step : ∀ x, ∀ y ∈ ys, f x = .ok y → g x = .ok y) : xs.mapM g = .ok ys := by
  rw [mapM_eq_ok_iff] at h ⊢
  induction h with
  | nil => exact .nil
  | cons first _ ih =>
      refine .cons (step _ _ List.mem_cons_self first) (ih ?_)
      intro x y hy
      exact step x y (List.mem_cons_of_mem _ hy)

/-- An operation that goes through a list fails at one member, after it has taken all before. -/
theorem exists_of_foldlM_error {step : β → α → Except Failure β} {b : β} {failure : Failure}
    (h : xs.foldlM step b = .error failure) :
    ∃ before x after c, xs = before ++ x :: after ∧ before.foldlM step b = .ok c ∧
      step c x = .error failure := by
  induction xs generalizing b with
  | nil => cases h
  | cons x xs ih =>
      rw [List.foldlM_cons, bind_eq_error_iff] at h
      rcases h with first | ⟨c, taken, others⟩
      · exact ⟨[], x, xs, b, rfl, rfl, first⟩
      · obtain ⟨before, y, after, d, rfl, reached, fails⟩ := ih others
        refine ⟨x :: before, y, after, d, rfl, ?_, fails⟩
        rw [List.foldlM_cons, taken, ok_bind, reached]

end RecordFilter
