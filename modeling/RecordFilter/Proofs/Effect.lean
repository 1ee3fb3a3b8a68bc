import RecordFilter.Proofs.Result

/-! # Operations without their results

What an operation does can be told apart from what it gives. Operations that run one after the
other, with nothing decided between them, do what their effects do in turn; if they can fail, they
do so with the first that fails.
-/

namespace RecordFilter

section

variable {m : Type → Type} [Monad m] {α β : Type}

/-- The operation without what it gives. -/
def effectOf (x : m α) : m Unit := do
  let _ ← x
  return ()

variable [LawfulMonad m]

theorem effectOf_bind (x : m α) (f : α → m β) :
    effectOf (x >>= f) = x >>= fun a => effectOf (f a) := by
  simp only [effectOf, bind_assoc]

/-- What is done with a result afterwards has no effect. -/
theorem effectOf_bind_pure (x : m α) (f : α → β) : effectOf (do return f (← x)) = effectOf x := by
  simp only [effectOf, bind_assoc, pure_bind]

theorem bind_eq_effectOf_bind (x : m α) (y : m β) :
    (x >>= fun _ => y) = effectOf x >>= fun _ => y := by
  simp only [effectOf, bind_assoc, pure_bind]

end

section

variable {α β : Type} {f : α → Except Failure β} {failure : Failure}

theorem effectOf_ok (a : α) : effectOf (Except.ok a : Except Failure α) = .ok () := rfl

theorem effectOf_error (failure : Failure) :
    effectOf (.error failure : Except Failure α) = .error failure := rfl

theorem effectOf_eq_error_iff {x : Except Failure α} :
    effectOf x = .error failure ↔ x = .error failure := by
  cases x with
  | error failed => simp [effectOf_error]
  | ok a => simp [effectOf_ok]

theorem effectOf_eq_ok_iff {x : Except Failure α} : effectOf x = .ok () ↔ ∃ a, x = .ok a := by
  cases x with
  | error failed => simp [effectOf_error]
  | ok a => simp [effectOf_ok]

/-- Operations that run over a list succeed if all of them do. -/
theorem forM_effectOf_eq_ok_iff {xs : List α} :
    (forM xs fun x => effectOf (f x)) = .ok () ↔ ∀ x ∈ xs, ∃ b, f x = .ok b := by
  induction xs with
  | nil => exact iff_of_true rfl (List.forall_mem_nil _)
  | cons x xs ih =>
      rw [List.forM_cons, bind_eq_ok_iff, List.forall_mem_cons, ← ih, ← effectOf_eq_ok_iff]
      exact ⟨fun ⟨_, first, others⟩ => ⟨first, others⟩, fun ⟨first, others⟩ => ⟨(), first, others⟩⟩

/-- Operations that run over a list fail with the first that fails. -/
theorem forM_effectOf_eq_error_iff {xs : List α} :
    (forM xs fun x => effectOf (f x)) = .error failure ↔
      ∃ before x after, xs = before ++ x :: after ∧ (∀ y ∈ before, ∃ b, f y = .ok b) ∧
        f x = .error failure := by
  induction xs with
  | nil => simp [pure, Except.pure]
  | cons x xs ih =>
      rw [List.forM_cons]
      simp only [List.cons_eq_append_iff]
      cases hx : f x with
      | error failed =>
          rw [effectOf_error, error_bind]
          constructor
          · intro h
            cases h
            exact ⟨[], x, xs, .inl ⟨rfl, rfl⟩, List.forall_mem_nil _, hx⟩
          · rintro ⟨_, y, _, ⟨rfl, first⟩ | ⟨others, rfl, _⟩, passed, fails⟩
            · cases first
              rw [hx] at fails
              cases fails
              rfl
            · obtain ⟨b, hb⟩ := passed x List.mem_cons_self
              rw [hx] at hb
              cases hb
      | ok b =>
          rw [effectOf_ok, ok_bind, ih]
          constructor
          · rintro ⟨before, y, after, rfl, passed, fails⟩
            exact ⟨x :: before, y, after, .inr ⟨before, rfl, rfl⟩,
              List.forall_mem_cons.mpr ⟨⟨b, hx⟩, passed⟩, fails⟩
          · rintro ⟨_, y, after, ⟨rfl, first⟩ | ⟨others, rfl, rest⟩, passed, fails⟩
            · cases first
              rw [hx] at fails
              cases fails
            · rw [List.forall_mem_cons] at passed
              exact ⟨others, y, after, rest, passed.2, fails⟩

end

end RecordFilter
