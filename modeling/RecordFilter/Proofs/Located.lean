import RecordFilter.Proofs.Result

/-! # Failures with positions

An operation on a part of a query is located if it fails only as a parse does and then points
between the ends of that part. Located operations in sequence, or on every member of a list, are
located.
-/

namespace RecordFilter

variable {low high low' high' position : Int}

/-- The failure of a parse that points between these two positions. -/
structure Failure.Within (low high : Int) (failure : Failure) : Prop where
  parse : failure.isParseFailure = true
  located : ∃ position, failure.position? = some position ∧ low ≤ position ∧ position ≤ high

namespace Failure.Within

theorem mono {failure : Failure} (h : failure.Within low high) (hl : low' ≤ low)
    (hh : high ≤ high') : failure.Within low' high' := by
  obtain ⟨parse, position, hp, first, last⟩ := h
  exact ⟨parse, position, hp, Int.le_trans hl first, Int.le_trans last hh⟩

theorem query (fault : QueryFault) (first : low ≤ position) (last : position ≤ high) :
    Within low high (.query fault (some position)) :=
  ⟨rfl, position, rfl, first, last⟩

theorem cast (fault : CastFault) (first : low ≤ position) (last : position ≤ high) :
    Within low high (.cast fault (some position)) :=
  ⟨rfl, position, rfl, first, last⟩

end Failure.Within

/-- What an operation gives has the property, or it fails between the positions. -/
inductive Located {α : Type} (low high : Int) (P : α → Prop) : Except Failure α → Prop where
  | ok {a} : P a → Located low high P (.ok a)
  | error {failure} : failure.Within low high → Located low high P (.error failure)

namespace Located

variable {α β : Type} {P P' : α → Prop} {Q : β → Prop} {x : Except Failure α}

theorem of_ok {a : α} (h : Located low high P (.ok a)) : P a := by
  cases h with
  | ok ha => exact ha

theorem within {failure : Failure} (h : Located low high P (.error failure)) :
    failure.Within low high := by
  cases h with
  | error hf => exact hf

theorem mono (h : Located low high P x) (hl : low' ≤ low) (hh : high ≤ high')
    (hp : ∀ a, P a → P' a) : Located low' high' P' x := by
  cases h with
  | ok ha => exact .ok (hp _ ha)
  | error hf => exact .error (hf.mono hl hh)

theorem widen (h : Located low high P x) (hl : low' ≤ low) (hh : high ≤ high') :
    Located low' high' P x := h.mono hl hh fun _ => id

/-- What is given is the result, which may tell more of it than the property does. -/
theorem result (h : Located low high P x) : Located low high (fun a => x = .ok a) x := by
  cases h with
  | ok => exact .ok rfl
  | error hf => exact .error hf

theorem bind (h : Located low high P x) {f : α → Except Failure β}
    (hf : ∀ a, P a → Located low high Q (f a)) : Located low high Q (x >>= f) := by
  cases h with
  | ok ha => exact hf _ ha
  | error failed => exact .error failed

theorem mapM {f : α → Except Failure β} {xs : List α}
    (h : ∀ a ∈ xs, Located low high Q (f a)) :
    Located low high (fun ys => ∀ b ∈ ys, Q b) (xs.mapM f) := by
  induction xs with
  | nil => exact .ok (List.forall_mem_nil _)
  | cons a xs ih =>
      rw [List.forall_mem_cons] at h
      rw [List.mapM_cons]
      refine h.1.bind fun b hb => (ih h.2).bind fun ys hys => ?_
      exact .ok (List.forall_mem_cons.mpr ⟨hb, hys⟩)

theorem foldlM {f : β → α → Except Failure β} {b : β} {xs : List α} (hb : Q b)
    (h : ∀ b, Q b → ∀ a ∈ xs, Located low high Q (f b a)) :
    Located low high Q (xs.foldlM f b) := by
  induction xs generalizing b with
  | nil => exact .ok hb
  | cons a xs ih =>
      rw [List.foldlM_cons]
      refine (h b hb a List.mem_cons_self).bind fun c hc => ih hc fun d hd e he => ?_
      exact h d hd e (List.mem_cons_of_mem _ he)

end Located

end RecordFilter
