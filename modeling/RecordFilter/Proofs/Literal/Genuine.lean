import RecordFilter.Predicate.Validate
import RecordFilter.Proofs.Literal.Spellable

/-! # Literals without foreign items

A list literal can hold values that are no literals, at any depth. A literal is genuine if it is
none of these and holds none, which is what validation looks for. Whatever a query spells is
genuine.
-/

namespace RecordFilter.Literal

/-- The literal is no foreign value and has none among its items, at any depth. -/
inductive Genuine : Literal → Prop where
  | null : Genuine null
  | bool (b : Bool) : Genuine (bool b)
  | number (n : FiniteNumber) : Genuine (number n)
  | text (s : String) : Genuine (text s)
  | date (d : Date) : Genuine (date d)
  | misdated (clock : WallClock) (zone : Option TimeZone) : Genuine (misdated clock zone)
  | datetime (z : ZonedDateTime) : Genuine (datetime z)
  | list (items : List Literal) (each : ∀ l ∈ items, Genuine l) : Genuine (list items)
  | blank : Genuine blank

theorem Spellable.genuine {l : Literal} (h : l.Spellable) : l.Genuine := by
  induction h with
  | list items _ ih => exact .list items ih
  | _ => constructor

theorem itemDefects_eq_nil_iff {items : List Literal} :
    itemDefects items = [] ↔ ∀ l ∈ items, l.defects = [] := by
  induction items with
  | nil => exact iff_of_true rfl (List.forall_mem_nil _)
  | cons l rest ih => rw [itemDefects, List.append_eq_nil_iff, ih, List.forall_mem_cons]

theorem Genuine.defects_eq {l : Literal} (h : l.Genuine) : l.defects = [] := by
  induction h with
  | list items _ ih => exact itemDefects_eq_nil_iff.mpr ih
  | _ => rfl

private theorem genuine_of_defects {l : Literal} (h : l.defects = []) : l.Genuine := by
  cases l with
  | list items =>
      refine .list items fun l hl => ?_
      exact genuine_of_defects (itemDefects_eq_nil_iff.mp h l hl)
  | foreign v => cases h
  | _ => constructor
termination_by sizeOf l

theorem defects_eq_nil_iff {l : Literal} : l.defects = [] ↔ l.Genuine :=
  ⟨genuine_of_defects, Genuine.defects_eq⟩

end RecordFilter.Literal
