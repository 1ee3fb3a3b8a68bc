import RecordFilter.Literal.Print
import RecordFilter.Proofs.Literal.Spellable
import RecordFilter.Value.Same

/-! # The times in a literal

Of the zone of a time its text has only the offset. So a literal has the same text as one whose
times all go by the offsets that they have now, which is the literal itself unless one of them is a
time of a region.
-/

namespace RecordFilter.Literal

mutual

/-- The times in a literal, in the order of its items. -/
def times : Literal → List ZonedDateTime
  | datetime z => [z]
  | list items => itemTimes items
  | _ => []

def itemTimes : List Literal → List ZonedDateTime
  | [] => []
  | l :: rest => l.times ++ itemTimes rest

end

theorem forall_mem_itemTimes_iff {items : List Literal} {p : ZonedDateTime → Prop} :
    (∀ z ∈ itemTimes items, p z) ↔ ∀ l ∈ items, ∀ z ∈ l.times, p z := by
  induction items with
  | nil => simp [itemTimes]
  | cons l rest ih => rw [itemTimes, List.forall_mem_append, ih, List.forall_mem_cons]

theorem Spellable.isFixed_of_mem_times {l : Literal} (h : l.Spellable) :
    ∀ z ∈ l.times, z.zone.isFixed = true := by
  induction h with
  | datetime z fixed => exact List.forall_mem_singleton.mpr fixed
  | list items _ ih => exact forall_mem_itemTimes_iff.mpr ih
  | _ => exact List.forall_mem_nil _

mutual

/-- The literal with each of its times going by the offset that it has now. -/
def atOffsets : Literal → Literal
  | datetime z => datetime z.atOffset
  | list items => list (itemsAtOffsets items)
  | l => l

def itemsAtOffsets : List Literal → List Literal
  | [] => []
  | l :: rest => l.atOffsets :: itemsAtOffsets rest

end

mutual

theorem atOffsets_eq {l : Literal} (h : ∀ z ∈ l.times, z.zone.isFixed = true) :
    l.atOffsets = l := by
  cases l with
  | datetime z => exact congrArg datetime (ZonedDateTime.atOffset_eq (h z List.mem_cons_self))
  | list items => exact congrArg list (itemsAtOffsets_eq h)
  | _ => rfl
termination_by structural l

private theorem itemsAtOffsets_eq {items : List Literal}
    (h : ∀ z ∈ itemTimes items, z.zone.isFixed = true) : itemsAtOffsets items = items := by
  cases items with
  | nil => rfl
  | cons l rest =>
      rw [itemTimes, List.forall_mem_append] at h
      rw [itemsAtOffsets, atOffsets_eq h.1, itemsAtOffsets_eq h.2]
termination_by structural items

end

mutual

theorem queryText_atOffsets (l : Literal) : l.atOffsets.queryText = l.queryText := by
  cases l with
  | list items => rw [atOffsets, queryText, queryTexts_itemsAtOffsets items, queryText]
  | _ => rfl
termination_by structural l

private theorem queryTexts_itemsAtOffsets (items : List Literal) :
    queryTexts (itemsAtOffsets items) = queryTexts items := by
  cases items with
  | nil => rfl
  | cons l rest =>
      rw [itemsAtOffsets, queryTexts, queryText_atOffsets l, queryTexts_itemsAtOffsets rest,
        queryTexts]
termination_by structural items

end

end RecordFilter.Literal
