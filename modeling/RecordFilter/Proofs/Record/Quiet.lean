import RecordFilter.Proofs.Numeric.Exact
import RecordFilter.Proofs.Result
import RecordFilter.Record.Path

/-! # Records without signaling decimals

A signaling decimal may not be asked whether it equals something. A value is quiet if there is none
in it, at any depth, and then all that a path leads to is quiet too.
-/

namespace RecordFilter

mutual

inductive Value.Quiet : Value → Prop where
  | null : Value.Quiet .null
  | bool (b : Bool) : Value.Quiet (.bool b)
  | number (n : Number) (h : n.magnitude ≠ .signaling) : Value.Quiet (.number n)
  | complex (re im : Binary64) : Value.Quiet (.complex re im)
  | text (s : String) : Value.Quiet (.text s)
  | date (d : Date) : Value.Quiet (.date d)
  | datetime (clock : WallClock) (zone : Option TimeZone) : Value.Quiet (.datetime clock zone)
  | list (items : List Value) (each : ∀ v ∈ items, v.Quiet) : Value.Quiet (.list items)
  | tuple (items : List Value) (each : ∀ v ∈ items, v.Quiet) : Value.Quiet (.tuple items)
  | set (items : List Value) (each : ∀ v ∈ items, v.Quiet) : Value.Quiet (.set items)
  | bytes (items : List Nat) : Value.Quiet (.bytes items)
  | dict (entries : List (String × Value)) (each : ∀ e ∈ entries, e.2.Quiet) :
      Value.Quiet (.dict entries)
  | object (kind : String) (attributes : List (String × Attribute))
      (each : ∀ a ∈ attributes, a.2.Quiet) : Value.Quiet (.object kind attributes)
  | literal (l : Literal) (h : l.Quiet) : Value.Quiet (.literal l)

inductive Attribute.Quiet : Attribute → Prop where
  | value (v : Value) (h : v.Quiet) : Attribute.Quiet (.value v)
  | raises (fault : AttributeFault) : Attribute.Quiet (.raises fault)

inductive Literal.Quiet : Literal → Prop where
  | null : Literal.Quiet .null
  | bool (b : Bool) : Literal.Quiet (.bool b)
  | number (n : FiniteNumber) : Literal.Quiet (.number n)
  | text (s : String) : Literal.Quiet (.text s)
  | date (d : Date) : Literal.Quiet (.date d)
  | misdated (clock : WallClock) (zone : Option TimeZone) : Literal.Quiet (.misdated clock zone)
  | datetime (z : ZonedDateTime) : Literal.Quiet (.datetime z)
  | list (items : List Literal) (each : ∀ l ∈ items, l.Quiet) : Literal.Quiet (.list items)
  | blank : Literal.Quiet .blank
  | foreign (v : Value) (h : v.Quiet) : Literal.Quiet (.foreign v)

end

namespace Literal

mutual

private theorem Quiet.toValue {l : Literal} {v : Value} (h : l.Quiet) (hv : l.toValue = .ok v) :
    v.Quiet := by
  cases h with
  | null => cases hv; exact .null
  | bool b => cases hv; exact .bool b
  | number n => cases hv; exact .number _ n.magnitude_ne_signaling
  | text s => cases hv; exact .text s
  | date d => cases hv; exact .date d
  | misdated clock zone => cases hv; exact .datetime clock zone
  | datetime z => cases hv; exact .datetime _ _
  | list items each =>
      rw [Literal.toValue] at hv
      obtain ⟨values, converted, whole⟩ := bind_eq_ok_iff.mp hv
      cases whole
      exact .list _ (quiet_of_toValues each converted)
  | blank => cases hv
  | foreign w hw => cases hv

private theorem quiet_of_toValues {items : List Literal} {values : List Value}
    (h : ∀ l ∈ items, l.Quiet)
    (hv : toValues items = .ok values) : ∀ v ∈ values, v.Quiet := by
  cases items with
  | nil =>
      cases hv
      exact List.forall_mem_nil _
  | cons l rest =>
      rw [List.forall_mem_cons] at h
      rw [toValues] at hv
      obtain ⟨first, hf, more⟩ := bind_eq_ok_iff.mp hv
      obtain ⟨others, ho, whole⟩ := bind_eq_ok_iff.mp more
      cases whole
      exact List.forall_mem_cons.mpr ⟨Quiet.toValue h.1 hf, quiet_of_toValues h.2 ho⟩

end

private theorem Quiet.toItem {l : Literal} (h : l.Quiet) : l.toItem.Quiet := by
  cases h with
  | foreign v hv => exact hv
  | list items each => exact .literal _ (.list items each)
  | _ => exact .literal _ (by constructor)

private theorem Quiet.readAttribute {l : Literal} (h : l.Quiet) {name : String} {v : Value}
    (hv : l.readAttribute name = .ok v) : v.Quiet := by
  unfold Literal.readAttribute at hv
  split at hv
  · cases hv
    exact .bool _
  · split at hv
    · cases hv
      exact .object _ _ (List.forall_mem_nil _)
    · split at hv
      · cases hv
      · cases hv
      · cases hv
        cases h with
        | list items each =>
            refine .tuple _ ?_
            rw [List.forall_mem_map]
            exact fun l hl => (each l hl).toItem
      · cases hv
        exact .object _ _ (List.forall_mem_nil _)
      · exact h.toValue hv
      · cases hv

end Literal

namespace Value

private theorem quiet_of_fractionAttribute? {r : Rat} {name : String} {v : Value}
    (h : fractionAttribute? r name = some v) : v.Quiet := by
  unfold fractionAttribute? at h
  split_ifs at h <;> cases h
  iterate 4 exact .number _ nofun
  iterate 2 exact .object _ _ (List.forall_mem_nil _)

theorem mem_of_lookup {α : Type} {entries : List (String × α)} {name : String} {a : α}
    (h : entries.lookup name = some a) : ∃ e ∈ entries, e.2 = a := by
  obtain ⟨before, after, split, _⟩ := List.lookup_eq_some_iff.mp h
  refine ⟨(name, a), ?_, rfl⟩
  rw [split]
  exact List.mem_append_right _ List.mem_cons_self

private theorem Quiet.givenAttribute {v w : Value} (h : v.Quiet) {name : String}
    (hw : v.givenAttribute name = .ok w) : w.Quiet := by
  unfold Value.givenAttribute at hw
  split at hw
  · next kind attributes =>
      cases h with
      | object _ _ each =>
          split at hw
          · next found =>
              cases hw
              obtain ⟨e, he, hv⟩ := mem_of_lookup found
              have quiet := each e he
              rw [hv] at quiet
              cases quiet with
              | value _ hq => exact hq
          · cases hw
          · cases hw
  · cases hw

private theorem Quiet.readAttribute {v w : Value} (h : v.Quiet) {name : String}
    (hw : v.readAttribute name = .ok w) : w.Quiet := by
  unfold Value.readAttribute at hw
  split at hw
  · split at hw
    · next found =>
        cases hw
        exact quiet_of_fractionAttribute? found
    · cases hw
  · cases h with
    | literal l hl => exact hl.readAttribute hw
  · exact h.givenAttribute hw

private theorem quiet_of_lookup {entries : List (String × Value)} (h : ∀ e ∈ entries, e.2.Quiet)
    (name : String) : ((entries.lookup name).getD null).Quiet := by
  cases found : entries.lookup name with
  | none => exact .null
  | some v =>
      obtain ⟨e, he, rfl⟩ := mem_of_lookup found
      exact h e he

private theorem quiet_of_pair? {item v : Value} {key : String} (h : item.Quiet)
    (hp : pair? item = some (key, v)) : v.Quiet := by
  unfold pair? at hp
  split at hp
  · cases hp
    cases h with
    | tuple _ each => exact each _ (by simp)
  · cases hp

private theorem quiet_of_pairs? {items : List Value} (h : ∀ v ∈ items, v.Quiet) :
    ∀ e ∈ (pairs? items).getD [], e.2.Quiet := by
  induction items with
  | nil => exact List.forall_mem_nil _
  | cons item rest ih =>
      rw [List.forall_mem_cons] at h
      have others := ih h.2
      simp only [pairs?, List.mapM_cons] at others ⊢
      cases hp : pair? item with
      | none => exact List.forall_mem_nil _
      | some first =>
          cases hr : rest.mapM pair? with
          | none => exact List.forall_mem_nil _
          | some more =>
              rw [hr] at others
              exact List.forall_mem_cons.mpr ⟨quiet_of_pair? h.1 hp, others⟩

private theorem Quiet.field {v : Value} (h : v.Quiet) (name : String) : (v.field name).Quiet := by
  unfold Value.field
  split
  · cases h with
    | dict _ each => exact quiet_of_lookup each name
  · cases h with
    | list _ each => exact quiet_of_lookup (quiet_of_pairs? each) name
  · cases h with
    | tuple _ each => exact quiet_of_lookup (quiet_of_pairs? each) name
  · split
    · exact .null
    · cases hr : v.readAttribute name with
      | error failure => exact .null
      | ok w => exact h.readAttribute hr

/-- Whatever a path leads to in a quiet record is quiet. -/
theorem Quiet.resolve {record : Value} (h : record.Quiet) (path : List String) :
    (record.resolve path).Quiet := by
  unfold Value.resolve
  induction path generalizing record with
  | nil => exact h
  | cons name path ih => exact ih (h.field name)

end Value

end RecordFilter
