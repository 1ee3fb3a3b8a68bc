import RecordFilter.Proofs.Calendar.Zone
import RecordFilter.Proofs.Numeric.Exact
import RecordFilter.Proofs.Query.Parse
import RecordFilter.Value.Same

/-! # Matching is equality of literals

A literal matches a plain value exactly if the literal of that value equals it. Two functions sort
values by their kinds here, the one that makes literals and the one that matches them, and they
agree on every value: on truth values and numbers, on dates and times, on tuples and lists, at every
depth. What can be no literal matches none.
-/

namespace RecordFilter

/-- No literal is among the items of the value, at any depth. -/
inductive Value.Plain : Value → Prop where
  | list {items : List Value} (each : ∀ v ∈ items, v.Plain) : Value.Plain (.list items)
  | tuple {items : List Value} (each : ∀ v ∈ items, v.Plain) : Value.Plain (.tuple items)
  | other {v : Value} (no_items : v.items? = none) (no_literal : ∀ l, v ≠ .literal l) :
      Value.Plain v

namespace Literal

/-- The literal is of one of the seven kinds, and so are its items, at every depth. -/
inductive Typed : Literal → Prop where
  | null : Typed null
  | bool (b : Bool) : Typed (bool b)
  | number (n : FiniteNumber) : Typed (number n)
  | text (s : String) : Typed (text s)
  | date (d : Date) : Typed (date d)
  | datetime (z : ZonedDateTime) : Typed (datetime z)
  | list {items : List Literal} (each : ∀ l ∈ items, l.Typed) : Typed (list items)

/-- Literals of one kind are equal if their values are: numbers if they stand for the same rational
    number, times if they are the same time (with fixed offsets, the same instant), lists item by
    item. -/
inductive Equal : Literal → Literal → Prop where
  | null : Equal null null
  | bool (b : Bool) : Equal (bool b) (bool b)
  | number {m n : FiniteNumber} : m.value = n.value → Equal (number m) (number n)
  | text (s : String) : Equal (text s) (text s)
  | date (d : Date) : Equal (date d) (date d)
  | datetime {y z : ZonedDateTime} : y.SameTime z → Equal (datetime y) (datetime z)
  | list {xs ys : List Literal} : List.Forall₂ Equal xs ys → Equal (list xs) (list ys)

theorem sameLiterals_iff {xs ys : List Literal}
    (each : ∀ x ∈ xs, ∀ y : Literal, x.same y = true ↔ x.Equal y) :
    sameLiterals xs ys = true ↔ List.Forall₂ Equal xs ys := by
  induction xs generalizing ys with
  | nil =>
      rw [sameLiterals, List.isEmpty_iff, List.forall₂_nil_left_iff]
  | cons x xs ih =>
      rw [List.forall_mem_cons] at each
      cases ys with
      | nil => simp [sameLiterals]
      | cons y ys =>
          rw [sameLiterals, Bool.and_eq_true, List.forall₂_cons, each.1 y, ih each.2]

theorem Typed.same_iff {m : Literal} (h : m.Typed) (l : Literal) :
    m.same l = true ↔ m.Equal l := by
  induction h generalizing l with
  | null =>
      cases l with
      | null => exact iff_of_true rfl .null
      | _ => exact iff_of_false nofun nofun
  | bool b =>
      cases l with
      | bool c =>
          rw [same, beq_iff_eq]
          constructor
          · rintro rfl
            exact .bool b
          · rintro ⟨⟩
            rfl
      | _ => exact iff_of_false nofun nofun
  | number m =>
      cases l with
      | number n =>
          have exact : (Literal.number m).same (.number n) = true ↔ m.value = n.value :=
            beq_iff_eq.trans (m.order?_eq_iff n)
          rw [exact]
          constructor
          · exact .number
          · rintro ⟨⟩
            assumption
      | _ => exact iff_of_false nofun nofun
  | text s =>
      cases l with
      | text t =>
          rw [same, beq_iff_eq]
          constructor
          · rintro rfl
            exact .text s
          · rintro ⟨⟩
            rfl
      | _ => exact iff_of_false nofun nofun
  | date d =>
      cases l with
      | date e =>
          rw [same, beq_iff_eq]
          constructor
          · rintro rfl
            exact .date d
          · rintro ⟨⟩
            rfl
      | _ => exact iff_of_false nofun nofun
  | datetime y =>
      cases l with
      | datetime z =>
          rw [same, ZonedDateTime.same_iff]
          constructor
          · exact .datetime
          · rintro ⟨⟩
            assumption
      | _ => exact iff_of_false nofun nofun
  | list each ih =>
      cases l with
      | list ys =>
          rw [same, sameLiterals_iff ih]
          constructor
          · exact .list
          · rintro ⟨⟩
            assumption
      | _ => exact iff_of_false nofun nofun

theorem Typed.equal_self {l : Literal} (h : l.Typed) : l.Equal l := by
  induction h with
  | null => exact .null
  | bool b => exact .bool b
  | number n => exact .number rfl
  | text s => exact .text s
  | date d => exact .date d
  | datetime z => exact .datetime z.sameTime_self
  | list each ih => exact .list (List.forall₂_same.mpr ih)

theorem ofValues_eq_ok_iff {values : List Value} {literals : List Literal} :
    ofValues values = .ok literals ↔
      List.Forall₂ (fun v l => ofValue v = .ok l) values literals := by
  induction values generalizing literals with
  | nil =>
      rw [ofValues, Except.ok.injEq, List.forall₂_nil_left_iff]
      exact eq_comm
  | cons v values ih =>
      simp only [ofValues, bind_eq_ok_iff, pure_eq_ok_iff, ih, List.forall₂_cons_left_iff]
      constructor
      · rintro ⟨l, hl, rest, hr, rfl⟩
        exact ⟨l, rest, hl, hr, rfl⟩
      · rintro ⟨l, rest, hl, hr, rfl⟩
        exact ⟨l, hl, rest, hr, rfl⟩

/-- What holds of each value and its literal holds of the values and their literals in order. -/
theorem forall₂_of_ofValues {values : List Value} {literals : List Literal}
    {r : Value → Literal → Prop}
    (each : ∀ v ∈ values, ∀ l, ofValue v = .ok l → r v l) (made : ofValues values = .ok literals) :
    List.Forall₂ r values literals := by
  have pairs := ofValues_eq_ok_iff.mp made
  clear made
  induction pairs with
  | nil => exact .nil
  | cons first _ ih =>
      rw [List.forall_mem_cons] at each
      exact .cons (each.1 _ first) (ih each.2)

private theorem exists_of_ofValues_error {values : List Value} {failure : Failure}
    (h : ofValues values = .error failure) : ∃ v ∈ values, ofValue v = .error failure := by
  induction values with
  | nil => cases h
  | cons v values ih =>
      rw [ofValues] at h
      cases hv : ofValue v with
      | error failed =>
          rw [hv] at h
          cases h
          exact ⟨v, List.mem_cons_self, hv⟩
      | ok l =>
          rw [hv, ok_bind] at h
          cases hr : ofValues values with
          | ok rest =>
              rw [hr] at h
              cases h
          | error failed =>
              rw [hr] at h
              cases h
              obtain ⟨w, hw, he⟩ := ih hr
              exact ⟨w, List.mem_cons_of_mem _ hw, he⟩

/-- Lists match if they are of one length and match item by item. -/
theorem matchValues_eq_true_iff {literals : List Literal} {values : List Value}
    (length : values.length = literals.length) :
    matchValues literals values = .ok true ↔
      List.Forall₂ (fun l v => l.matchValue v = .ok true) literals values := by
  induction literals generalizing values with
  | nil =>
      rw [List.eq_nil_of_length_eq_zero length, matchValues]
      exact iff_of_true rfl .nil
  | cons l literals ih =>
      cases values with
      | nil => cases length
      | cons v values =>
          rw [matchValues, List.forall₂_cons, ← ih (Nat.succ.inj length)]
          cases l.matchValue v with
          | error failure => simp [error_bind]
          | ok b => cases b <;> simp [ok_bind, pure, Except.pure]

theorem matchValue_list_iff {items : List Literal} {v : Value} :
    (list items).matchValue v = .ok true ↔ ∃ values, v.items? = some values ∧
      List.Forall₂ (fun l w => l.matchValue w = .ok true) items values := by
  rw [matchValue]
  cases v.items? with
  | none => simp
  | some values =>
      simp only [Option.some.injEq, exists_eq_left']
      split
      · next length => exact matchValues_eq_true_iff length
      · next length =>
          refine iff_of_false nofun fun each => ?_
          exact length each.length_eq.symm

/-- The value is of the literal's kind, and its items are of the kinds of the literal's items. -/
inductive SameKind : Literal → Value → Prop where
  | null : SameKind null .null
  | bool (b c : Bool) : SameKind (bool b) (.bool c)
  | number (n : FiniteNumber) (m : Number) : SameKind (number n) (.number m)
  | text (s t : String) : SameKind (text s) (.text t)
  | date (d e : Date) : SameKind (date d) (.date e)
  | datetime (z : ZonedDateTime) (clock : WallClock) (zone : Option TimeZone) :
      SameKind (datetime z) (.datetime clock zone)
  | list {items : List Literal} {v : Value} {values : List Value} : v.items? = some values →
      List.Forall₂ SameKind items values → SameKind (list items) v

mutual

theorem sameKind_of_matchValue {l : Literal} {v : Value} (h : l.matchValue v = .ok true) :
    l.SameKind v := by
  cases l with
  | null => cases v <;> first | exact .null | cases h
  | bool b => cases v <;> first | exact .bool _ _ | cases h
  | number n => cases v <;> first | exact .number _ _ | cases h
  | text s => cases v <;> first | exact .text _ _ | cases h
  | date d => cases v <;> first | exact .date _ _ | cases h
  | misdated clock zone => cases h
  | datetime z => cases v <;> first | exact .datetime _ _ _ | cases h
  | list items =>
      obtain ⟨values, hv, each⟩ := matchValue_list_iff.mp h
      exact .list hv (forall₂_sameKind each)
  | blank => cases h
  | foreign w => cases h
termination_by sizeOf l

private theorem forall₂_sameKind {items : List Literal} {values : List Value}
    (h : List.Forall₂ (fun l v => l.matchValue v = .ok true) items values) :
    List.Forall₂ SameKind items values := by
  cases h with
  | nil => exact .nil
  | cons first rest => exact .cons (sameKind_of_matchValue first) (forall₂_sameKind rest)
termination_by sizeOf items

end

theorem number_eq_of_ofNumber {n : Number} {m : FiniteNumber}
    (h : FiniteNumber.ofNumber n = .ok m) : m.number = n := by
  unfold FiniteNumber.ofNumber at h
  split at h
  · split at h
    · cases h
    · cases h
      rfl
  · split at h
    · cases h
      rfl
    · obtain ⟨shown, _, failed⟩ := bind_eq_ok_iff.mp h
      cases failed

private theorem typed_of_ofValues {values : List Value} {literals : List Literal}
    (each : ∀ v ∈ values, ∀ l, ofValue v = .ok l → l.Typed) (h : ofValues values = .ok literals) :
    ∀ l ∈ literals, l.Typed :=
  forall_mem_of_forall₂ (forall₂_of_ofValues each h).flip fun _ _ typed => typed

theorem Typed.ofValue {v : Value} {l : Literal} (hv : v.Plain) (h : ofValue v = .ok l) :
    l.Typed := by
  induction hv generalizing l with
  | list each ih =>
      obtain ⟨literals, made, ⟨⟩⟩ := bind_eq_ok_iff.mp h
      exact .list (typed_of_ofValues (fun v hv l => ih v hv) made)
  | tuple each ih =>
      obtain ⟨literals, made, ⟨⟩⟩ := bind_eq_ok_iff.mp h
      exact .list (typed_of_ofValues (fun v hv l => ih v hv) made)
  | @other v no_items no_literal =>
      cases v with
      | null => cases h; exact .null
      | bool b => cases h; exact .bool b
      | number n =>
          obtain ⟨m, _, ⟨⟩⟩ := bind_eq_ok_iff.mp h
          exact .number m
      | text s => cases h; exact .text s
      | date d => cases h; exact .date d
      | datetime clock zone => cases h; exact .datetime _
      | list items => cases no_items
      | tuple items => cases no_items
      | literal l => exact absurd rfl (no_literal l)
      | _ => cases h

/-- Items of a list match exactly if the literals of the values equal them. -/
theorem matchValues_eq {items literals : List Literal} {values : List Value}
    (each : ∀ v ∈ values, ∀ m, ofValue v = .ok m → ∀ l : Literal, l.Typed →
      l.matchValue v = .ok (m.same l))
    (made : ofValues values = .ok literals) (typed : ∀ l ∈ items, l.Typed) :
    (if values.length = items.length then matchValues items values else .ok false) =
      .ok (sameLiterals literals items) := by
  have pairs := ofValues_eq_ok_iff.mp made
  clear made
  induction pairs generalizing items with
  | nil =>
      cases items with
      | nil => rfl
      | cons l items => rfl
  | @cons v m values literals first _ ih =>
      rw [List.forall_mem_cons] at each
      cases items with
      | nil => rfl
      | cons l items =>
          rw [List.forall_mem_cons] at typed
          simp only [List.length_cons, Nat.add_right_cancel_iff, matchValues, sameLiterals,
            each.1 m first l typed.1, ok_bind]
          cases m.same l with
          | false =>
              rw [Bool.false_and]
              exact ite_self _
          | true =>
              rw [Bool.true_and, ← ih each.2 typed.2]
              rfl

/-- A value that can be a literal is matched exactly by the literals that its own literal equals. -/
theorem matchValue_eq_same {v : Value} {m l : Literal} (hv : v.Plain) (hm : ofValue v = .ok m)
    (h : l.Typed) : l.matchValue v = .ok (m.same l) := by
  induction hv generalizing m l with
  | list each ih =>
      obtain ⟨literals, made, ⟨⟩⟩ := bind_eq_ok_iff.mp hm
      cases h with
      | list typed => exact matchValues_eq (fun v hv m hm l hl => ih v hv hm hl) made typed
      | _ => rfl
  | tuple each ih =>
      obtain ⟨literals, made, ⟨⟩⟩ := bind_eq_ok_iff.mp hm
      cases h with
      | list typed => exact matchValues_eq (fun v hv m hm l hl => ih v hv hm hl) made typed
      | _ => rfl
  | @other v no_items no_literal =>
      cases v with
      | null => cases hm; cases h <;> rfl
      | bool b => cases hm; cases h <;> rfl
      | number n =>
          obtain ⟨k, made, ⟨⟩⟩ := bind_eq_ok_iff.mp hm
          cases h with
          | number n =>
              rw [matchValue, ← number_eq_of_ofNumber made]
              exact n.equal_eq k.magnitude_ne_signaling
          | _ => rfl
      | text s => cases hm; cases h <;> rfl
      | date d => cases hm; cases h <;> rfl
      | datetime clock zone => cases hm; cases h <;> rfl
      | list items => cases no_items
      | tuple items => cases no_items
      | literal l => exact absurd rfl (no_literal l)
      | _ => cases hm

private theorem isFinite_of_ofNumber_cast {n : Number} {fault : CastFault} {position : Option Int}
    (h : FiniteNumber.ofNumber n = .error (.cast fault position)) : n.isFinite = false := by
  unfold FiniteNumber.ofNumber at h
  split at h
  · split at h <;> cases h
  · split at h
    · cases h
    · next hn => exact Bool.eq_false_iff.mpr hn

/-- A list or tuple with an item that matches nothing matches nothing. -/
theorem matchValue_ne_true_of_mem {v w : Value} {values : List Value} (l : Literal)
    (items : v.items? = some values) (hw : w ∈ values)
    (refused : ∀ k : Literal, k.matchValue w ≠ .ok true) : l.matchValue v ≠ .ok true := by
  intro matched
  cases sameKind_of_matchValue matched with
  | list _ _ =>
      obtain ⟨_, same, pairs⟩ := matchValue_list_iff.mp matched
      rw [items] at same
      cases same
      have each : ∀ w ∈ values, ∃ k : Literal, k.matchValue w = .ok true :=
        forall_mem_of_forall₂ pairs.flip fun _ k hk => ⟨k, hk⟩
      obtain ⟨k, hk⟩ := each w hw
      exact refused k hk
  | _ => cases items

/-- What is refused as a literal matches no literal. -/
theorem matchValue_ne_true {v : Value} {fault : CastFault} {position : Option Int} (hv : v.Plain)
    (h : ofValue v = .error (.cast fault position)) (l : Literal) : l.matchValue v ≠ .ok true := by
  induction hv generalizing l with
  | list each ih =>
      obtain ⟨w, hw, failed⟩ := exists_of_ofValues_error (error_of_bind_pure h)
      exact matchValue_ne_true_of_mem l rfl hw (ih w hw failed)
  | tuple each ih =>
      obtain ⟨w, hw, failed⟩ := exists_of_ofValues_error (error_of_bind_pure h)
      exact matchValue_ne_true_of_mem l rfl hw (ih w hw failed)
  | @other v no_items no_literal =>
      intro matched
      cases sameKind_of_matchValue matched with
      | number n m =>
          have infinite := isFinite_of_ofNumber_cast (error_of_bind_pure h)
          exact n.not_equal_of_not_finite infinite matched
      | list items _ =>
          rw [no_items] at items
          cases items
      | _ => cases h

theorem Spellable.typed {l : Literal} (h : l.Spellable) : l.Typed := by
  induction h with
  | list items _ ih => exact .list ih
  | _ => constructor

/-- The literals that queries hold and that values can be made into, and the items of these. -/
inductive Built : Literal → Prop where
  | query {limit : Nat} {text : String} {level : List Predicate} {c : Condition} :
      parseWithin limit text = .ok level → c ∈ conditionsOf level → Built c.literal
  | value {v : Value} {l : Literal} : v.Plain → ofValue v = .ok l → Built l
  | item {items : List Literal} {l : Literal} : Built (list items) → l ∈ items → Built l

theorem Built.typed {l : Literal} (h : l.Built) : l.Typed := by
  induction h with
  | query parsed hc => exact ((spellable_of_parseWithin parsed).conditions _ hc).literal.typed
  | value hv made => exact .ofValue hv made
  | item _ hl ih =>
      cases ih with
      | list each => exact each _ hl

/-- A decimal, a list of a truth value, and a clock without an offset. -/
def mixedTuple : Value :=
  .tuple [.number (.decimal (.finite false 100 (-2))), .list [.bool true],
    .datetime ⟨⟨2024, 1, 1, by decide⟩, 0, 30, 0, 0, by decide⟩ none]

/-- Equal items of other kinds of number and sequence, and the same instant with an offset. -/
def mixedList : Value :=
  .list [.number (.int 1), .tuple [.bool true],
    .datetime ⟨⟨2024, 1, 1, by decide⟩, 1, 0, 0, 0, by decide⟩
      (some (.fixed ⟨1800000000, by decide⟩))]

end Literal

end RecordFilter
