import RecordFilter.Proofs.Calendar.DayCount
import RecordFilter.Proofs.Predicate.Evaluation
import RecordFilter.Proofs.Predicate.Order

/-! # Membership is equality with a member

Two comparisons search a list: one asks whether the subject is among the items of a literal, the
other whether a literal is among the items of the subject. Both search by matching, while equality
asks dates and times for their order. All the same they agree with equality, except that a date
equals the times of its day and matches none of them.
-/

namespace RecordFilter

/-- The answer tells whether `p` holds. There is an answer, or else `quiet` does not hold and a
    signaling decimal refused. -/
structure Decides (quiet p : Prop) (x : Except Failure Bool) : Prop where
  answers : Answers quiet x
  told : ∀ b, x = .ok b → (b = true ↔ p)

section

variable {α : Type} {f : α → Except Failure Bool} {xs : List α} {b : Bool}

/-- What a search tells is whether there is something that it looks for. -/
theorem exists_mem_iff_of_anyM (h : xs.anyM f = .ok b) : b = true ↔ ∃ x ∈ xs, f x = .ok true := by
  induction xs with
  | nil =>
      cases h
      exact iff_of_false nofun fun ⟨_, hx, _⟩ => List.not_mem_nil hx
  | cons x rest ih =>
      rw [List.anyM] at h
      obtain ⟨found, asked, more⟩ := bind_eq_ok_iff.mp h
      cases found with
      | true =>
          cases more
          exact iff_of_true rfl ⟨x, List.mem_cons_self, asked⟩
      | false =>
          rw [ih more]
          simp [asked]

end

private theorem Literal.matchAny_eq_anyM (items : List Literal) (v : Value) :
    matchAny items v = items.anyM (·.matchValue v) := by
  induction items with
  | nil => rfl
  | cons l rest ih =>
      rw [matchAny, List.anyM, ih]
      apply bind_congr
      rintro (_ | _) <;> rfl

namespace Comparison

variable {l : Literal} {v : Value}

private theorem anyMatch_eq_anyM (l : Literal) (values : List Value) :
    anyMatch l values = values.anyM l.matchValue := by
  induction values with
  | nil => rfl
  | cons v rest ih =>
      rw [anyMatch, List.anyM, ih]
      apply bind_congr
      rintro (_ | _) <;> rfl

private theorem order_beq_eq (d e : Date) : (some (d.order e) == some Ordering.eq) = (d == e) := by
  rw [Bool.eq_iff_iff, beq_iff_eq, beq_iff_eq, Option.some.injEq, Date.order_eq_iff]

/-- A subject equals the literals that match it, unless it is a time and the literal is a date. -/
theorem equals_eq_matchValue
    (apart : (∀ d, l ≠ .date d) ∨ ∀ clock zone, v ≠ .datetime clock zone) :
    equals v l = l.matchValue v := by
  cases l with
  | date d =>
      cases v with
      | date e => exact congrArg Except.ok (order_beq_eq e d)
      | datetime clock zone =>
          rcases apart with apart | apart
          · exact absurd rfl (apart d)
          · exact absurd rfl (apart clock zone)
      | _ => rfl
  | misdated clock zone => cases v <;> rfl
  | datetime z => cases v <;> rfl
  | _ => rfl

private theorem decides_memberOf {items : List Literal} (genuine : ∀ l ∈ items, l.Genuine)
    (apart : (∀ d, .date d ∉ items) ∨ ∀ clock zone, v ≠ .datetime clock zone) :
    Decides v.Quiet (∃ l ∈ items, equal.holds v l = .ok true) (memberOf.holds v (.list items)) := by
  refine ⟨Literal.answers_matchAny genuine v, fun b h => ?_⟩
  rw [holds, Literal.matchAny_eq_anyM] at h
  rw [exists_mem_iff_of_anyM h]
  refine exists_congr fun l => and_congr_right fun hl => ?_
  rw [holds, equals_eq_matchValue (apart.imp_left fun no_date d same => no_date d (same ▸ hl))]

private theorem decides_anyMatch {values : List Value} (genuine : l.Genuine)
    (apart : (∀ d, l ≠ .date d) ∨ ∀ clock zone, .datetime clock zone ∉ values) :
    Decides (∀ w ∈ values, w.Quiet) (∃ w ∈ values, equal.holds w l = .ok true)
      (anyMatch l values) := by
  refine ⟨answers_anyMatch genuine values, fun b h => ?_⟩
  rw [anyMatch_eq_anyM] at h
  rw [exists_mem_iff_of_anyM h]
  refine exists_congr fun w => and_congr_right fun hw => ?_
  rw [holds, equals_eq_matchValue (apart.imp_right fun no_time _ _ same => no_time _ _ (same ▸ hw))]

private theorem decides_contains {values : List Value} (items : v.items? = some values)
    (genuine : l.Genuine)
    (apart : (∀ d, l ≠ .date d) ∨ ∀ clock zone, .datetime clock zone ∉ values) :
    Decides v.Quiet (∃ w ∈ values, equal.holds w l = .ok true) (contains.holds v l) := by
  have search := decides_anyMatch genuine apart
  simp only [holds, items] at search ⊢
  exact ⟨search.answers.mono (Literal.quiet_of_items? items), search.told⟩

private theorem decides_notContains {values : List Value} (items : v.items? = some values)
    (genuine : l.Genuine) :
    Decides v.Quiet (contains.holds v l ≠ .ok true) (notContains.holds v l) := by
  have search : Answers v.Quiet (anyMatch l values) :=
    (answers_anyMatch genuine values).mono (Literal.quiet_of_items? items)
  simp only [holds, items]
  refine ⟨search.bind fun _ => .ok _, fun b h => ?_⟩
  obtain ⟨found, asked, ⟨⟩⟩ := bind_eq_ok_iff.mp h
  cases found <;> simp [asked]

end Comparison

section

variable {lookup : Lookup} {record v : Value} {x : String}

/-- A subject is a member of a list literal if it equals one of the items. A list or a tuple
    contains a literal if one of its members equals it, and does not contain it otherwise; and what
    is no list or tuple neither contains a literal nor does not contain it. Only a signaling decimal
    in the subject can refuse the search. -/
theorem membership_iff_equality (found : lookup record (Identifier.path x) = .ok v) :
    (∀ items : List Literal, (∀ l ∈ items, l.Genuine) →
      ((∀ d, .date d ∉ items) ∨ ∀ clock zone, v ≠ .datetime clock zone) →
      Decides v.Quiet (∃ l ∈ items, Condition.holds lookup record ⟨x, .equal, l⟩ = .ok true)
        (Condition.holds lookup record ⟨x, .memberOf, .list items⟩)) ∧
    (∀ l : Literal, l.Genuine → ∀ values, v.items? = some values →
      (((∀ d, l ≠ .date d) ∨ ∀ clock zone, .datetime clock zone ∉ values) →
        Decides v.Quiet (∃ w ∈ values, Comparison.equal.holds w l = .ok true)
          (Condition.holds lookup record ⟨x, .contains, l⟩)) ∧
      Decides v.Quiet (Condition.holds lookup record ⟨x, .contains, l⟩ ≠ .ok true)
        (Condition.holds lookup record ⟨x, .notContains, l⟩)) ∧
    (v.items? = none → ∀ l : Literal,
      Condition.holds lookup record ⟨x, .contains, l⟩ = .ok false ∧
      Condition.holds lookup record ⟨x, .notContains, l⟩ = .ok false) := by
  have asks (op : Comparison) (l : Literal) :
      Condition.holds lookup record ⟨x, op, l⟩ = op.holds v l := Condition.holds_of_found found
  simp only [asks]
  refine ⟨?_, ?_, ?_⟩
  · intro items genuine apart
    exact Comparison.decides_memberOf genuine apart
  · intro l genuine values items
    exact ⟨Comparison.decides_contains items genuine, Comparison.decides_notContains items genuine⟩
  · intro no_items l
    simp only [Comparison.holds, no_items, and_self]

end

/-- A text, and a decimal that equals one. -/
def mixedMembers : Value := .tuple [.text "1", .number (.decimal (.finite false 10 (-1)))]

theorem membership_iff_equality_mixed :
    Lookup.path (.dict [("x", mixedMembers)]) (Identifier.path "x") = .ok mixedMembers ∧
    mixedMembers.Quiet ∧
    Condition.holds Lookup.path (.dict [("x", mixedMembers)])
      ⟨"x", .contains, .number ⟨.int 1, rfl⟩⟩ = .ok true ∧
    Condition.holds Lookup.path (.dict [("x", mixedMembers)])
      ⟨"x", .memberOf, .list [.text "1", .list [.text "1", .number ⟨.int 1, rfl⟩]]⟩ = .ok true := by
  have found : Lookup.path (.dict [("x", mixedMembers)]) (Identifier.path "x") =
      .ok mixedMembers := by
    cbv
  have quiet : mixedMembers.Quiet := by
    refine .tuple _ ?_
    rw [List.forall_mem_cons, List.forall_mem_singleton]
    exact ⟨.text _, .number _ (by decide)⟩
  have pair : Literal.Genuine (.list [.text "1", .number ⟨.int 1, rfl⟩]) := by
    refine .list _ ?_
    rw [List.forall_mem_cons, List.forall_mem_singleton]
    exact ⟨.text _, .number _⟩
  obtain ⟨member, search, _⟩ := membership_iff_equality found
  have contained := (search (.number ⟨.int 1, rfl⟩) (.number _) _ rfl).1
    (.inl fun _ h => Literal.noConfusion h)
  have listed := member [.text "1", .list [.text "1", .number ⟨.int 1, rfl⟩]]
    (List.forall_mem_cons.mpr ⟨.text _, List.forall_mem_singleton.mpr pair⟩) (.inl (by simp))
  refine ⟨found, quiet, ?_, ?_⟩
  · obtain ⟨b, answer⟩ := contained.answers.exists_ok quiet
    rw [answer, (contained.told b answer).mpr ⟨_, .tail _ (.head _), by cbv⟩]
  · obtain ⟨b, answer⟩ := listed.answers.exists_ok quiet
    rw [answer, (listed.told b answer).mpr ⟨_, .tail _ (.head _), by cbv⟩]

/-- A search that comes upon a signaling decimal has no answer, even if a later member is equal. -/
theorem evaluateLevel_contains_signaling : ∃ level,
    parseWithin 64 "x contains 1" = .ok level ∧
    evaluateLevel Lookup.path
      (.dict [("x", .list [.number (.decimal (.nan false true 0)), .number (.int 1)])]) level =
        .error .signalingNaN ∧
    Comparison.equal.holds (.number (.int 1)) (.number ⟨.int 1, rfl⟩) = .ok true := by
  refine ⟨[.linked (.condition ⟨"x", .contains, .number ⟨.int 1, rfl⟩⟩) none], ?_, ?_, ?_⟩
  · cbv
  · cbv
  · cbv

end RecordFilter
