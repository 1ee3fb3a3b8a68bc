import Mathlib.Algebra.Order.Field.Power
import Mathlib.Algebra.Order.Field.Rat
import RecordFilter.Proofs.Effect
import RecordFilter.Proofs.Literal.Matching
import RecordFilter.Proofs.Predicate.Building

/-! # Values that become literals

Lists and tuples are opened, however deep, and what stands in them decides. It is taken if it is of
a kind that literals have, and a number only if it stands for a real number. The first that is not
taken fails the whole value, and it fails as a bad literal. One kind of number does not keep to
this: a fraction beyond all floating point values stands for a real number, is not taken, and does
not fail as a bad literal.
-/

namespace RecordFilter

namespace Value

mutual

/-- What stands in a value, from left to right, when lists and tuples are opened. -/
def contents : Value → List Value
  | list items => contentsOf items
  | tuple items => contentsOf items
  | v => [v]

/-- What stands in values one after the other. -/
def contentsOf : List Value → List Value
  | [] => []
  | v :: rest => v.contents ++ contentsOf rest

end

/-- Neither a list nor a tuple. -/
def IsScalar (v : Value) : Prop := v.items? = none

mutual

theorem isScalar_of_mem_contents {v w : Value} (h : w ∈ v.contents) : w.IsScalar := by
  cases v with
  | list items => exact isScalar_of_mem_contentsOf h
  | tuple items => exact isScalar_of_mem_contentsOf h
  | _ =>
      simp only [contents, List.mem_singleton] at h
      subst h
      rfl

private theorem isScalar_of_mem_contentsOf {items : List Value} {w : Value}
    (h : w ∈ contentsOf items) :
    w.IsScalar := by
  cases items with
  | nil => cases h
  | cons v rest =>
      rcases List.mem_append.mp h with first | others
      · exact isScalar_of_mem_contents first
      · exact isScalar_of_mem_contentsOf others

end

/-- A fraction beyond all floating point values. -/
def IsHuge (v : Value) : Prop :=
  ∃ r, v = number (.fraction r) ∧ (r ≤ -Binary64.overflowBound ∨ Binary64.overflowBound ≤ r)

/-- Literals are made of values of this kind. -/
def hasLiteralKind : Value → Bool
  | complex .. | set _ | bytes _ | dict _ | object .. => false
  | _ => true

/-- What is taken wherever it stands. A number has to stand for a real number. -/
inductive Acceptable : Value → Prop where
  | null : Acceptable null
  | bool (b : Bool) : Acceptable (bool b)
  | number {n : Number} : n.rational?.isSome = true → ¬ IsHuge (number n) → Acceptable (number n)
  | text (s : String) : Acceptable (text s)
  | date (d : Date) : Acceptable (date d)
  | datetime (clock : WallClock) (zone : Option TimeZone) : Acceptable (datetime clock zone)
  | literal (l : Literal) : Acceptable (literal l)

/-- What is refused, and how. Only the fraction is not refused as a bad literal. -/
inductive Refused : Value → Failure → Prop where
  | huge {v : Value} : v.IsHuge → Refused v .fractionTooLarge
  | notFinite {n : Number} {shown : String} : n.rational? = none → n.shown = .ok shown →
      Refused (number n) (.cast (.notFinite shown) none)
  | unsupported {v : Value} : v.hasLiteralKind = false →
      Refused v (.cast (.unsupportedType v.typeName) none)

private theorem Refused.isCast {v : Value} {failure : Failure} (h : v.Refused failure)
    (small : ¬ v.IsHuge) :
    ∃ fault, failure = .cast fault none := by
  cases h with
  | huge large => exact absurd large small
  | notFinite => exact ⟨_, rfl⟩
  | unsupported => exact ⟨_, rfl⟩

end Value

/-- What does not stand for a real number has a text all the same. -/
theorem Number.exists_shown_of_not_finite {n : Number} (h : n.isFinite = false) :
    ∃ s, n.shown = .ok s := by
  cases n with
  | int n => cases h
  | float x => exact ⟨x.text, rfl⟩
  | decimal d => exact ⟨_, rfl⟩
  | fraction r => cases h

namespace FiniteNumber

theorem ofNumber_eq_ok_of_acceptable {n : Number} (h : Value.Acceptable (.number n)) :
    ∃ m, ofNumber n = .ok m := by
  cases h with
  | number real small =>
      rw [Number.isSome_rational?] at real
      unfold ofNumber
      split
      · next r =>
          rw [if_neg fun large => small ⟨r, rfl, large⟩]
          exact ⟨_, rfl⟩
      · rw [dif_pos real]
        exact ⟨_, rfl⟩

private theorem ofNumber_eq_error_of_refused {n : Number} {failure : Failure}
    (h : Value.Refused (.number n) failure) : ofNumber n = .error failure := by
  cases h with
  | huge large =>
      obtain ⟨r, same, large⟩ := large
      cases same
      exact if_pos large
  | notFinite unreal shown =>
      have infinite : n.isFinite = false := by
        rw [← Number.isSome_rational?, unreal]
        rfl
      unfold ofNumber
      split
      · cases infinite
      · rw [dif_neg (Bool.eq_false_iff.mp infinite), shown, ok_bind]
  | unsupported kind => cases kind

end FiniteNumber

namespace Value

private theorem acceptable_or_refused_number (n : Number) :
    Acceptable (number n) ∨ ∃ failure, Refused (number n) failure := by
  by_cases large : IsHuge (number n)
  · exact .inr ⟨_, .huge large⟩
  · cases real : n.rational? with
    | some r => exact .inl (.number (Option.isSome_of_eq_some real) large)
    | none =>
        have infinite : n.isFinite = false := by
          rw [← Number.isSome_rational?, real]
          rfl
        obtain ⟨shown, hs⟩ := Number.exists_shown_of_not_finite infinite
        exact .inr ⟨_, .notFinite real hs⟩

/-- Nothing that stands in a value is left out. -/
theorem acceptable_or_refused {v : Value} (h : v.IsScalar) :
    v.Acceptable ∨ ∃ failure, v.Refused failure := by
  cases v with
  | null => exact .inl .null
  | bool b => exact .inl (.bool b)
  | number n => exact acceptable_or_refused_number n
  | text s => exact .inl (.text s)
  | date d => exact .inl (.date d)
  | datetime clock zone => exact .inl (.datetime clock zone)
  | literal l => exact .inl (.literal l)
  | list items => cases h
  | tuple items => cases h
  | _ => exact .inr ⟨_, .unsupported rfl⟩

end Value

namespace Literal

open Value

theorem exists_ofValue_of_acceptable {v : Value} (h : v.Acceptable) : ∃ l, ofValue v = .ok l := by
  cases h with
  | number real small =>
      obtain ⟨m, hm⟩ := FiniteNumber.ofNumber_eq_ok_of_acceptable (.number real small)
      rw [ofValue, hm]
      exact ⟨_, rfl⟩
  | _ => exact ⟨_, rfl⟩

theorem ofValue_eq_error_of_refused {v : Value} {failure : Failure} (h : v.Refused failure) :
    ofValue v = .error failure := by
  cases h with
  | huge large =>
      obtain ⟨r, rfl, large⟩ := large
      rw [ofValue, FiniteNumber.ofNumber_eq_error_of_refused (.huge ⟨r, rfl, large⟩), error_bind]
  | notFinite unreal shown =>
      rw [ofValue, FiniteNumber.ofNumber_eq_error_of_refused (.notFinite unreal shown), error_bind]
  | unsupported kind =>
      cases v with
      | complex | set | bytes | dict | object => rfl
      | _ => cases kind

private theorem ofValue_eq_error_iff_refused {v : Value} (h : v.IsScalar) {failure : Failure} :
    ofValue v = .error failure ↔ v.Refused failure := by
  constructor
  · intro failed
    rcases acceptable_or_refused h with good | ⟨other, bad⟩
    · obtain ⟨l, made⟩ := exists_ofValue_of_acceptable good
      cases failed.symm.trans made
    · cases failed.symm.trans (ofValue_eq_error_of_refused bad)
      exact bad
  · exact ofValue_eq_error_of_refused

theorem exists_ofValue_iff_acceptable {v : Value} (h : v.IsScalar) :
    (∃ l, ofValue v = .ok l) ↔ v.Acceptable := by
  constructor
  · rintro ⟨l, made⟩
    rcases acceptable_or_refused h with good | ⟨failure, bad⟩
    · exact good
    · cases made.symm.trans (ofValue_eq_error_of_refused bad)
  · exact exists_ofValue_of_acceptable

mutual

/-- But for the literal that it gives, making a literal is going through what stands in the value.
    -/
theorem effectOf_ofValue (v : Value) :
    effectOf (ofValue v) = forM v.contents fun w => effectOf (ofValue w) := by
  cases v with
  | list items => rw [ofValue, effectOf_bind_pure, contents, effectOf_ofValues]
  | tuple items => rw [ofValue, effectOf_bind_pure, contents, effectOf_ofValues]
  | _ => simp [contents]

private theorem effectOf_ofValues (items : List Value) :
    effectOf (ofValues items) = forM (contentsOf items) fun w => effectOf (ofValue w) := by
  cases items with
  | nil => rfl
  | cons v rest =>
      rw [ofValues, contentsOf, List.forM_append, ← effectOf_ofValue v, ← effectOf_ofValues rest,
        effectOf_bind]
      simp only [effectOf_bind_pure]
      rw [← bind_eq_effectOf_bind]

end

theorem ofValue_eq_error_iff {v : Value} {failure : Failure} :
    ofValue v = .error failure ↔ ∃ before w after, v.contents = before ++ w :: after ∧
      (∀ u ∈ before, u.Acceptable) ∧ w.Refused failure := by
  rw [← effectOf_eq_error_iff, effectOf_ofValue, forM_effectOf_eq_error_iff]
  -- On what stands in a value, being taken and having a literal are the same.
  refine exists_congr fun before => exists_congr fun w => exists_congr fun after =>
    and_congr_right fun whole => ?_
  have scalar : ∀ u ∈ before ++ w :: after, u.IsScalar := by
    rw [← whole]
    exact fun u hu => isScalar_of_mem_contents hu
  rw [List.forall_mem_append, List.forall_mem_cons] at scalar
  exact and_congr
    (forall₂_congr fun u hu => exists_ofValue_iff_acceptable (scalar.1 u hu))
    (ofValue_eq_error_iff_refused scalar.2.1)

theorem exists_ofValue_iff {v : Value} :
    (∃ l, ofValue v = .ok l) ↔ ∀ w ∈ v.contents, w.Acceptable := by
  rw [← effectOf_eq_ok_iff, effectOf_ofValue, forM_effectOf_eq_ok_iff]
  exact forall₂_congr fun w hw => exists_ofValue_iff_acceptable (isScalar_of_mem_contents hw)

end Literal

namespace Builder

/-- A builder that is open takes a condition if its value becomes a literal, and otherwise fails as
    that does and stays as it is. -/
theorem runFrom_addCondition {b : Builder} (h : b.Open) (identifier : String) (op : Comparison)
    (v : Value) :
    (∀ l, Literal.ofValue v = .ok l → (addCondition identifier op.text v).runFrom b =
      (.ok (), b.push (.condition ⟨identifier, op, l⟩) none)) ∧
    ∀ failure, Literal.ofValue v = .error failure →
      (addCondition identifier op.text v).runFrom b = (.error failure, b) := by
  constructor
  · intro l made
    rw [addCondition, runFrom_add_lift, Condition.ofText, Comparison.ofText?_text, made]
    exact runFrom_add_of_open h _
  · intro failure failed
    rw [addCondition, runFrom_add_lift, Condition.ofText, Comparison.ofText?_text, failed]
    rfl

end Builder

section

open Value Literal

/-- A value becomes a literal exactly if all that stands in it is taken, and otherwise fails as the
    first part that is refused. Where there is no fraction beyond all floating point values, every
    failure is that of a bad literal, and a number is taken and kept if it stands for a real number.
    An open builder does as the value does. -/
theorem refused_alike (v : Value) :
    ((∃ l, ofValue v = .ok l) ↔ ∀ w ∈ v.contents, w.Acceptable) ∧
    (∀ failure, ofValue v = .error failure ↔ ∃ before w after, v.contents = before ++ w :: after ∧
      (∀ u ∈ before, u.Acceptable) ∧ w.Refused failure) ∧
    ((∀ w ∈ v.contents, ¬ w.IsHuge) → ∀ failure, ofValue v = .error failure →
      ∃ fault, failure = .cast fault none) ∧
    (∀ (n : Number) (r : Rat), v = .number n → n.rational? = some r → ¬ v.IsHuge →
      ∃ l, ofValue v = .ok l ∧ l.toValue = .ok v) ∧
    ∀ (b : Builder) (identifier : String) (op : Comparison), b.Open →
      (∀ l, ofValue v = .ok l → (Builder.addCondition identifier op.text v).runFrom b =
        (.ok (), b.push (.condition ⟨identifier, op, l⟩) none)) ∧
      ∀ failure, ofValue v = .error failure →
        (Builder.addCondition identifier op.text v).runFrom b = (.error failure, b) := by
  refine ⟨exists_ofValue_iff, fun failure => ofValue_eq_error_iff, ?_, ?_, ?_⟩
  · intro small failure failed
    obtain ⟨before, w, after, whole, _, bad⟩ := ofValue_eq_error_iff.mp failed
    apply bad.isCast
    apply small
    rw [whole]
    exact List.mem_append_right _ List.mem_cons_self
  · rintro n r rfl real small
    obtain ⟨m, made⟩ :=
      FiniteNumber.ofNumber_eq_ok_of_acceptable (.number (Option.isSome_of_eq_some real) small)
    refine ⟨.number m, ?_, ?_⟩
    · rw [ofValue, made]
      rfl
    · rw [toValue, number_eq_of_ofNumber made]
  · intro b identifier op h
    exact Builder.runFrom_addCondition h identifier op v

/-- A decimal with a million digits is taken, and the set behind it in a tuple is refused. -/
theorem refused_alike_nested :
    let large := Number.decimal (.finite false 1 999999)
    let v := Value.list [.number large, .tuple [.set []]]
    (∀ w ∈ v.contents, ¬ w.IsHuge) ∧
    ofValue v = .error (.cast (.unsupportedType "set") none) ∧
    (∃ fault, Failure.cast (.unsupportedType "set") none = .cast fault none) ∧
    (∃ l, ofValue (.number large) = .ok l ∧ l.toValue = .ok (.number large)) ∧
    Builder.empty.Open ∧
    (Builder.addCondition "x" "in" v).runFrom .empty =
      (.error (.cast (.unsupportedType "set") none), .empty) := by
  intro large v
  have small : ∀ w ∈ v.contents, ¬ w.IsHuge := by
    rintro w hw ⟨r, rfl, _⟩
    simp [v, large, contents, contentsOf] at hw
  obtain ⟨_, refused, cast, _, builder⟩ := refused_alike v
  have bad : ofValue v = .error (.cast (.unsupportedType "set") none) :=
    (refused _).mpr ⟨[.number large], .set [], [], rfl,
      List.forall_mem_singleton.mpr (.number rfl (small _ List.mem_cons_self)), .unsupported rfl⟩
  refine ⟨small, bad, cast small _ bad, ?_, .inl rfl, ?_⟩
  · exact (refused_alike (.number large)).2.2.2.1 large _ rfl rfl (small _ List.mem_cons_self)
  · exact (builder .empty "x" .memberOf (.inl rfl)).2 _ bad

/-- A fraction that stands for a real number is refused, and not as a bad literal is, wherever it
    stands and whoever is given it. -/
theorem huge_fraction_refused_otherwise :
    ∃ r : Rat, Number.rational? (.fraction r) = some r ∧
      ofValue (.number (.fraction r)) = .error .fractionTooLarge ∧
      ofValue (.list [.null, .tuple [.number (.fraction r)]]) = .error .fractionTooLarge ∧
      (Builder.addCondition "x" "==" (.number (.fraction r))).resultFrom .empty =
        .error .fractionTooLarge ∧
      Failure.fractionTooLarge.isParseFailure = false := by
  have large : Binary64.overflowBound ≤ (2 : Rat) ^ (1024 : Int) :=
    sub_le_self _ (zpow_nonneg (by decide) _)
  have bad : Refused (.number (.fraction ((2 : Rat) ^ (1024 : Int)))) .fractionTooLarge :=
    .huge ⟨_, rfl, .inr large⟩
  refine ⟨_, rfl, ofValue_eq_error_of_refused bad, ?_, ?_, rfl⟩
  · exact ofValue_eq_error_iff.mpr ⟨[.null], _, [], rfl, List.forall_mem_singleton.mpr .null, bad⟩
  · exact congrArg Prod.fst ((Builder.runFrom_addCondition (.inl rfl) "x" .equal _).2 _
      (ofValue_eq_error_of_refused bad))

end

end RecordFilter
