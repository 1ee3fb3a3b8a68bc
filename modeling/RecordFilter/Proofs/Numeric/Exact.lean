import RecordFilter.Numeric.Number

/-! # The exact value of a number

A finite number of any kind stands for one rational number. Numbers of different kinds are equal if
they stand for the same one, and what is infinite or no number at all equals no finite number.
-/

namespace RecordFilter

namespace Number

/-- A size with its sign. -/
def signed (negative : Bool) (r : Rat) : Rat := if negative then -r else r

/-- The rational number that a number stands for, if it stands for one. -/
def rational? : Number → Option Rat
  | int n => some n
  | float (.finite negative m e _) => some (signed negative (m * 2 ^ e))
  | float _ => none
  | decimal (.finite negative c e) => some (signed negative (c * 10 ^ e))
  | decimal _ => none
  | fraction r => some r

theorem isSome_rational? (n : Number) : n.rational?.isSome = n.isFinite := by
  cases n with
  | int n => rfl
  | float x => cases x <;> rfl
  | decimal d => cases d <;> rfl
  | fraction r => rfl

private theorem toRat_signed (negative : Bool) (a : Scaled) :
    ∃ b, Magnitude.signed negative a = .real b ∧ b.toRat = signed negative a.toRat := by
  cases negative with
  | false => exact ⟨a, rfl, rfl⟩
  | true => exact ⟨a.negate, rfl, a.toRat_negate⟩

/-- Numbers are compared by the rational numbers that they stand for. -/
theorem exists_real {n : Number} {r : Rat} (h : n.rational? = some r) :
    ∃ a, n.magnitude = .real a ∧ a.toRat = r := by
  cases n with
  | int n =>
      cases h
      exact ⟨_, rfl, Scaled.toRat_ofRat _⟩
  | float x =>
      cases x with
      | finite negative m e canonical =>
          cases h
          obtain ⟨b, magnitude, value⟩ := toRat_signed negative (.ofRat (Binary64.scaled m e))
          rw [Scaled.toRat_ofRat] at value
          exact ⟨b, magnitude, value⟩
      | nan => cases h
      | infinite => cases h
  | decimal d =>
      cases d with
      | finite negative c e =>
          cases h
          exact toRat_signed negative ⟨c, e⟩
      | infinite => cases h
      | nan => cases h
  | fraction r =>
      cases h
      exact ⟨_, rfl, Scaled.toRat_ofRat _⟩

private theorem magnitude_ne_real {n : Number} (h : n.isFinite = false) (a : Scaled) :
    n.magnitude ≠ .real a := by
  cases n with
  | int n => cases h
  | float x =>
      cases x with
      | finite => cases h
      | nan => exact nofun
      | infinite negative => cases negative <;> exact nofun
  | decimal d =>
      cases d with
      | finite => cases h
      | infinite negative => cases negative <;> exact nofun
      | nan _ signaling _ => cases signaling <;> exact nofun
  | fraction r => cases h

end Number

namespace Scaled

theorem order_eq_iff {a b : Scaled} : a.order b = .eq ↔ a.toRat = b.toRat := by
  rw [order_eq_ite]
  constructor
  · intro h
    split at h
    · cases h
    · next below =>
        split at h
        · cases h
        · next above => exact Rat.le_antisymm (Rat.not_lt.mp above) (Rat.not_lt.mp below)
  · intro h
    rw [h, if_neg Rat.lt_irrefl, if_neg Rat.lt_irrefl]

theorem order_eq_lt_iff {a b : Scaled} : a.order b = .lt ↔ a.toRat < b.toRat := by
  rw [order_eq_ite]
  split
  · next less => simp [less]
  · next not_less => split <;> simp [not_less]

theorem order_eq_gt_iff {a b : Scaled} : a.order b = .gt ↔ b.toRat < a.toRat := by
  rw [order_eq_ite]
  split
  · next less => simp [Std.not_gt_of_lt less]
  · split
    · next greater => simp [greater]
    · next not_greater => simp [not_greater]

/-- Sizes that stand for the same number are ordered in the same way. -/
theorem order_congr {a b : Scaled} (h : a.toRat = b.toRat) (c : Scaled) :
    c.order a = c.order b := by
  rw [order_eq_ite, order_eq_ite, h]

end Scaled

theorem Magnitude.order?_congr {a b : Scaled} (h : a.toRat = b.toRat) (x : Magnitude) :
    x.order? (.real a) = x.order? (.real b) := by
  cases x with
  | real c => exact congrArg some (Scaled.order_congr h c)
  | _ => rfl

namespace FiniteNumber

/-- The rational number that a finite number stands for. -/
def value (n : FiniteNumber) : Rat :=
  n.number.rational?.get (n.number.isSome_rational?.trans n.isFinite)

theorem exists_magnitude (n : FiniteNumber) :
    ∃ a, n.number.magnitude = .real a ∧ a.toRat = n.value :=
  Number.exists_real (Option.some_get _).symm

theorem magnitude_ne_signaling (n : FiniteNumber) : n.number.magnitude ≠ .signaling := by
  obtain ⟨a, ha, _⟩ := n.exists_magnitude
  rw [ha]
  exact nofun

theorem order?_eq_iff (m n : FiniteNumber) :
    m.number.order? n.number = some .eq ↔ m.value = n.value := by
  obtain ⟨a, ha, va⟩ := m.exists_magnitude
  obtain ⟨c, hc, vc⟩ := n.exists_magnitude
  rw [Number.order?, ha, hc, ← va, ← vc, ← Scaled.order_eq_iff]
  exact Option.some_inj

/-- A number that is not signaling can be asked whether it equals a finite one. -/
theorem equal_eq {m : Number} (h : m.magnitude ≠ .signaling) (n : FiniteNumber) :
    m.equal n.number = .ok (m.order? n.number == some .eq) := by
  rw [Number.equal, if_neg (not_or.mpr ⟨h, n.magnitude_ne_signaling⟩)]

/-- Any number is ordered in the same way against finite numbers of one value. -/
theorem order?_congr {m n : FiniteNumber} (h : m.value = n.value) (a : Number) :
    a.order? m.number = a.order? n.number := by
  obtain ⟨b, hb, vb⟩ := m.exists_magnitude
  obtain ⟨c, hc, vc⟩ := n.exists_magnitude
  rw [Number.order?, Number.order?, hb, hc]
  exact Magnitude.order?_congr (vb.trans (h.trans vc.symm)) _

/-- Any number equals finite numbers of one value alike, and may refuse to be asked. -/
theorem equal_congr {m n : FiniteNumber} (h : m.value = n.value) (a : Number) :
    a.equal m.number = a.equal n.number := by
  simp only [Number.equal, m.magnitude_ne_signaling, n.magnitude_ne_signaling, order?_congr h]

/-- What lies above a number lies above every lesser one, and what lies below it below every greater
    one. -/
theorem order?_mono {m n : FiniteNumber} (h : m.value ≤ n.value) (a : Number) :
    (a.order? n.number = some .gt → a.order? m.number = some .gt) ∧
    (a.order? m.number = some .lt → a.order? n.number = some .lt) := by
  obtain ⟨b, hb, vb⟩ := m.exists_magnitude
  obtain ⟨c, hc, vc⟩ := n.exists_magnitude
  rw [Number.order?, Number.order?, hb, hc]
  cases a.magnitude with
  | real d =>
      simp only [Magnitude.order?, Option.some.injEq, Scaled.order_eq_gt_iff, Scaled.order_eq_lt_iff,
        vb, vc]
      exact ⟨fun above => Std.lt_of_le_of_lt h above, fun below => Std.lt_of_lt_of_le below h⟩
  | _ => exact ⟨id, id⟩

/-- What is not finite equals no finite number. -/
theorem not_equal_of_not_finite {m : Number} (h : m.isFinite = false) (n : FiniteNumber) :
    m.equal n.number ≠ .ok true := by
  obtain ⟨a, ha, _⟩ := n.exists_magnitude
  unfold Number.equal
  split
  · exact nofun
  · rw [Number.order?, ha]
    cases hm : m.magnitude with
    | real b => exact absurd hm (Number.magnitude_ne_real h b)
    | _ => exact nofun

end FiniteNumber

end RecordFilter
