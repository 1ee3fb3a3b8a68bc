import RecordFilter.Text.Digit

/-! # Numbers with their power of ten kept apart

A decimal may have an exponent so large that its power of ten cannot be written out. Two such
numbers are ordered by writing out no more of the power than it takes to pass the other number;
`below_iff` says that this gives their order on the real line. -/

namespace RecordFilter

/-- The number `base * 10 ^ tens`. One number has many such forms. -/
structure Scaled where
  base : Rat
  tens : Int
  deriving DecidableEq

namespace Scaled

/-- A number in its plainest form. -/
def ofRat (r : Rat) : Scaled := ⟨r, 0⟩

def toRat (a : Scaled) : Rat := a.base * (10 : Rat) ^ a.tens

/-- The number of the same size on the other side of zero. -/
def negate (a : Scaled) : Scaled := ⟨-a.base, a.tens⟩

def isZero (a : Scaled) : Bool := a.base == 0

/-- Multiplied by this power of ten or a larger one, `p` lies farther from zero than `q`, unless `p`
is zero. -/
def reach (p q : Rat) : Nat := (p.den * q.num.natAbs).log2 + 1

/-- A number that lies on the same side of `q` as `p * 10 ^ k` does. -/
def capped (p : Rat) (k : Nat) (q : Rat) : Rat := p * (10 : Rat) ^ min k (reach p q)

/-- Whether `a` is the lesser number. -/
def below (a b : Scaled) : Bool :=
  if b.tens ≤ a.tens then capped a.base (a.tens - b.tens).toNat b.base < b.base
  else a.base < capped b.base (b.tens - a.tens).toNat a.base

def order (a b : Scaled) : Ordering :=
  if a.below b then .lt else if b.below a then .gt else .eq

/-- The whole number that a form stands for, if it stands for one. A number less than one is found
to be none without its power of ten. -/
def toInt? (a : Scaled) : Option Int :=
  if a.isZero then some 0
  else if a.tens + Text.digitCount a.base.num.natAbs ≤ 0 then none
  else if a.toRat.den = 1 then some a.toRat.num
  else none

theorem toRat_ofRat (r : Rat) : (ofRat r).toRat = r := by simp [ofRat, toRat]

theorem toRat_negate (a : Scaled) : a.negate.toRat = -a.toRat := Rat.neg_mul _ _

private theorem pow_ten_pos (k : Nat) : (0 : Rat) < (10 : Rat) ^ k := Rat.pow_pos (by decide)

private theorem mul_den_eq_num (p : Rat) : p * p.den = p.num := by
  have h := Rat.num_divInt_den p
  rw [Rat.divInt_eq_div] at h
  have hd : ((p.den : Int) : Rat) ≠ 0 := by exact_mod_cast p.den_nz
  calc p * p.den = (p.num : Rat) / ((p.den : Int) : Rat) * ((p.den : Int) : Rat) := by rw [h]; rfl
    _ = p.num := Rat.div_mul_cancel hd

/-- A number is at most the size of its numerator. -/
theorem le_natAbs_num (q : Rat) : q ≤ (q.num.natAbs : Rat) := by
  rw [Rat.le_iff]
  simp only [Rat.num_natCast, Rat.den_natCast]
  have h₁ : q.num ≤ q.num.natAbs := Int.le_natAbs
  have h₂ : (1 : Int) ≤ q.den := by have := q.den_pos; omega
  have h₃ : (0 : Int) ≤ q.num.natAbs := by omega
  calc q.num * 1 ≤ q.num.natAbs * 1 := by omega
    _ ≤ q.num.natAbs * q.den := Int.mul_le_mul_of_nonneg_left h₂ h₃

/-- A positive number times a power of ten out of reach of `q` lies above `q`. -/
theorem lt_mul_pow {p q : Rat} (hp : 0 < p) {k : Nat} (hk : reach p q ≤ k) : q < p * 10 ^ k := by
  have hpow : ((p.den : Rat) * (q.num.natAbs : Rat)) < 10 ^ k := by
    have reached : p.den * q.num.natAbs < 10 ^ k :=
      calc p.den * q.num.natAbs < 2 ^ reach p q := Nat.lt_log2_self
        _ ≤ 10 ^ reach p q := Nat.pow_le_pow_left (by decide) _
        _ ≤ 10 ^ k := Nat.pow_le_pow_right (by decide) hk
    simpa using Rat.natCast_lt_natCast.2 reached
  have hnum : (1 : Rat) ≤ p.num := by
    have h := (Rat.lt_iff 0 p).1 hp
    simp only [Rat.num_ofNat, Rat.den_ofNat] at h
    have : (1 : Int) ≤ p.num := by omega
    simpa using Rat.intCast_le_intCast.2 this
  have hden : (0 : Rat) < p.den := by simpa using Rat.natCast_lt_natCast.2 p.den_pos
  have hprod : (q.num.natAbs : Rat) * p.den < p * 10 ^ k * p.den := by
    have hscaled : (10 : Rat) ^ k ≤ p.num * 10 ^ k := by
      simpa using Rat.mul_le_mul_of_nonneg_right hnum (Rat.le_of_lt (pow_ten_pos k))
    rw [Rat.mul_assoc, Rat.mul_comm (10 ^ k), ← Rat.mul_assoc, mul_den_eq_num, Rat.mul_comm]
    exact Std.lt_of_lt_of_le hpow hscaled
  exact Std.lt_of_le_of_lt (le_natAbs_num q) ((Rat.mul_lt_mul_right hden).1 hprod)

/-- A negative number times a power of ten out of reach of `q` lies below `q`. -/
theorem mul_pow_lt {p q : Rat} (hp : p < 0) {k : Nat} (hk : reach p q ≤ k) : p * 10 ^ k < q := by
  have hreach : reach (-p) (-q) ≤ k := by simpa [reach] using hk
  have h := lt_mul_pow (p := -p) (q := -q) (by simpa using Rat.neg_lt_neg hp) hreach
  rw [Rat.neg_mul] at h
  exact Rat.neg_lt_neg_iff.1 h

theorem capped_lt_iff {p q : Rat} {k : Nat} : capped p k q < q ↔ p * 10 ^ k < q := by
  unfold capped
  rcases Nat.le_total k (reach p q) with h | h
  · rw [Nat.min_eq_left h]
  · rw [Nat.min_eq_right h]
    rcases Std.lt_trichotomy p 0 with hp | rfl | hp
    · exact iff_of_true (mul_pow_lt hp (Nat.le_refl _)) (mul_pow_lt hp h)
    · simp
    · exact iff_of_false (Std.not_gt_of_lt (lt_mul_pow hp (Nat.le_refl _)))
        (Std.not_gt_of_lt (lt_mul_pow hp h))

theorem lt_capped_iff {p q : Rat} {k : Nat} : q < capped p k q ↔ q < p * 10 ^ k := by
  unfold capped
  rcases Nat.le_total k (reach p q) with h | h
  · rw [Nat.min_eq_left h]
  · rw [Nat.min_eq_right h]
    rcases Std.lt_trichotomy p 0 with hp | rfl | hp
    · exact iff_of_false (Std.not_gt_of_lt (mul_pow_lt hp (Nat.le_refl _)))
        (Std.not_gt_of_lt (mul_pow_lt hp h))
    · simp
    · exact iff_of_true (lt_mul_pow hp (Nat.le_refl _)) (lt_mul_pow hp h)

/-- A power of ten above another is that one times a power that can be written out. -/
theorem zpow_ten_eq {i j : Int} (h : j ≤ i) :
    (10 : Rat) ^ i = (10 : Rat) ^ (i - j).toNat * (10 : Rat) ^ j := by
  rw [← Rat.zpow_natCast, ← Rat.zpow_add (by decide)]
  congr 1
  omega

/-- The order of the forms is that of the numbers. -/
theorem below_iff {a b : Scaled} : a.below b = true ↔ a.toRat < b.toRat := by
  have hpos (e : Int) : (0 : Rat) < (10 : Rat) ^ e := Rat.zpow_pos (by decide)
  unfold below toRat
  split
  case isTrue h =>
    rw [zpow_ten_eq h, ← Rat.mul_assoc, Rat.mul_lt_mul_right (hpos _), decide_eq_true_iff,
      capped_lt_iff]
  case isFalse h =>
    rw [zpow_ten_eq (show a.tens ≤ b.tens by omega), ← Rat.mul_assoc,
      Rat.mul_lt_mul_right (hpos _), decide_eq_true_iff, lt_capped_iff]

theorem order_eq_ite (a b : Scaled) :
    a.order b = if a.toRat < b.toRat then .lt else if b.toRat < a.toRat then .gt else .eq := by
  simp only [order, below_iff]

end Scaled
end RecordFilter
