import Mathlib.Tactic.NormNum
import RecordFilter.Numeric.Shortest
import RecordFilter.Proofs.Numeric.Rounding
import RecordFilter.Proofs.Text.Digits

/-! # Digits that read back

What a numeral reads as depends only on its sign and its magnitude, even though the bounds beyond
which no power is computed look at its digits. So the digits of a value in full read back as that
value, and then so do the fewest digits, which are taken only if they do.
-/

namespace RecordFilter

namespace Numeral

open Text

theorem ten_zpow_pos (e : Int) : (0 : Rat) < 10 ^ e := zpow_pos (by norm_num) e

theorem ten_zpow_lt_iff {d e : Int} : (10 : Rat) ^ d < 10 ^ e ↔ d < e :=
  zpow_lt_zpow_iff_right₀ (by norm_num)

theorem magnitude_eq_zero_iff {n : Numeral} : n.magnitude = 0 ↔ n.coefficient = 0 := by
  rw [magnitude, mul_eq_zero, or_iff_left (ten_zpow_pos _).ne', Nat.cast_eq_zero]

/-- The place of the leading digit tells which powers of ten lie above a number. -/
theorem magnitude_lt_iff {n : Numeral} (h : n.coefficient ≠ 0) (p : Int) :
    n.magnitude < 10 ^ p ↔ n.leadingPlace ≤ p := by
  have upper : n.magnitude < 10 ^ n.leadingPlace := by
    rw [magnitude, leadingPlace, zpow_add₀ (by norm_num), zpow_natCast]
    have : (n.coefficient : Rat) < 10 ^ digitCount n.coefficient := by
      exact_mod_cast lt_pow_digitCount n.coefficient
    exact mul_lt_mul_of_pos_right this (ten_zpow_pos _)
  have lower : (10 : Rat) ^ (n.leadingPlace - 1) ≤ n.magnitude := by
    have place : n.leadingPlace - 1 = ((digitCount n.coefficient - 1 : Nat) : Int) + n.exponent := by
      have := digitCount_pos n.coefficient
      rw [leadingPlace]
      omega
    rw [magnitude, place, zpow_add₀ (by norm_num), zpow_natCast]
    have : (10 : Rat) ^ (digitCount n.coefficient - 1) ≤ n.coefficient := by
      exact_mod_cast pow_digitCount_le h
    exact mul_le_mul_of_nonneg_right this (ten_zpow_pos _).le
  constructor
  · intro hlt
    have := ten_zpow_lt_iff.mp (lower.trans_lt hlt)
    omega
  · intro hle
    exact upper.trans_le (zpow_le_zpow_right₀ (by norm_num) hle)

theorem leadingPlace_congr {a b : Numeral} (ha : a.coefficient ≠ 0) (hb : b.coefficient ≠ 0)
    (h : a.magnitude = b.magnitude) : a.leadingPlace = b.leadingPlace := by
  apply le_antisymm
  · rw [← magnitude_lt_iff ha, h, magnitude_lt_iff hb]
  · rw [← magnitude_lt_iff hb, ← h, magnitude_lt_iff ha]

/-- Numerals of one sign and one magnitude read as one value. -/
theorem toBinary64_congr {a b : Numeral} (hs : a.negative = b.negative)
    (h : a.magnitude = b.magnitude) : a.toBinary64 = b.toBinary64 := by
  have zero : a.coefficient = 0 ↔ b.coefficient = 0 := by
    rw [← magnitude_eq_zero_iff, h, magnitude_eq_zero_iff]
  by_cases ha : a.coefficient = 0
  · rw [toBinary64, toBinary64, if_pos (.inl ha), if_pos (.inl (zero.mp ha)), hs]
  · have hb : b.coefficient ≠ 0 := fun hb => ha (zero.mpr hb)
    simp only [toBinary64, ha, hb, false_or, leadingPlace_congr ha hb h, hs, h]

end Numeral

namespace Binary64

open Numeral

variable {m : Nat} {e : Int}

theorem two_pow_le_ten_pow (k : Nat) : (2 : Rat) ^ (3 * k) ≤ 10 ^ k := by
  rw [pow_mul]
  exact pow_le_pow_left₀ (by norm_num) (by norm_num) k

private theorem scaled_lt_ten (h : Canonical m e) : scaled m e < 10 ^ (400 : Int) := by
  have place : 53 + e ≤ ((3 * 400 : Nat) : Int) := by
    have := h.2.2.1
    omega
  calc
    scaled m e < 2 ^ (53 + e) := scaled_lt h
    _ ≤ 2 ^ ((3 * 400 : Nat) : Int) := zpow_le_zpow_right₀ (by norm_num) place
    _ ≤ 10 ^ ((400 : Nat) : Int) := by
          rw [zpow_natCast, zpow_natCast]
          exact two_pow_le_ten_pow 400

private theorem ten_le_scaled (h : Canonical m e) (hm : 0 < m) :
    (10 : Rat) ^ (-401 : Int) ≤ scaled m e := by
  have place : -((3 * 401 : Nat) : Int) ≤ e := by
    have := h.2.1
    omega
  calc
    (10 : Rat) ^ (-((401 : Nat) : Int)) ≤ 2 ^ (-((3 * 401 : Nat) : Int)) := by
          rw [zpow_neg, zpow_neg, zpow_natCast, zpow_natCast]
          exact inv_anti₀ (pow_pos (by norm_num) _) (two_pow_le_ten_pow 401)
    _ ≤ 2 ^ e := zpow_le_zpow_right₀ (by norm_num) place
    _ ≤ scaled m e := by
          have : (1 : Rat) ≤ m := by exact_mod_cast hm
          exact le_mul_of_one_le_left (two_zpow_pos e).le this

/-- A numeral whose magnitude the format holds reads as it. -/
theorem toBinary64_of_scaled {n : Numeral} (h : Canonical m e) (hm : 0 < m)
    (hr : n.magnitude = scaled m e) : n.toBinary64 = .finite n.negative m e h := by
  have nonzero : n.coefficient ≠ 0 := by
    rw [Ne, ← magnitude_eq_zero_iff, hr]
    exact (scaled_pos hm e).ne'
  have below : n.leadingPlace ≤ 400 := by
    rw [← magnitude_lt_iff nonzero, hr]
    exact scaled_lt_ten h
  have above : ¬n.leadingPlace ≤ -401 := by
    rw [← magnitude_lt_iff nonzero, hr]
    exact not_lt.mpr (ten_le_scaled h hm)
  rw [toBinary64, if_neg (by omega), if_neg (by omega), hr]
  exact ofMagnitude_scaled n.negative h hm

private theorem magnitude_exactDigits (negative : Bool) (m : Nat) (e : Int) :
    ((exactDigits m e).numeral negative).magnitude = scaled m e := by
  unfold exactDigits
  split
  · next he =>
      have places : e = -(e.natAbs : Int) := by omega
      have ten : (10 : Rat) = 5 * 2 := by norm_num
      simp only [Digits.numeral, Numeral.magnitude, scaled, Nat.pow_eq, Nat.cast_mul, Nat.cast_pow,
        Nat.cast_ofNat]
      rw [ten, mul_zpow, mul_assoc, ← mul_assoc (5 ^ e.natAbs)]
      have five : (5 : Rat) ^ e.natAbs * 5 ^ e = 1 := by
        rw [← zpow_natCast, ← zpow_add₀ (by norm_num), places]
        simp
      rw [five, one_mul]
  · next he =>
      have places : (e.natAbs : Int) = e := by omega
      simp only [Digits.numeral, Numeral.magnitude, scaled, Nat.pow_eq, Nat.cast_mul, Nat.cast_pow,
        Nat.cast_ofNat, zpow_zero, mul_one]
      rw [← zpow_natCast, places]

private theorem readsAs_of_nearestAt? {x : Binary64} {negative : Bool} {r : Rat} {place : Int}
    {d : Digits}
    (h : nearestAt? x negative r place = some d) : d.ReadsAs x negative := by
  grind [nearestAt?]

/-- The fewest digits read back. -/
theorem readsAs_shortestDigits (negative : Bool) (h : Canonical m e) (hm : 0 < m) :
    (shortestDigits (.finite negative m e h) negative m e).ReadsAs (.finite negative m e h)
      negative := by
  unfold shortestDigits
  simp only
  cases hf : (List.range 17).findSome? _ with
  | none =>
      have full := magnitude_exactDigits negative m e
      exact toBinary64_of_scaled h hm full
  | some d =>
      obtain ⟨i, _, hi⟩ := List.exists_of_findSome?_eq_some hf
      exact readsAs_of_nearestAt? hi

theorem coefficient_ne_zero_of_readsAs {negative : Bool} {d : Digits} {h : Canonical m e}
    (hm : 0 < m) (hd : d.ReadsAs (.finite negative m e h) negative) : d.coefficient ≠ 0 := by
  intro hc
  have zero : (d.numeral negative).toBinary64 = .zero negative := if_pos (.inl hc)
  rw [Digits.ReadsAs, zero] at hd
  cases hd
  exact absurd hm (Nat.lt_irrefl 0)

end Binary64
end RecordFilter
