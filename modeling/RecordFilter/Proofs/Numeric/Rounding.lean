import Mathlib.Algebra.Order.Field.Power
import Mathlib.Data.Rat.Cast.Order
import Mathlib.Tactic.Ring
import RecordFilter.Numeric.Binary64

/-! # Rounding what needs no rounding

A magnitude that the format can hold is held exactly: the exponent of its last bit is found again,
in units of that bit it is a whole number, and the parts are those it was made of.
-/

namespace RecordFilter.Binary64

theorem two_zpow_pos (e : Int) : (0 : Rat) < 2 ^ e := zpow_pos (by norm_num) e

theorem two_zpow_lt_iff {d e : Int} : (2 : Rat) ^ d < 2 ^ e ↔ d < e :=
  zpow_lt_zpow_iff_right₀ (by norm_num)

/-- A power of two as a quotient of whole numbers, one of which is one. -/
theorem two_zpow_mul (e : Int) : (2 : Rat) ^ e * 2 ^ (-e).toNat = 2 ^ e.toNat := by
  rw [← zpow_natCast, ← zpow_natCast, ← zpow_add₀ (by norm_num)]
  congr 1
  omega

private theorem roundHalfEven_mul (m : Nat) {k : Nat} (hk : 0 < k) :
    roundHalfEven (m * k) k = m := by
  simp only [roundHalfEven, Nat.mul_mod_left, Nat.mul_zero, if_pos hk]
  exact Nat.mul_div_cancel m hk

section

variable {num den : Nat}

theorem two_zpow_le_div_iff (hd : 0 < den) (e : Int) :
    (2 : Rat) ^ e ≤ num / den ↔ den * 2 ^ e.toNat ≤ num * 2 ^ (-e).toNat := by
  have den_pos : (0 : Rat) < den := by exact_mod_cast hd
  have pow_pos : (0 : Rat) < 2 ^ (-e).toNat := pow_pos (by norm_num) _
  rw [le_div_iff₀ den_pos, ← mul_le_mul_iff_left₀ pow_pos]
  have left : (2 : Rat) ^ e * den * 2 ^ (-e).toNat = den * 2 ^ e.toNat := by
    rw [← two_zpow_mul e]
    ring
  rw [left]
  exact_mod_cast Iff.rfl

/-- The exponent that is found is the right one. -/
theorem log2Ratio_spec (hn : 0 < num) (hd : 0 < den) :
    (2 : Rat) ^ log2Ratio num den ≤ num / den ∧
      (num / den : Rat) < 2 ^ (log2Ratio num den + 1) := by
  have den_pos : (0 : Rat) < den := by exact_mod_cast hd
  have num_ge : (2 : Rat) ^ (num.log2 : Int) ≤ num := by
    rw [zpow_natCast]
    exact_mod_cast Nat.log2_self_le hn.ne'
  have num_lt : (num : Rat) < 2 ^ ((num.log2 : Int) + 1) := by
    exact_mod_cast Nat.lt_log2_self
  have den_ge : (2 : Rat) ^ (den.log2 : Int) ≤ den := by
    rw [zpow_natCast]
    exact_mod_cast Nat.log2_self_le hd.ne'
  have den_lt : (den : Rat) < 2 ^ ((den.log2 : Int) + 1) := by
    exact_mod_cast Nat.lt_log2_self
  have pow_add (d e : Int) : (2 : Rat) ^ (d + e) = 2 ^ d * 2 ^ e := zpow_add₀ (by norm_num) d e
  have guess_low : (2 : Rat) ^ ((num.log2 : Int) - den.log2 - 1) ≤ num / den := by
    rw [le_div_iff₀ den_pos]
    calc
      (2 : Rat) ^ ((num.log2 : Int) - den.log2 - 1) * den
          ≤ 2 ^ ((num.log2 : Int) - den.log2 - 1) * 2 ^ ((den.log2 : Int) + 1) :=
            mul_le_mul_of_nonneg_left den_lt.le (two_zpow_pos _).le
      _ = 2 ^ (num.log2 : Int) := by
            rw [← pow_add]
            congr 1
            omega
      _ ≤ num := num_ge
  have guess_high : (num / den : Rat) < 2 ^ ((num.log2 : Int) - den.log2 + 1) := by
    rw [div_lt_iff₀ den_pos]
    calc
      (num : Rat) < 2 ^ ((num.log2 : Int) + 1) := num_lt
      _ = 2 ^ ((num.log2 : Int) - den.log2 + 1) * 2 ^ (den.log2 : Int) := by
            rw [← pow_add]
            congr 1
            omega
      _ ≤ 2 ^ ((num.log2 : Int) - den.log2 + 1) * den :=
            mul_le_mul_of_nonneg_left den_ge (two_zpow_pos _).le
  simp only [log2Ratio]
  split
  · next h => exact ⟨(two_zpow_le_div_iff hd _).mpr h, guess_high⟩
  · next h =>
      refine ⟨guess_low, ?_⟩
      rw [Int.sub_add_cancel]
      exact lt_of_not_ge fun hle => h ((two_zpow_le_div_iff hd _).mp hle)

end

section

variable {m num den : Nat} {e : Int}

theorem scaled_pos (hm : 0 < m) (e : Int) : 0 < scaled m e :=
  mul_pos (by exact_mod_cast hm) (two_zpow_pos e)

theorem scaled_lt (h : Canonical m e) : scaled m e < 2 ^ (53 + e) := by
  rw [zpow_add₀ (by norm_num), scaled]
  have : (m : Rat) < 2 ^ (53 : Int) := by exact_mod_cast h.1
  exact mul_lt_mul_of_pos_right this (two_zpow_pos e)

private theorem two_zpow_le_scaled (hm : 2 ^ 52 ≤ m) : (2 : Rat) ^ (52 + e) ≤ scaled m e := by
  rw [zpow_add₀ (by norm_num), scaled]
  have : (2 : Rat) ^ (52 : Int) ≤ m := by exact_mod_cast hm
  exact mul_le_mul_of_nonneg_right this (two_zpow_pos e).le

private theorem lastPlace_eq (h : Canonical m e) (hn : 0 < num) (hd : 0 < den)
    (hr : (num / den : Rat) = scaled m e) : lastPlace num den = e := by
  obtain ⟨low, high⟩ := log2Ratio_spec hn hd
  rw [hr] at low high
  have upper : log2Ratio num den < 53 + e := two_zpow_lt_iff.mp (low.trans_lt (scaled_lt h))
  obtain ⟨_, le_e, _, full | least⟩ := h
  · have lower : 52 + e < log2Ratio num den + 1 :=
      two_zpow_lt_iff.mp ((two_zpow_le_scaled full).trans_lt high)
    rw [lastPlace]
    omega
  · rw [lastPlace]
    omega

private theorem inUnits_eq (hd : 0 < den) (hr : (num / den : Rat) = scaled m e) :
    inUnits num den e = m := by
  have den_pos : (0 : Rat) < den := by exact_mod_cast hd
  have whole : num * 2 ^ (-e).toNat = m * (den * 2 ^ e.toNat) := by
    have cast : (num : Rat) * 2 ^ (-e).toNat = m * (den * 2 ^ e.toNat) := by
      rw [div_eq_iff den_pos.ne', scaled] at hr
      rw [hr, ← two_zpow_mul e]
      ring
    exact_mod_cast cast
  rw [inUnits, Nat.pow_eq, Nat.pow_eq, whole]
  exact roundHalfEven_mul m (Nat.mul_pos hd (Nat.two_pow_pos _))

/-- Rounding a magnitude that the format holds gives the parts it was made of. -/
theorem ofMagnitude_scaled (negative : Bool) (h : Canonical m e) (hm : 0 < m) :
    ofMagnitude negative (scaled m e) = .finite negative m e h := by
  have num_pos : 0 < (scaled m e).num := Rat.num_pos.mpr (scaled_pos hm e)
  have den_pos : 0 < (scaled m e).den := (scaled m e).den_pos
  have toNat_pos : 0 < (scaled m e).num.toNat := by omega
  have quotient : ((scaled m e).num.toNat / (scaled m e).den : Rat) = scaled m e := by
    have cast : ((scaled m e).num.toNat : Int) = (scaled m e).num :=
      Int.toNat_of_nonneg num_pos.le
    rw [← Int.cast_natCast, cast, Rat.num_div_den]
  have place := lastPlace_eq h toNat_pos den_pos quotient
  have units := inUnits_eq den_pos quotient
  have below : m ≠ Nat.pow 2 53 := h.1.ne
  simp only [ofMagnitude, if_neg toNat_pos.ne', place, units, if_neg below, ofParts, dif_pos h]

end

end RecordFilter.Binary64
