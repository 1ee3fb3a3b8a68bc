import Mathlib.Tactic.Linarith
import RecordFilter.Proofs.Numeric.Exact
import RecordFilter.Proofs.Numeric.FloatText

/-! # The text of decimals

A decimal is written with all its digits and with its exponent in one way or another. The text is
always that of a number, and spells the decimal. But a number is read as a whole number or as a
floating point value, so only some decimals are read back.
-/

namespace RecordFilter.Decimal

open Text

section

variable (negative : Bool) (c : Nat) (e : Int)

/-- How many digits stand before the point. -/
def wholePlaces : Int := e + (digitsOf c).length

/-- The text with an exponent, with its parts. -/
def scientificText : NumberText where
  negative := negative
  whole := (digitsOf c).take 1
  fraction := if (digitsOf c).length ≤ 1 then none else some ((digitsOf c).drop 1)
  exponent := some (wholePlaces c e - 1 < 0, digitsOf (wholePlaces c e - 1).natAbs)
  mark := 'E'
  whole_ne_nil := Binary64.take_ne_nil (digitsOf_ne_nil c) Nat.one_ne_zero
  whole_digits := (AllDigits.digitsOf c).take 1
  fraction_digits := by
    intro ds hd
    split at hd
    · cases hd
    · exact Option.mem_some.mp hd ▸ (AllDigits.digitsOf c).drop 1
  exponent_digits := by
    intro part hp
    cases Option.mem_some.mp hp
    exact ⟨digitsOf_ne_nil _, .digitsOf _⟩
  is_mark := .inr rfl

/-- The text of a decimal, with its parts. -/
def numberText : NumberText :=
  if e = 0 then .ofDigits negative c
  else if e ≤ 0 ∧ -6 < wholePlaces c e then
    Binary64.positionalText negative (wholePlaces c e) (digitsOf c) (digitsOf_ne_nil c) (.digitsOf c)
  else scientificText negative c e

private theorem pointAfter_eq_positional {whole : Int} {digits : List Char}
    (h : whole < digits.length) :
    pointAfter whole digits = Binary64.positional whole digits := by
  simp only [pointAfter, Binary64.positional, if_pos h]

private theorem chars_scientificText : (scientificText negative c e).chars =
    signText negative ++
      (pointAfter 1 (digitsOf c) ++ 'E' :: exponentText (wholePlaces c e - 1)) := by
  have some_digit := List.length_pos_iff.mpr (digitsOf_ne_nil c)
  have exponent : NumberText.exponentChars 'E' (some (decide (wholePlaces c e - 1 < 0),
      digitsOf (wholePlaces c e - 1).natAbs)) = 'E' :: exponentText (wholePlaces c e - 1) := by
    simp [NumberText.exponentChars, exponentText]
  simp only [NumberText.chars, scientificText, exponent, pointAfter]
  by_cases more : (digitsOf c).length ≤ 1
  · have all : (digitsOf c).take 1 = digitsOf c := List.take_of_length_le more
    have one : ¬(1 : Int) < (digitsOf c).length := by omega
    simp [more, all, one, NumberText.fractionChars]
  · have one : (1 : Int) < (digitsOf c).length := by omega
    simp [more, one, NumberText.fractionChars]

theorem text_eq : (finite negative c e).text = String.ofList (numberText negative c e).chars := by
  have some_digit := List.length_pos_iff.mpr (digitsOf_ne_nil c)
  have layout : magnitudeText c e =
      if e ≤ 0 ∧ -6 < wholePlaces c e then pointAfter (wholePlaces c e) (digitsOf c)
      else pointAfter 1 (digitsOf c) ++ 'E' :: exponentText (wholePlaces c e - 1) := rfl
  rw [text, layout, numberText]
  congr 1
  by_cases zero : e = 0
  · have positional : e ≤ 0 ∧ -6 < wholePlaces c e := by
      rw [wholePlaces]
      omega
    have low : ¬wholePlaces c e ≤ 0 := by
      rw [wholePlaces]
      omega
    have beyond : ¬wholePlaces c e < (digitsOf c).length := by
      rw [wholePlaces]
      omega
    rw [if_pos zero, if_pos positional, NumberText.chars_ofDigits, pointAfter, if_neg low,
      if_neg beyond]
  · rw [if_neg zero]
    by_cases positional : e ≤ 0 ∧ -6 < wholePlaces c e
    · have inside : wholePlaces c e < (digitsOf c).length := by
        rw [wholePlaces]
        omega
      rw [if_pos positional, if_pos positional, Binary64.chars_positionalText,
        pointAfter_eq_positional inside]
    · rw [if_neg positional, if_neg positional, chars_scientificText]

theorem negative_numberText : (numberText negative c e).numeral.negative = negative := by
  grind [numberText, NumberText.ofDigits, Binary64.positionalText, NumberText.withPoint,
    scientificText, NumberText.numeral]

/-- Only a decimal with a zero exponent is written as a whole number. -/
theorem isFloat_numberText (h : e ≠ 0) : (numberText negative c e).isFloat = true := by
  rw [numberText, if_neg h]
  split
  · grind [Binary64.positionalText, NumberText.isFloat_withPoint]
  · simp [scientificText, NumberText.isFloat]

private theorem magnitude_scientificText :
    (scientificText negative c e).numeral.magnitude = c * 10 ^ e := by
  have exponent : NumberText.exponentValue (some (decide (wholePlaces c e - 1 < 0),
      digitsOf (wholePlaces c e - 1).natAbs)) = wholePlaces c e - 1 := by
    simp only [NumberText.exponentValue, natOfDigits_digitsOf, decide_eq_true_eq]
    split <;> omega
  have some_digit := List.length_pos_iff.mpr (digitsOf_ne_nil c)
  simp only [NumberText.numeral, Numeral.magnitude, scientificText, exponent]
  split
  · have all : (digitsOf c).take 1 = digitsOf c := List.take_of_length_le (by omega)
    simp only [all, Option.getD_none, List.append_nil, List.length_nil, natOfDigits_digitsOf]
    congr 2
    rw [wholePlaces]
    omega
  · simp only [Option.getD_some, List.take_append_drop, List.length_drop, natOfDigits_digitsOf]
    congr 2
    rw [wholePlaces]
    omega

/-- The text spells the decimal. -/
theorem magnitude_numberText : (numberText negative c e).numeral.magnitude = c * 10 ^ e := by
  unfold numberText
  split
  · next zero =>
      simp [zero, NumberText.numeral, NumberText.ofDigits, Numeral.magnitude,
        NumberText.exponentValue, natOfDigits_digitsOf]
  · split
    · rw [Binary64.magnitude_positionalText, Binary64.placed, natOfDigits_digitsOf, wholePlaces]
      congr 2
      omega
    · exact magnitude_scientificText negative c e

end

private theorem signed_eq_signed {s t : Bool} {a b : Rat} (ha : 0 < a) (hb : 0 ≤ b)
    (h : Number.signed s a = Number.signed t b) : a = b := by
  cases s <;> cases t <;> simp only [Number.signed, if_true, Bool.false_eq_true, if_false] at h <;>
    linarith

/-- If a numeral spells the number of a floating point value, then it is read as that number. -/
theorem exists_toBinary64 {n : Numeral} {x : Binary64} (hx : x.isFinite = true)
    (h : (FiniteNumber.mk (.float x) hx).value = Number.signed n.negative n.magnitude) :
    ∃ finite : n.toBinary64.isFinite = true, (FiniteNumber.mk (.float n.toBinary64) finite).value =
      Number.signed n.negative n.magnitude := by
  cases x with
  | nan => cases hx
  | infinite negative => cases hx
  | finite negative m e canonical =>
      have value : Number.signed negative (Binary64.scaled m e) =
          Number.signed n.negative n.magnitude := h
      rcases Nat.eq_zero_or_pos m with rfl | positive
      · have none (e : Int) : Binary64.scaled 0 e = 0 := by
          rw [Binary64.scaled, Nat.cast_zero, zero_mul]
        have zero : n.magnitude = 0 := by
          rw [none] at value
          cases negative <;> cases hs : n.negative <;>
            simpa [Number.signed, hs, eq_comm] using value
        have reads : n.toBinary64 = .zero n.negative :=
          if_pos (.inl (Numeral.magnitude_eq_zero_iff.mp zero))
        rw [reads, zero]
        exact ⟨rfl, congrArg (Number.signed n.negative) (none _)⟩
      · have nonneg : 0 ≤ n.magnitude :=
          mul_nonneg (Nat.cast_nonneg _) (Numeral.ten_zpow_pos _).le
        have same := signed_eq_signed (Binary64.scaled_pos positive e) nonneg value
        rw [Binary64.toBinary64_of_scaled canonical positive same.symm]
        exact ⟨rfl, congrArg (Number.signed n.negative) same⟩

end RecordFilter.Decimal
