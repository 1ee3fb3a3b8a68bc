import RecordFilter.Proofs.Numeric.NumberText
import RecordFilter.Proofs.Numeric.Shortest

/-! # The text of floating point values

Wherever the point is put, the digits and their place give one magnitude: moving the point moves the
exponent, and zeros at the end count for the place. So the text of a value reads back as the value.
-/

namespace RecordFilter.Binary64

open Text

section

variable (negative : Bool) (whole : Int) (digits : List Char)

/-- What digits stand for when the point comes after the first `whole` of them. -/
def placed : Rat := (natOfDigits digits : Rat) * (10 : Rat) ^ (whole - digits.length)

theorem take_ne_nil {digits : List Char} (hne : digits ≠ []) {n : Nat} (hn : n ≠ 0) :
    digits.take n ≠ [] := by
  rw [Ne, List.take_eq_nil_iff]
  exact not_or.mpr ⟨hn, hne⟩

/-- The positional text, with its parts. -/
def positionalText (hne : digits ≠ []) (h : AllDigits digits) : NumberText :=
  if low : whole ≤ 0 then
    .withPoint negative (List.cons_ne_nil '0' []) (.cons rfl .nil)
      ((AllDigits.zeros (-whole).toNat).append h)
  else if whole < digits.length then
    .withPoint negative (take_ne_nil hne (by omega : whole.toNat ≠ 0)) (h.take whole.toNat)
      (h.drop whole.toNat)
  else
    .withPoint negative (List.append_ne_nil_of_left_ne_nil hne _)
      (h.append (.zeros (whole.toNat - digits.length))) (.cons rfl .nil : AllDigits ['0'])

/-- The text with an exponent, with its parts. -/
def scientificText (hne : digits ≠ []) (h : AllDigits digits) : NumberText where
  negative := negative
  whole := digits.take 1
  fraction := if digits.length ≤ 1 then none else some (digits.drop 1)
  exponent := some (whole - 1 < 0, paddedDigits 2 (whole - 1).natAbs)
  mark := 'e'
  whole_ne_nil := take_ne_nil hne Nat.one_ne_zero
  whole_digits := h.take 1
  fraction_digits := by
    intro ds hd
    split at hd
    · cases hd
    · exact Option.mem_some.mp hd ▸ h.drop 1
  exponent_digits := by
    intro part hp
    cases Option.mem_some.mp hp
    exact ⟨List.append_ne_nil_of_right_ne_nil _ (digitsOf_ne_nil _), .paddedDigits _ _⟩
  is_mark := NumberText.is_mark_lower

variable (hne : digits ≠ []) (h : AllDigits digits)

theorem chars_positionalText : (positionalText negative whole digits hne h).chars =
    Decimal.signText negative ++ positional whole digits := by
  unfold positionalText positional
  split
  · rw [NumberText.chars_withPoint]
    rfl
  · split
    · rw [NumberText.chars_withPoint]
    · rw [NumberText.chars_withPoint]

private theorem chars_scientificText : (scientificText negative whole digits hne h).chars =
    Decimal.signText negative ++ scientific whole digits := by
  have exponent : NumberText.exponentChars 'e' (some (decide (whole - 1 < 0),
      paddedDigits 2 (whole - 1).natAbs)) = 'e' :: exponentText (whole - 1) := by
    simp [NumberText.exponentChars, exponentText]
  simp only [NumberText.chars, scientificText, exponent, scientific]
  split
  · simp [NumberText.fractionChars]
  · simp [NumberText.fractionChars]

theorem magnitude_positionalText :
    (positionalText negative whole digits hne h).numeral.magnitude = placed whole digits := by
  unfold positionalText
  split
  · next low =>
      have value : natOfDigits (['0'] ++ (List.replicate (-whole).toNat '0' ++ digits)) =
          natOfDigits digits := by
        have zero : natOfDigits ['0'] = 0 := natOfDigits_zeros 1
        rw [natOfDigits_append, natOfDigits_zeros_append, zero, Nat.mul_zero, Nat.zero_add]
      simp only [NumberText.numeral_withPoint, Numeral.magnitude, placed, value,
        List.length_append, List.length_replicate]
      congr 2
      omega
  · split
    · next low inside =>
        simp only [NumberText.numeral_withPoint, Numeral.magnitude, placed,
          List.take_append_drop, List.length_drop]
        congr 2
        omega
    · next low beyond =>
        have zeros : digits ++ List.replicate (whole.toNat - digits.length) '0' ++ ['0'] =
            digits ++ List.replicate (whole.toNat - digits.length + 1) '0' := by
          rw [List.append_assoc, List.replicate_succ']
        simp only [NumberText.numeral_withPoint, Numeral.magnitude, placed, zeros,
          natOfDigits_append_zeros, Nat.cast_mul, Nat.cast_pow, Nat.cast_ofNat, mul_assoc]
        rw [← zpow_natCast, ← zpow_add₀ (by norm_num)]
        congr 2
        simp only [List.length_singleton]
        omega

private theorem magnitude_scientificText :
    (scientificText negative whole digits hne h).numeral.magnitude = placed whole digits := by
  have exponent : NumberText.exponentValue (some (decide (whole - 1 < 0),
      paddedDigits 2 (whole - 1).natAbs)) = whole - 1 := by
    simp only [NumberText.exponentValue, natOfDigits_paddedDigits, decide_eq_true_eq]
    split <;> omega
  have length_pos := List.length_pos_iff.mpr hne
  simp only [NumberText.numeral, Numeral.magnitude, scientificText, exponent, placed]
  split
  · have all : digits.take 1 = digits := List.take_of_length_le (by omega)
    simp only [all, Option.getD_none, List.append_nil, List.length_nil]
    congr 2
    omega
  · simp only [Option.getD_some, List.take_append_drop, List.length_drop]
    congr 2
    omega

end

/-- Leaving out the zeros at the end leaves the magnitude as it is. -/
theorem placed_significant (d : Digits) (negative : Bool) :
    placed ((digitsOf d.coefficient).length + d.place) (significant (digitsOf d.coefficient)) =
      (d.numeral negative).magnitude := by
  obtain ⟨run, split, zeros⟩ := exists_trimEnd_append (· == '0') (digitsOf d.coefficient)
  have run_eq : run = List.replicate run.length '0' :=
    List.eq_replicate_iff.mpr ⟨rfl, fun c hc => beq_iff_eq.mp (zeros c hc)⟩
  have value : d.coefficient =
      natOfDigits (significant (digitsOf d.coefficient)) * 10 ^ run.length := by
    rw [← natOfDigits_append_zeros, ← run_eq, significant, ← split, natOfDigits_digitsOf]
  have length : (digitsOf d.coefficient).length =
      (significant (digitsOf d.coefficient)).length + run.length := by
    rw [significant, ← List.length_append, ← split]
  have cast : (d.coefficient : Rat) =
      (natOfDigits (significant (digitsOf d.coefficient)) : Rat) * 10 ^ run.length := by
    exact_mod_cast value
  simp only [Digits.numeral, Numeral.magnitude, placed]
  rw [cast, mul_assoc, ← zpow_natCast, ← zpow_add₀ (by norm_num)]
  congr 2
  omega

theorem significant_ne_nil {d : Digits} (hd : d.coefficient ≠ 0) :
    significant (digitsOf d.coefficient) ≠ [] := by
  intro none
  have zero := placed_significant d false
  rw [none, placed, natOfDigits, Nat.ofDigitChars_nil, Nat.cast_zero, zero_mul] at zero
  exact hd (Numeral.magnitude_eq_zero_iff.mp zero.symm)

private theorem allDigits_significant (n : Nat) : AllDigits (significant (digitsOf n)) := by
  obtain ⟨run, split, _⟩ := exists_trimEnd_append (· == '0') (digitsOf n)
  intro c hc
  apply AllDigits.digitsOf n
  rw [split]
  exact List.mem_append_left run hc

/-- The layout of digits is the text of a number of their magnitude. -/
theorem exists_numberText_layout {d : Digits} (hd : d.coefficient ≠ 0) (negative : Bool) :
    ∃ t : NumberText, t.chars = Decimal.signText negative ++ layout d ∧ t.isFloat = true ∧
      t.numeral.negative = negative ∧ t.numeral.magnitude = (d.numeral negative).magnitude := by
  have hne := significant_ne_nil hd
  have h := allDigits_significant d.coefficient
  unfold layout
  simp only
  split
  · refine ⟨positionalText negative _ _ hne h, chars_positionalText .., ?_, ?_, ?_⟩
    · grind [positionalText, NumberText.isFloat_withPoint]
    · grind [positionalText, NumberText.numeral_withPoint]
    · rw [magnitude_positionalText, placed_significant]
  · refine ⟨scientificText negative _ _ hne h, chars_scientificText .., ?_, rfl, ?_⟩
    · simp [scientificText, NumberText.isFloat]
    · rw [magnitude_scientificText, placed_significant]

/-- The text of zero. -/
def zeroText (negative : Bool) : NumberText :=
  .withPoint negative (List.cons_ne_nil '0' []) (.cons rfl .nil) (.cons rfl .nil : AllDigits ['0'])

/-- The text of a finite value is that of a floating point number that reads as the value. -/
theorem exists_numberText {x : Binary64} (hx : x.isFinite = true) :
    ∃ t : NumberText, x.text = String.ofList t.chars ∧ t.isFloat = true ∧
      t.numeral.toBinary64 = x := by
  cases x with
  | nan => cases hx
  | infinite negative => cases hx
  | finite negative m e h =>
      rcases Nat.eq_zero_or_pos m with rfl | hm
      · refine ⟨zeroText negative, ?_, rfl, ?_⟩
        · cases negative <;> rfl
        · have least : e = -1074 := h.2.2.2.resolve_left (by decide)
          subst least
          exact if_pos (.inl rfl)
      · have reads := readsAs_shortestDigits negative h hm
        have nonzero := coefficient_ne_zero_of_readsAs hm reads
        obtain ⟨t, chars, float, sign, magnitude⟩ := exists_numberText_layout nonzero negative
        refine ⟨t, ?_, float, ?_⟩
        · rw [chars, text, if_neg hm.ne']
        · rw [Numeral.toBinary64_congr sign magnitude]
          exact reads

end RecordFilter.Binary64
