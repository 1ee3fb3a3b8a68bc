import RecordFilter.Proofs.Numeric.NumberText

/-! # What is taken as a number

The scanner takes as much text as makes up a number. The form of what it takes is a relation here,
wider than that of written numbers: digits may be missing on one side of the point, and an exponent
needs no sign. A text of that form is taken whole wherever it stands, if what follows does not
continue it.
-/

namespace RecordFilter.Token

open Text

variable {cs taken rest : List Char}

theorem takeDigits_append (cs : List Char) : (takeDigits cs).1 ++ (takeDigits cs).2 = cs :=
  List.takeWhile_append_dropWhile

theorem allDigits_takeDigits (cs : List Char) : AllDigits (takeDigits cs).1 :=
  List.all_eq_true.mp List.all_takeWhile

/-- Digits that may have a point before, among or after them. -/
inductive IsMantissa : List Char → Prop where
  | whole {digits} : digits ≠ [] → AllDigits digits → IsMantissa digits
  | point {whole fraction} : ¬(whole = [] ∧ fraction = []) → AllDigits whole →
      AllDigits fraction → IsMantissa (whole ++ '.' :: fraction)

private theorem isMantissa_of_takeMantissa? (h : takeMantissa? cs = some (taken, rest)) :
    cs = taken ++ rest ∧ IsMantissa taken := by
  have whole := takeDigits_append cs
  have digits := allDigits_takeDigits cs
  simp only [takeMantissa?] at h
  split at h
  · next more hm =>
      rw [hm] at whole
      split at h
      · cases h
      · next some_digit =>
          cases h
          refine ⟨?_, .point some_digit digits (allDigits_takeDigits more)⟩
          rw [List.append_assoc, List.cons_append, takeDigits_append]
          exact whole.symm
  · split at h
    · cases h
    · next hne =>
        cases h
        exact ⟨whole.symm, .whole hne digits⟩

/-- A character by which digits with a point could go on. -/
def continuesMantissa (c : Char) : Bool := isDigit c || c == '.'

theorem IsMantissa.take_append (h : IsMantissa cs) (hr : Stops continuesMantissa rest) :
    takeMantissa? (cs ++ rest) = some (cs, rest) := by
  have digit : Stops isDigit rest :=
    fun c hc => (Bool.or_eq_false_iff.mp (hr c hc)).1
  cases h with
  | whole hne digits =>
      simp only [takeMantissa?, digits.takeDigits_append digit]
      split
      · have := hr '.' rfl
        cases this
      · rw [if_neg hne]
  | point some_digit whole fraction =>
      have stop : ∀ more, Stops isDigit ('.' :: more) := stops_cons rfl
      rw [List.append_assoc, List.cons_append]
      simp only [takeMantissa?, whole.takeDigits_append (stop _),
        fraction.takeDigits_append digit, if_neg some_digit]

/-- The mark of an exponent, a sign or none, and digits; or nothing. -/
inductive IsExponent : List Char → Prop where
  | none : IsExponent []
  | some {mark sign digits} : (mark = 'e' ∨ mark = 'E') → sign ∈ [[], ['-'], ['+']] →
      digits ≠ [] → AllDigits digits → IsExponent (mark :: sign ++ digits)

theorem takeSign_append (cs : List Char) : (takeSign cs).1 ++ (takeSign cs).2 = cs := by
  unfold takeSign
  split <;> rfl

private theorem takeSign_mem (cs : List Char) : (takeSign cs).1 ∈ [[], ['-'], ['+']] := by
  unfold takeSign
  split <;> simp

private theorem isExponent_takeExponent (cs : List Char) :
    cs = (takeExponent cs).1 ++ (takeExponent cs).2 ∧ IsExponent (takeExponent cs).1 := by
  cases cs with
  | nil => exact ⟨rfl, .none⟩
  | cons c cs =>
      simp only [takeExponent]
      split
      · next mark =>
          split
          · exact ⟨rfl, .none⟩
          · next hne =>
              refine ⟨?_, .some mark (takeSign_mem cs) hne (allDigits_takeDigits _)⟩
              rw [List.cons_append, List.cons_append, List.append_assoc, takeDigits_append,
                takeSign_append]
      · exact ⟨rfl, .none⟩

private theorem takeSign_append_digits {sign digits : List Char} (hs : sign ∈ [[], ['-'], ['+']])
    (hne : digits ≠ []) (hd : AllDigits digits) (rest : List Char) :
    takeSign (sign ++ (digits ++ rest)) = (sign, digits ++ rest) := by
  cases digits with
  | nil => exact absurd rfl hne
  | cons d digits =>
      have digit : isDigit d = true := hd d List.mem_cons_self
      simp only [List.mem_cons, List.not_mem_nil, or_false] at hs
      rcases hs with rfl | rfl | rfl
      · rw [List.nil_append, List.cons_append]
        unfold takeSign
        split
        · next he =>
            cases he
            cases digit
        · next he =>
            cases he
            cases digit
        · rfl
      · rfl
      · rfl

section

variable (hr : Stops NumberText.continues rest)
include hr

private theorem stops_isDigit : Stops isDigit rest := NumberText.stops_isDigit_of_stops hr

private theorem stops_continuesMantissa : Stops continuesMantissa rest := by
  intro c hc
  have := hr c hc
  simp only [NumberText.continues, Bool.or_eq_false_iff] at this
  exact Bool.or_eq_false_iff.mpr this.1.1

theorem takeExponent_eq_nil : takeExponent rest = ([], rest) := by
  cases rest with
  | nil => rfl
  | cons c rest =>
      have := hr c rfl
      simp only [NumberText.continues, Bool.or_eq_false_iff, beq_eq_false_iff_ne] at this
      exact if_neg (not_or.mpr ⟨this.1.2, this.2⟩)

theorem IsExponent.take_append (h : IsExponent cs) : takeExponent (cs ++ rest) = (cs, rest) := by
  cases h with
  | none => exact takeExponent_eq_nil hr
  | some mark sign hne digits =>
      rw [List.append_assoc, List.cons_append, takeExponent, if_pos mark]
      simp only [takeSign_append_digits sign hne digits,
        digits.takeDigits_append (stops_isDigit hr), if_neg hne, List.cons_append]

theorem IsExponent.stops_append (h : IsExponent cs) : Stops continuesMantissa (cs ++ rest) := by
  cases h with
  | none => exact stops_continuesMantissa hr
  | some mark =>
      rcases mark with rfl | rfl
      · exact stops_cons rfl _
      · exact stops_cons rfl _

end

/-- A minus or none, digits with a point, and an exponent. -/
inductive IsNumber : List Char → Prop where
  | parts {minus mantissa exponent} : minus ∈ [[], ['-']] → IsMantissa mantissa →
      IsExponent exponent → IsNumber (minus ++ mantissa ++ exponent)

theorem takeMinus_append (cs : List Char) : (takeMinus cs).1 ++ (takeMinus cs).2 = cs := by
  unfold takeMinus
  split <;> rfl

private theorem takeMinus_mem (cs : List Char) : (takeMinus cs).1 ∈ [[], ['-']] := by
  unfold takeMinus
  split <;> simp

theorem isNumber_of_takeNumber? (h : takeNumber? cs = some (taken, rest)) :
    cs = taken ++ rest ∧ IsNumber taken := by
  simp only [takeNumber?] at h
  obtain ⟨⟨mantissa, after⟩, hm, he⟩ := Option.map_eq_some_iff.mp h
  cases he
  obtain ⟨unsigned, isMantissa⟩ := isMantissa_of_takeMantissa? hm
  obtain ⟨split, isExponent⟩ := isExponent_takeExponent after
  refine ⟨?_, .parts (takeMinus_mem cs) isMantissa isExponent⟩
  rw [List.append_assoc, ← split, List.append_assoc, ← unsigned, takeMinus_append]

/-- The characters of which digits with a point consist. -/
theorem IsMantissa.mem (h : IsMantissa cs) {c : Char} (hc : c ∈ cs) :
    continuesMantissa c = true := by
  rw [continuesMantissa, Bool.or_eq_true, beq_iff_eq]
  cases h with
  | whole _ digits => exact .inl (digits c hc)
  | point _ whole fraction =>
      rcases List.mem_append.mp hc with hc | hc
      · exact .inl (whole c hc)
      · rcases List.mem_cons.mp hc with rfl | hc
        · exact .inr rfl
        · exact .inl (fraction c hc)

theorem IsMantissa.ne_nil (h : IsMantissa cs) : cs ≠ [] := by
  cases h with
  | whole hne _ => exact hne
  | point _ _ _ => exact List.append_ne_nil_of_right_ne_nil _ (List.cons_ne_nil _ _)

theorem IsMantissa.takeMinus_append {minus : List Char} (h : IsMantissa cs)
    (hm : minus ∈ [[], ['-']]) (rest : List Char) :
    takeMinus (minus ++ (cs ++ rest)) = (minus, cs ++ rest) := by
  simp only [List.mem_cons, List.not_mem_nil, or_false] at hm
  rcases hm with rfl | rfl
  · obtain ⟨c, more, rfl⟩ := List.exists_cons_of_ne_nil h.ne_nil
    rw [List.nil_append, List.cons_append]
    unfold takeMinus
    split
    · next he =>
        cases he
        have minus := h.mem List.mem_cons_self
        cases minus
    · rfl
  · rfl

/-- A number is taken whole, whatever follows that could not continue it. -/
theorem IsNumber.take_append (h : IsNumber cs) (hr : Stops NumberText.continues rest) :
    takeNumber? (cs ++ rest) = some (cs, rest) := by
  cases h with
  | @parts minus mantissa exponent sign isMantissa isExponent =>
      have split : minus ++ mantissa ++ exponent ++ rest =
          minus ++ (mantissa ++ (exponent ++ rest)) := by
        simp only [List.append_assoc]
      rw [split, takeNumber?, isMantissa.takeMinus_append sign]
      simp only [isMantissa.take_append (isExponent.stops_append hr), Option.map_some,
        isExponent.take_append hr]

theorem IsNumber.ne_nil (h : IsNumber cs) : cs ≠ [] := by
  have alone := h.take_append (stops_nil _)
  rw [List.append_nil] at alone
  exact takeNumber?_ne_nil alone

private theorem IsExponent.mem (h : IsExponent cs) {c : Char} (hc : c ∈ cs) :
    isDigit c = true ∨ c ∈ ['e', 'E', '+', '-'] := by
  cases h with
  | none => cases hc
  | some mark sign _ digits =>
      simp only [List.cons_append, List.mem_cons, List.mem_append, List.not_mem_nil,
        or_false] at hc mark sign ⊢
      rcases hc with rfl | hc | hc
      · rcases mark with h | h <;> simp [h]
      · rcases sign with rfl | rfl | rfl <;> simp_all
      · exact .inl (digits c hc)

theorem IsNumber.mem (h : IsNumber cs) {c : Char} (hc : c ∈ cs) :
    isDigit c = true ∨ c ∈ ['.', 'e', 'E', '+', '-'] := by
  cases h with
  | parts minus mantissa exponent =>
      rcases List.mem_append.mp hc with hc | hc
      · rcases List.mem_append.mp hc with hc | hc
        · simp only [List.mem_cons, List.not_mem_nil, or_false] at minus
          rcases minus with rfl | rfl
          · cases hc
          · rw [List.mem_singleton.mp hc]
            exact .inr (by decide)
        · have digit := mantissa.mem hc
          rw [continuesMantissa, Bool.or_eq_true, beq_iff_eq] at digit
          rcases digit with digit | rfl
          · exact .inl digit
          · exact .inr List.mem_cons_self
      · exact (exponent.mem hc).imp_right (List.mem_cons_of_mem _)

private theorem isExponent_exponentChars {mark : Char} (hm : mark = 'e' ∨ mark = 'E')
    {exponent : Option (Bool × List Char)}
    (digits : ∀ part ∈ exponent, part.2 ≠ [] ∧ AllDigits part.2) :
    IsExponent (NumberText.exponentChars mark exponent) := by
  match exponent with
  | none => exact .none
  | some (true, ds) =>
      have minus : ['-'] ∈ [[], ['-'], ['+']] := by decide
      exact .some hm minus (digits _ rfl).1 (digits _ rfl).2
  | some (false, ds) =>
      have plus : ['+'] ∈ [[], ['-'], ['+']] := by decide
      exact .some hm plus (digits _ rfl).1 (digits _ rfl).2

theorem isNumber_chars (t : NumberText) : IsNumber t.chars := by
  have sign : Decimal.signText t.negative ∈ [[], ['-']] := by
    cases t.negative <;> decide
  have mantissa : IsMantissa (t.whole ++ NumberText.fractionChars t.fraction) := by
    cases hf : t.fraction with
    | none =>
        rw [NumberText.fractionChars, List.append_nil]
        exact .whole t.whole_ne_nil t.whole_digits
    | some ds => exact .point (fun he => t.whole_ne_nil he.1) t.whole_digits (t.fraction_digits ds hf)
  have number := IsNumber.parts sign mantissa (isExponent_exponentChars t.is_mark t.exponent_digits)
  rwa [List.append_assoc, List.append_assoc] at number

end RecordFilter.Token
