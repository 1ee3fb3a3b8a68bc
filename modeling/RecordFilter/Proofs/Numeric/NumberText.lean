import Mathlib.Data.Option.Basic
import RecordFilter.Literal.Cast
import RecordFilter.Proofs.Text.Trim

/-! # Number text

The form of every number that is written: a sign if it is negative, digits, a point with digits, and
an exponent with its sign, behind a mark that decimals write as a capital. Nothing of a text of this
form is changed when it is read, and its parts are found again.
-/

namespace RecordFilter

open Text

structure NumberText where
  negative : Bool
  whole : List Char
  fraction : Option (List Char)
  /-- The sign of the exponent and its digits. -/
  exponent : Option (Bool × List Char)
  /-- What stands before an exponent. -/
  mark : Char
  whole_ne_nil : whole ≠ []
  whole_digits : AllDigits whole
  fraction_digits : ∀ digits ∈ fraction, AllDigits digits
  exponent_digits : ∀ part ∈ exponent, part.2 ≠ [] ∧ AllDigits part.2
  is_mark : mark = 'e' ∨ mark = 'E'

namespace NumberText

theorem is_mark_lower : 'e' = 'e' ∨ 'e' = 'E' := .inl rfl

def fractionChars : Option (List Char) → List Char
  | none => []
  | some digits => '.' :: digits

def exponentChars (mark : Char) : Option (Bool × List Char) → List Char
  | none => []
  | some (negative, digits) => mark :: (if negative then '-' else '+') :: digits

def chars (t : NumberText) : List Char :=
  Decimal.signText t.negative ++
    (t.whole ++ (fractionChars t.fraction ++ exponentChars t.mark t.exponent))

def exponentValue : Option (Bool × List Char) → Int
  | none => 0
  | some (negative, digits) =>
    if negative then -(natOfDigits digits : Int) else (natOfDigits digits : Int)

/-- The number that the text spells. -/
def numeral (t : NumberText) : Numeral :=
  let fraction := t.fraction.getD []
  ⟨t.negative, natOfDigits (t.whole ++ fraction), exponentValue t.exponent - fraction.length⟩

/-- A text with a point or an exponent is one of floating point. -/
def isFloat (t : NumberText) : Bool := t.fraction.isSome || t.exponent.isSome

/-- A character by which a number could go on. -/
def continues (c : Char) : Bool := isDigit c || c == '.' || c == 'e' || c == 'E'

/-- Digits on both sides of a point, without an exponent. -/
def withPoint (negative : Bool) {whole fraction : List Char} (hne : whole ≠ [])
    (hw : AllDigits whole) (hf : AllDigits fraction) : NumberText where
  negative := negative
  whole := whole
  fraction := some fraction
  exponent := none
  mark := 'e'
  whole_ne_nil := hne
  whole_digits := hw
  fraction_digits := by
    intro digits hd
    cases Option.mem_some.mp hd
    exact hf
  exponent_digits := fun _ he => nomatch he
  is_mark := is_mark_lower

section

variable (negative : Bool) {whole fraction : List Char} (hne : whole ≠ []) (hw : AllDigits whole)
  (hf : AllDigits fraction)

theorem chars_withPoint : (withPoint negative hne hw hf).chars =
    Decimal.signText negative ++ (whole ++ '.' :: fraction) := by
  simp only [chars, withPoint, fractionChars, exponentChars, List.append_nil]

theorem isFloat_withPoint : (withPoint negative hne hw hf).isFloat = true := rfl

theorem numeral_withPoint : (withPoint negative hne hw hf).numeral =
    ⟨negative, natOfDigits (whole ++ fraction), -fraction.length⟩ := by
  simp only [numeral, withPoint, Option.getD_some, exponentValue, Int.zero_sub]

end

variable (t : NumberText)

private theorem mem_fractionChars {fraction : Option (List Char)}
    (h : ∀ digits ∈ fraction, AllDigits digits)
    {c : Char} (hc : c ∈ fractionChars fraction) : isDigit c = true ∨ c = '.' := by
  cases fraction with
  | none => cases hc
  | some digits =>
      rcases List.mem_cons.mp hc with rfl | hd
      · exact .inr rfl
      · exact .inl (h digits rfl c hd)

private theorem mem_exponentChars {mark : Char} {exponent : Option (Bool × List Char)}
    (h : ∀ part ∈ exponent, part.2 ≠ [] ∧ AllDigits part.2) {c : Char}
    (hc : c ∈ exponentChars mark exponent) : isDigit c = true ∨ c = mark ∨ c = '-' ∨ c = '+' := by
  match exponent with
  | none => cases hc
  | some (negative, digits) =>
      rcases List.mem_cons.mp hc with rfl | hc
      · exact .inr (.inl rfl)
      · rcases List.mem_cons.mp hc with rfl | hd
        · cases negative with
          | false => exact .inr (.inr (.inr rfl))
          | true => exact .inr (.inr (.inl rfl))
        · exact .inl ((h _ rfl).2 c hd)

private theorem mem_chars {c : Char} (hc : c ∈ t.chars) :
    isDigit c = true ∨ c = '.' ∨ c = t.mark ∨ c = '-' ∨ c = '+' := by
  rw [chars, List.mem_append, List.mem_append, List.mem_append] at hc
  rcases hc with hs | hw | hf | he
  · cases hn : t.negative with
    | false => simp [Decimal.signText, hn] at hs
    | true => simp_all [Decimal.signText]
  · exact .inl (t.whole_digits c hw)
  · rcases mem_fractionChars t.fraction_digits hf with h | h <;> simp [h]
  · rcases mem_exponentChars t.exponent_digits he with h | h | h | h <;> simp [h]

private theorem isDigit_bounds {c : Char} (h : isDigit c = true) : 48 ≤ c.toNat ∧ c.toNat ≤ 57 := by
  simp only [isDigit, Bool.and_eq_true, decide_eq_true_eq] at h
  exact ⟨h.1, h.2⟩

private theorem ascii_of_mem {c : Char} (hc : c ∈ t.chars) :
    c.toNat < 128 ∧ Numeral.isAsciiBlank c = false ∧ c ≠ '_' ∧ isBlank c = false := by
  rcases t.mem_chars hc with h | rfl | rfl | rfl | rfl
  · have bounds := isDigit_bounds h
    refine ⟨by omega, ?_, ?_, isBlank_eq_false (by omega) (by omega)⟩
    · have : c ≠ ' ' := by
        rintro rfl
        exact absurd h (by decide)
      simp [Numeral.isAsciiBlank, this]
      omega
    · rintro rfl
      exact absurd h (by decide)
  · decide
  · rcases t.is_mark with h | h <;> rw [h] <;> decide
  · decide
  · decide

private theorem head?_whole {p : Char → Prop} (hp : ∀ c, isDigit c = true → p c)
    (rest : List Char) :
    ∃ c, (t.whole ++ rest).head? = some c ∧ p c := by
  cases hw : t.whole with
  | nil => exact absurd hw t.whole_ne_nil
  | cons c more =>
      refine ⟨c, rfl, hp c (t.whole_digits c ?_)⟩
      rw [hw]
      exact List.mem_cons_self

private theorem head?_whole_ne {d : Char} (hd : isDigit d = false) (rest : List Char) :
    (t.whole ++ rest).head? ≠ some d := by
  have differ : ∀ c, isDigit c = true → c ≠ d := by
    rintro c hc rfl
    rw [hd] at hc
    cases hc
  obtain ⟨c, hc, hne⟩ := t.head?_whole differ rest
  rw [hc]
  exact fun he => hne (Option.some.inj he)

section

variable {rest : List Char}

theorem stops_isDigit_of_stops (h : Stops continues rest) : Stops isDigit rest := by
  intro c hc
  have := h c hc
  simp only [continues, Bool.or_eq_false_iff] at this
  exact this.1.1.1

private theorem isDigit_mark : isDigit t.mark = false := by
  rcases t.is_mark with h | h <;> rw [h] <;> rfl

private theorem stops_exponentChars (exponent : Option (Bool × List Char))
    (h : Stops continues rest) :
    Stops isDigit (exponentChars t.mark exponent ++ rest) := by
  cases exponent with
  | none => exact stops_isDigit_of_stops h
  | some part => exact stops_cons t.isDigit_mark _

end

private theorem mapM_toAscii? {cs : List Char} (h : ∀ c ∈ cs, c.toNat < 128) :
    cs.mapM Numeral.toAscii? = some cs := by
  induction cs with
  | nil => rfl
  | cons c cs ih =>
      rw [List.forall_mem_cons] at h
      rw [List.mapM_cons, ih h.2, Numeral.toAscii?, if_pos h.1]
      rfl

theorem dropSeparators?_eq_self {cs : List Char} (h : ∀ c ∈ cs, c ≠ '_') {previous : Char}
    (hp : previous ≠ '_') : Numeral.dropSeparators? previous cs = some cs := by
  induction cs generalizing previous with
  | nil => rw [Numeral.dropSeparators?, if_neg hp]
  | cons c cs ih =>
      rw [List.forall_mem_cons] at h
      rw [Numeral.dropSeparators?, if_neg h.1, if_neg fun hc => hp hc.1, ih h.2 h.1]
      rfl

/-- Nothing of a number's text is changed before it is read. -/
theorem normalize?_chars : Numeral.normalize? (String.ofList t.chars) = some t.chars := by
  have ascii := mapM_toAscii? fun c hc => (t.ascii_of_mem hc).1
  have trimmed : trim Numeral.isAsciiBlank t.chars = t.chars :=
    trim_eq_self fun c hc => (t.ascii_of_mem hc).2.1
  have kept : Numeral.dropSeparators? ' ' t.chars = some t.chars :=
    dropSeparators?_eq_self (fun c hc => (t.ascii_of_mem hc).2.2.1) (by decide)
  rw [Numeral.normalize?, String.toList_ofList, ascii, Option.bind_eq_bind, Option.bind_some,
    trimmed, kept]

private theorem takeSign_signText (negative : Bool) {cs : List Char} (hm : cs.head? ≠ some '-')
    (hp : cs.head? ≠ some '+') :
    Numeral.takeSign (Decimal.signText negative ++ cs) = (negative, cs) := by
  cases negative with
  | true => rfl
  | false =>
      cases cs with
      | nil => rfl
      | cons c rest =>
          unfold Numeral.takeSign
          split
          · next he =>
              cases he
              exact absurd rfl hm
          · next he =>
              cases he
              exact absurd rfl hp
          · rfl

theorem takeSign_chars :
    Numeral.takeSign t.chars =
      (t.negative, t.whole ++ (fractionChars t.fraction ++ exponentChars t.mark t.exponent)) :=
  takeSign_signText t.negative (t.head?_whole_ne rfl _) (t.head?_whole_ne rfl _)

theorem allDigits?_eq {digits : List Char} (hne : digits ≠ []) (h : AllDigits digits) :
    Numeral.allDigits? digits = some digits :=
  if_pos ⟨hne, List.all_eq_true.mpr h⟩

private theorem exponent?_eq {mark : Char} (hm : mark = 'e' ∨ mark = 'E')
    {exponent : Option (Bool × List Char)}
    (digits : ∀ part ∈ exponent, part.2 ≠ [] ∧ AllDigits part.2) :
    Numeral.exponent? (exponentChars mark exponent) = some (exponentValue exponent) := by
  match exponent with
  | none => rfl
  | some (negative, ds) =>
      obtain ⟨hne, hds⟩ := digits _ rfl
      cases negative with
      | false => simp [exponentChars, Numeral.exponent?, Numeral.takeSign, allDigits?_eq hne hds,
          exponentValue, hm]
      | true => simp [exponentChars, Numeral.exponent?, Numeral.takeSign, allDigits?_eq hne hds,
          exponentValue, hm]

/-- Reading finds the parts of a number's text again. -/
theorem ofChars?_chars : Numeral.ofChars? t.chars = some t.numeral := by
  have stop := t.stops_exponentChars t.exponent (stops_nil continues)
  rw [List.append_nil] at stop
  unfold Numeral.ofChars?
  rw [takeSign_chars]
  cases hf : t.fraction with
  | some ds =>
      have hds : AllDigits ds := t.fraction_digits ds hf
      have whole : takeDigits (t.whole ++ '.' :: (ds ++ exponentChars t.mark t.exponent)) =
          (t.whole, '.' :: (ds ++ exponentChars t.mark t.exponent)) :=
        t.whole_digits.takeDigits_append (stops_cons rfl _)
      simp only [fractionChars, List.cons_append, whole, Numeral.takeFraction,
        hds.takeDigits_append stop, exponent?_eq t.is_mark t.exponent_digits, numeral, hf,
        t.whole_ne_nil,
        false_and, if_false, Option.map_some, Option.getD_some]
  | none =>
      have whole : takeDigits (t.whole ++ exponentChars t.mark t.exponent) =
          (t.whole, exponentChars t.mark t.exponent) :=
        t.whole_digits.takeDigits_append stop
      have fraction : Numeral.takeFraction (exponentChars t.mark t.exponent) =
          ([], exponentChars t.mark t.exponent) := by
        rcases t.is_mark with h | h <;> rw [h]
        all_goals
          match t.exponent with
          | none => rfl
          | some part => rfl
      simp only [fractionChars, List.nil_append, whole, fraction,
        exponent?_eq t.is_mark t.exponent_digits,
        numeral, hf,
        t.whole_ne_nil, false_and, if_false, Option.map_some, Option.getD_none,
        List.append_nil]

theorem toBinary64?_chars :
    Numeral.toBinary64? (String.ofList t.chars) = some t.numeral.toBinary64 := by
  rw [Numeral.toBinary64?, normalize?_chars, Option.bind_eq_bind, Option.bind_some, ofChars?_chars]
  rfl

theorem isFloatText_chars : Literal.isFloatText (String.ofList t.chars) = t.isFloat := by
  have whole : ∀ c, isDigit c = true → (c == '.' || c == 'e' || c == 'E') = false := by
    intro c hc
    rw [Bool.eq_false_iff]
    intro he
    simp only [Bool.or_eq_true, beq_iff_eq] at he
    rcases he with (rfl | rfl) | rfl <;> exact absurd hc (by decide)
  have whole_none : t.whole.any (fun c => c == '.' || c == 'e' || c == 'E') = false := by
    rw [List.any_eq_false]
    intro c hc
    rw [whole c (t.whole_digits c hc)]
    exact Bool.false_ne_true
  have sign_none : (Decimal.signText t.negative).any
      (fun c => c == '.' || c == 'e' || c == 'E') = false := by
    cases t.negative <;> rfl
  rw [Literal.isFloatText, String.toList_ofList, chars]
  simp only [List.any_append, sign_none, whole_none, Bool.false_or, isFloat]
  cases t.fraction with
  | some ds => rfl
  | none =>
      match t.exponent with
      | some part => rcases t.is_mark with h | h <;> rw [h] <;> rfl
      | none => rfl

/-- Digits alone are read as a whole number, as long as there are not too many of them. -/
theorem toInt?_chars (hf : t.fraction = none) (he : t.exponent = none) :
    Numeral.toInt? (String.ofList t.chars) =
      if t.whole.length ≤ Numeral.digitLimit then
        some (if t.negative then -(natOfDigits t.whole : Int) else (natOfDigits t.whole : Int))
      else none := by
  have digits : Numeral.allDigits? t.whole = some t.whole :=
    allDigits?_eq t.whole_ne_nil t.whole_digits
  rw [Numeral.toInt?, normalize?_chars, Option.bind_eq_bind, Option.bind_some, takeSign_chars]
  simp only [hf, he, fractionChars, exponentChars, List.append_nil, digits, Option.bind_eq_bind,
    Option.bind_some, Option.pure_def]
  by_cases few : t.whole.length ≤ Numeral.digitLimit
  · simp only [few, guard_true, Option.pure_def, Option.bind_some, if_true]
  · simp only [few, guard_false, Option.failure_eq_none, Option.bind_none, if_false]

/-- The text of a whole number. Zero can have a sign too. -/
def ofDigits (negative : Bool) (n : Nat) : NumberText where
  negative := negative
  whole := digitsOf n
  fraction := none
  exponent := none
  mark := 'e'
  whole_ne_nil := digitsOf_ne_nil _
  whole_digits := .digitsOf _
  fraction_digits := fun _ h => nomatch h
  exponent_digits := fun _ h => nomatch h
  is_mark := is_mark_lower

theorem chars_ofDigits (negative : Bool) (n : Nat) :
    (ofDigits negative n).chars = Decimal.signText negative ++ digitsOf n := by
  simp only [chars, ofDigits, fractionChars, exponentChars, List.append_nil]

/-- A whole number within the limit of digits is read back. -/
theorem toInt?_ofDigits (negative : Bool) {n : Nat} (h : n < 10 ^ Numeral.digitLimit) :
    Numeral.toInt? (String.ofList (ofDigits negative n).chars) =
      some (if negative then -(n : Int) else (n : Int)) := by
  have few : (digitsOf n).length ≤ Numeral.digitLimit := (digitCount_le_iff (by decide)).mpr h
  rw [toInt?_chars _ rfl rfl]
  simp only [ofDigits, if_pos few, natOfDigits_digitsOf]

/-- The text of a whole number without a sign of zero. -/
def ofInt (n : Int) : NumberText := ofDigits (n < 0) n.natAbs

theorem chars_ofInt (n : Int) :
    (ofInt n).chars = Decimal.signText (n < 0) ++ digitsOf n.natAbs :=
  chars_ofDigits _ _

theorem toInt?_ofInt {n : Int} (h : n.natAbs < 10 ^ Numeral.digitLimit) :
    Numeral.toInt? (String.ofList (ofInt n).chars) = some n := by
  have sign : (if n < 0 then -((n.natAbs : Nat) : Int) else (n.natAbs : Int)) = n := by
    split <;> omega
  rw [ofInt, toInt?_ofDigits _ h]
  simp only [decide_eq_true_eq, sign]

end NumberText
end RecordFilter
