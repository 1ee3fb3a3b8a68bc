import Mathlib
import RecordFilter.Proofs.Literal.Matching
import RecordFilter.Proofs.Literal.RoundTrip
import RecordFilter.Proofs.Numeric.DecimalText
import RecordFilter.Proofs.Predicate.Interchange

/-! # Which literals survive in a query

The literals that plain values can be made into are more than those that a query can spell. A
decimal is written in digits, and digits are read as a whole number or as a floating point value; a
fraction, an offset with seconds and a whole number with too many digits have texts that are not
read at all, or no text. A time is read back with its offset for a zone, and does not equal that if
the clock of its region shows it twice or leaves it out. These are the only literals that are lost:
all others are read back as equal literals.
-/

namespace RecordFilter.Literal

open Text

/-- The literal has a text that is read as an equal literal. -/
inductive Expressible : Literal → Prop where
  | spellable {l : Literal} : l.Spellable → Expressible l
  /-- A decimal without an exponent is written as a whole number. -/
  | whole (negative : Bool) {c : Nat} : c < 10 ^ Numeral.digitLimit →
      Expressible (number ⟨.decimal (.finite negative c 0), rfl⟩)
  /-- Any other decimal is read as the nearest floating point value. -/
  | float {negative : Bool} {c : Nat} {e : Int} {x : Binary64} (finite : x.isFinite = true) : e ≠ 0 →
      (FiniteNumber.mk (.float x) finite).value =
        (FiniteNumber.mk (.decimal (.finite negative c e)) rfl).value →
      Expressible (number ⟨.decimal (.finite negative c e), rfl⟩)
  | datetime {z : ZonedDateTime} : z.zone.isSettled = true → z.offset.IsWholeMinutes →
      Expressible (datetime z)
  | list {items : List Literal} : (∀ l ∈ items, l.Expressible) → Expressible (list items)

section

variable (negative : Bool) {c : Nat} {e : Int}

private theorem castNumber_whole (few : c < 10 ^ Numeral.digitLimit) (position : Option Int) :
    castNumber (String.ofList (NumberText.ofDigits negative c).chars) position =
      .ok (number ⟨.int (if negative then -(c : Int) else (c : Int)), rfl⟩) := by
  have whole : isFloatText (String.ofList (NumberText.ofDigits negative c).chars) = false :=
    NumberText.isFloatText_chars _
  rw [castNumber, whole, if_neg Bool.false_ne_true, NumberText.toInt?_ofDigits negative few]

theorem castNumber_float (t : NumberText) (float : t.isFloat = true) (position : Option Int) :
    castNumber (String.ofList t.chars) position =
      if finite : t.numeral.toBinary64.isFinite = true then
        .ok (number ⟨.float t.numeral.toBinary64, finite⟩)
      else failCast (.numberOutOfRange (String.ofList t.chars)) position := by
  rw [castNumber, t.isFloatText_chars, if_pos float, t.toBinary64?_chars]

theorem same_number_iff {m n : FiniteNumber} :
    (number m).same (number n) = true ↔ m.value = n.value := by
  rw [(Typed.number m).same_iff]
  constructor
  · rintro ⟨⟩
    assumption
  · exact .number

private theorem value_decimal (c : Nat) (e : Int) :
    (FiniteNumber.mk (.decimal (.finite negative c e)) rfl).value =
      Number.signed (Decimal.numberText negative c e).numeral.negative
        (Decimal.numberText negative c e).numeral.magnitude := by
  rw [Decimal.negative_numberText, Decimal.magnitude_numberText]
  rfl

theorem queryText_decimal (c : Nat) (e : Int) :
    (number ⟨.decimal (.finite negative c e), rfl⟩).queryText =
      .ok (String.ofList (Decimal.numberText negative c e).chars) := by
  rw [← Decimal.text_eq]
  rfl

private theorem value_whole (c : Nat) :
    (FiniteNumber.mk (.decimal (.finite negative c 0)) rfl).value =
    (FiniteNumber.mk (.int (if negative then -(c : Int) else (c : Int))) rfl).value := by
  have left : (FiniteNumber.mk (.decimal (.finite negative c 0)) rfl).value =
      Number.signed negative (c * 10 ^ (0 : Int)) := rfl
  have right (n : Int) : (FiniteNumber.mk (.int n) rfl).value = n := rfl
  rw [left, right, zpow_zero, mul_one]
  cases negative <;> simp [Number.signed]

end

/-- The literal has a text, and the text is read as a literal that it equals. -/
def ReadsBack (levels : Nat) (l : Literal) : Prop :=
  ∃ cs m, l.queryText = .ok (String.ofList cs) ∧ Reads levels m cs ∧ l.same m = true

private theorem exists_queryTexts_same {levels : Nat} {items : List Literal}
    (h : ∀ l ∈ items, l.ReadsBack levels) :
    ∃ (texts : List (List Char)) (others : List Literal),
      queryTexts items = .ok (texts.map String.ofList) ∧
      List.Forall₂ (Reads levels) others texts ∧ sameLiterals items others = true := by
  induction items with
  | nil => exact ⟨[], [], rfl, .nil, rfl⟩
  | cons l rest ih =>
      rw [List.forall_mem_cons] at h
      obtain ⟨⟨cs, m, text, reads, same⟩, others⟩ := h
      obtain ⟨texts, found, written, each, all⟩ := ih others
      refine ⟨cs :: texts, m :: found, ?_, .cons reads each, ?_⟩
      · rw [queryTexts, text, ok_bind, written]
        rfl
      · rw [sameLiterals, same, all]
        rfl

private theorem Expressible.readsBack {l : Literal} (h : l.Expressible) {levels : Nat}
    (hd : l.listDepth ≤ levels) : l.ReadsBack levels := by
  induction h generalizing levels with
  | @spellable l spellable =>
      obtain ⟨cs, text, reads⟩ := spellable.exists_queryText hd
      exact ⟨cs, l, text, reads, (spellable.typed.same_iff l).mpr spellable.typed.equal_self⟩
  | @whole negative c few =>
      refine ⟨_, _, queryText_decimal negative c 0, ?_, same_number_iff.mpr (value_whole negative c)⟩
      exact reads_number _ (castNumber_whole negative few) levels
  | @float negative c e x hx he same =>
      have value := value_decimal negative c e
      obtain ⟨finite, read⟩ := Decimal.exists_toBinary64 hx (same.trans value)
      refine ⟨_, _, queryText_decimal negative c e, reads_number _ ?_ levels,
        same_number_iff.mpr (value.trans read.symm)⟩
      intro position
      rw [castNumber_float _ (Decimal.isFloat_numberText negative c e he)]
      exact dif_pos finite
  | @datetime z settled minutes =>
      exact ⟨_, _, congrArg Except.ok (quoted_eq z.clockChars), reads_datetime minutes levels,
        ZonedDateTime.same_iff.mpr (ZonedDateTime.sameTime_atOffset_iff.mpr settled)⟩
  | @list items _ ih =>
      cases levels with
      | zero =>
          rw [listDepth] at hd
          omega
      | succ levels =>
          rw [listDepth, Nat.add_le_add_iff_right, listDepthOf_le_iff] at hd
          obtain ⟨texts, others, written, reads, same⟩ :=
            exists_queryTexts_same fun l hl => ih l hl (hd l hl)
          refine ⟨_, .list others, ?_, reads_list reads, same⟩
          rw [queryText, written, ok_bind, listText_eq]
          rfl

/-- The text of a fraction, which is no literal: a comma stands between its two numbers. -/
def IsFractionText (cs : List Char) : Prop :=
  ∃ before after, cs = 'F' :: (before ++ ',' :: (after ++ [')'])) ∧ '(' ∈ before ∧
    (∀ c ∈ before ++ after, IsPlain c) ∧ ∀ c ∈ before, isBlank c = false

/-- The text is that of a literal token or of a fraction. -/
def HasForm (cs : List Char) : Prop := (∃ t : Token, t.WrittenAs cs) ∨ IsFractionText cs

/-- No literal begins with this letter and holds a parenthesis. -/
theorem not_writtenAs_parenthesis {t : Token} {cs : List Char} (h : '(' ∈ cs) :
    ¬t.WrittenAs ('F' :: cs) := by
  intro written
  cases written with
  | number number =>
      rcases number.mem List.mem_cons_self with digit | mark
      · cases digit
      · revert mark
        decide
  | word _ others _ _ => exact absurd (others _ h) (by decide)

private theorem isPlain_of_mem_intText {n : Int} {s : String} (h : Number.intText n = .ok s) :
    ∀ c ∈ s.toList, IsPlain c ∧ isBlank c = false := by
  unfold Number.intText at h
  split at h
  · cases h
    rw [String.toList_ofList, ← NumberText.chars_ofInt]
    exact fun c hc => Token.WrittenAs.plain_visible_of_isNumber (Token.isNumber_chars _) hc
  · cases h

theorem isFractionText_of_queryText {r : Rat} {s : String}
    (h : (Number.fraction r).queryText = .ok s) : IsFractionText s.toList := by
  simp only [Number.queryText, bind_eq_ok_iff] at h
  obtain ⟨numerator, hn, denominator, hd, ⟨⟩⟩ := h
  have first := isPlain_of_mem_intText hn
  have second := isPlain_of_mem_intText hd
  have checked : "raction(".toList.all (fun c => decide (IsPlain c ∧ isBlank c = false)) = true := by
    decide
  have name (c : Char) (hc : c ∈ "raction(".toList) : IsPlain c ∧ isBlank c = false :=
    of_decide_eq_true (List.all_eq_true.mp checked c hc)
  refine ⟨"raction(".toList ++ numerator.toList, ' ' :: denominator.toList, ?_, ?_, ?_, ?_⟩
  · simp
  · simp
  · simp only [List.forall_mem_append, List.forall_mem_cons]
    exact ⟨⟨fun c hc => (name c hc).1, fun c hc => (first c hc).1⟩, by decide,
      fun c hc => (second c hc).1⟩
  · rw [List.forall_mem_append]
    exact ⟨fun c hc => (name c hc).2, fun c hc => (first c hc).2⟩

/-- A text of this form stays inside the brackets around it. -/
theorem HasForm.runs {cs : List Char} (h : HasForm cs) :
    Runs Nesting.Closes (.outside 1) cs (.outside 1) := by
  have spares := spares_closes (Int.le_refl 1)
  rcases h with ⟨t, written⟩ | ⟨before, after, rfl, _, plain, _⟩
  · exact written.enclosed _ _ spares
  · rw [List.forall_mem_append] at plain
    have first : Enclosed ('F' :: before) := .cons_plain (by decide) (.plain plain.1)
    have comma : Runs Nesting.Closes (.outside 1) [','] (.outside 1) := .cons (by decide) .nil
    have second : Enclosed (after ++ [')']) :=
      .append (.plain plain.2) (.cons_plain (by decide) .nil)
    have whole := ((first _ _ spares).append comma).append (second _ _ spares)
    simpa using whole

/-- There is no blank at either end. -/
theorem HasForm.trim_eq {cs : List Char} (h : HasForm cs) : trim isBlank cs = cs := by
  have ends : Stops isBlank cs ∧ Stops isBlank cs.reverse := by
    rcases h with ⟨t, written⟩ | ⟨before, after, rfl, _⟩
    · exact written.ends
    · refine ⟨stops_cons rfl _, ?_⟩
      simp only [List.reverse_cons, List.reverse_append, List.reverse_nil, List.nil_append,
        List.cons_append, List.append_assoc]
      exact stops_cons rfl _
  exact trim_append (List.forall_mem_nil _) ends.1 ends.2

theorem runs_of_hasForm {texts : List (List Char)} (h : ∀ cs ∈ texts, HasForm cs) :
    Runs Nesting.Closes (.outside 1) ([',', ' '].intercalate texts) (.outside 1) := by
  induction texts with
  | nil => exact .nil
  | cons cs rest ih =>
      rw [List.forall_mem_cons] at h
      cases rest with
      | nil =>
          rw [List.intercalate_singleton]
          exact h.1.runs
      | cons second more =>
          have separator : Runs Nesting.Closes (.outside 1) [',', ' '] (.outside 1) :=
            .cons (by decide) (.cons (by decide) .nil)
          rw [List.intercalate_cons_cons]
          exact (h.1.runs.append separator).append (ih h.2)

theorem queryTexts_eq_ok_iff {items : List Literal} {texts : List (List Char)} :
    queryTexts items = .ok (texts.map String.ofList) ↔
      List.Forall₂ (fun l cs => l.queryText = .ok (String.ofList cs)) items texts := by
  induction items generalizing texts with
  | nil => simp [queryTexts, eq_comm]
  | cons l rest ih =>
      cases texts with
      | nil =>
          simp only [queryTexts, bind_eq_ok_iff, pure_eq_ok_iff, List.map_nil]
          simp
      | cons cs texts =>
          simp only [queryTexts, bind_eq_ok_iff, pure_eq_ok_iff, List.map_cons, List.cons.injEq,
            List.forall₂_cons, ← ih]
          constructor
          · rintro ⟨_, first, _, others, rfl, rfl⟩
            exact ⟨first, others⟩
          · rintro ⟨first, others⟩
            exact ⟨_, first, _, others, rfl, rfl⟩

/-- A list is written as the texts of its items, with commas and spaces between them. -/
theorem exists_texts {items : List Literal} {cs : List Char}
    (h : (list items).queryText = .ok (String.ofList cs)) :
    ∃ texts : List (List Char), cs = listChars texts ∧
      List.Forall₂ (fun l cs => l.queryText = .ok (String.ofList cs)) items texts := by
  rw [queryText, bind_eq_ok_iff] at h
  obtain ⟨texts, written, whole⟩ := h
  have chars : texts = (texts.map String.toList).map String.ofList := by simp
  rw [chars] at written whole
  rw [listText_eq, pure_eq_ok_iff] at whole
  exact ⟨_, (String.ofList_injective whole).symm, queryTexts_eq_ok_iff.mp written⟩

theorem Typed.genuine {l : Literal} (h : l.Typed) : l.Genuine := by
  induction h with
  | list _ ih => exact .list _ ih
  | _ => constructor

/-- Whatever a literal holds, its text has this form. -/
theorem Genuine.hasForm {l : Literal} (h : l.Genuine) {cs : List Char}
    (text : l.queryText = .ok (String.ofList cs)) : HasForm cs := by
  have token {l : Literal} {cs : List Char} (spellable : l.Spellable) (depth : l.listDepth = 0)
      (text : l.queryText = .ok (String.ofList cs)) : HasForm cs := by
    obtain ⟨found, same, reads⟩ := spellable.exists_queryText depth.le
    rw [same, Except.ok.injEq] at text
    obtain ⟨t, written, _⟩ := reads.exists_written
    exact .inl ⟨t, String.ofList_injective text ▸ written⟩
  induction h generalizing cs with
  | null => exact token .null rfl text
  | bool b => exact token (.bool b) rfl text
  | text s => exact token (.text s) rfl text
  | date d => exact token (.date d) rfl text
  | number n =>
      obtain ⟨number, finite⟩ := n
      cases number with
      | int n => exact token (.int n (natAbs_lt_of_intText text)) rfl text
      | float x => exact token (.float x finite) rfl text
      | decimal d =>
          cases d with
          | finite negative c e =>
              rw [queryText_decimal, Except.ok.injEq] at text
              rw [← String.ofList_injective text]
              exact .inl ⟨.plain .number 0 _, .number (Token.isNumber_chars _)⟩
          | infinite => cases finite
          | nan => cases finite
      | fraction r =>
          have form := isFractionText_of_queryText text
          rw [String.toList_ofList] at form
          exact .inr form
  | misdated clock zone =>
      have quoted := text.symm.trans (congrArg Except.ok (quoted_eq (clock.clockChars_text zone)))
      rw [String.ofList_injective (Except.ok.inj quoted)]
      exact .inl ⟨_, writtenAs_quoted _ (List.cons_ne_nil _ _) (List.all_eq_true.mp rfl)⟩
  | datetime z =>
      have quoted := text.symm.trans (congrArg Except.ok (quoted_eq z.clockChars))
      rw [String.ofList_injective (Except.ok.inj quoted)]
      exact .inl ⟨_, writtenAs_quoted _ (List.cons_ne_nil _ _) (List.all_eq_true.mp rfl)⟩
  | blank => cases text
  | list items each ih =>
      obtain ⟨texts, rfl, written⟩ := exists_texts text
      have forms : ∀ cs ∈ texts, HasForm cs := by
        refine forall_mem_of_forall₂ ((List.forall₂_and_left items texts).mpr ⟨ih, written⟩).flip ?_
        rintro cs l ⟨form, text⟩
        exact form text
      exact .inl ⟨.plain .list 0 _, .list (runs_of_hasForm forms)⟩

section

variable {levels : Nat} {t : Token} {m : Literal}

private theorem castScalar_of_written {cs : List Char} {u : Token} (ht : t.WrittenAs cs)
    (hu : u.WrittenAs cs) (scalar : u.kind ≠ .list) (cast : castWithin levels t = .ok m) :
    castScalar (u.moved 0) = .ok m := by
  have again := castWithin_moved cast 0
  rw [ht.moved_eq hu] at again
  rwa [castWithin_eq_castScalar (t := u.moved 0) scalar] at again

private theorem castScalar_quoted (text name : List Char) (position : Int) :
    castScalar ⟨.quoted, some (String.ofList text), position, some (String.ofList name)⟩ =
      castText (String.ofList text) (some (String.ofList name)) (some position) := rfl

/-- A decimal whose text is read as an equal literal is a whole number or a floating point value. -/
theorem expressible_decimal {negative : Bool} {c : Nat} {e : Int} {position : Option Int}
    (cast : castNumber (String.ofList (Decimal.numberText negative c e).chars) position = .ok m)
    (same : (number ⟨.decimal (.finite negative c e), rfl⟩).same m = true) :
    Expressible (number ⟨.decimal (.finite negative c e), rfl⟩) := by
  by_cases he : e = 0
  · subst he
    have whole : isFloatText (String.ofList (NumberText.ofDigits negative c).chars) = false :=
      NumberText.isFloatText_chars _
    have digits : Decimal.numberText negative c 0 = .ofDigits negative c := rfl
    refine .whole negative ?_
    by_contra many
    have long : ¬(digitsOf c).length ≤ Numeral.digitLimit := by
      rw [← digitCount, digitCount_le_iff (by decide)]
      exact many
    rw [digits, castNumber, whole, if_neg Bool.false_ne_true, NumberText.toInt?_chars _ rfl rfl,
      NumberText.ofDigits, if_neg long] at cast
    cases cast
  · rw [castNumber_float _ (Decimal.isFloat_numberText negative c e he)] at cast
    split at cast
    · next finite =>
        cases cast
        exact .float finite he (same_number_iff.mp same).symm
    · cases cast

/-- In a list a fraction is cut in two, and its first piece is no literal. -/
theorem IsFractionText.not_cast {cs : List Char} (h : IsFractionText cs) {blanks : List Char}
    (hb : ∀ c ∈ blanks, isBlank c = true) (more : List Char) (found : List Literal) :
    ¬List.Forall₂ (PieceCast levels) (splitItems .start (blanks ++ (cs ++ more))) found := by
  obtain ⟨before, after, rfl, parenthesis, plain, visible⟩ := h
  rw [List.forall_mem_append] at plain
  have passed : Enclosed blanks := .plain fun c hc => isPlain_of_isBlank (hb c hc)
  have first : Enclosed ('F' :: before) := .cons_plain (by decide) (.plain plain.1)
  have runs : Runs Nesting.Separates .start (blanks ++ 'F' :: before) .start :=
    (passed.append first) _ _ (spares_separates (Int.le_refl 0))
  have seen : ∀ c ∈ 'F' :: before, isBlank c = false := List.forall_mem_cons.mpr ⟨rfl, visible⟩
  have core : trim isBlank (blanks ++ 'F' :: before) = 'F' :: before :=
    trim_append hb (stops_of_forall seen)
      (stops_of_forall fun c hc => seen c (List.mem_reverse.mp hc))
  have cut : blanks ++ (('F' :: (before ++ ',' :: (after ++ [')']))) ++ more) =
      (blanks ++ 'F' :: before) ++ ',' :: (after ++ ')' :: more) := by
    simp
  rw [cut, splitItems_append runs (by decide)]
  intro each
  cases each with
  | cons piece _ =>
      obtain ⟨t, written, _⟩ := piece
      rw [core] at written
      exact not_writtenAs_parenthesis parenthesis written

/-- If the pieces between the commas of a list are cast, they are the texts of its items. -/
theorem forall₂_written_of_pieces {texts : List (List Char)} (hne : texts ≠ [])
    (forms : ∀ cs ∈ texts, HasForm cs) {blanks : List Char} (hb : ∀ c ∈ blanks, isBlank c = true)
    {found : List Literal}
    (each : List.Forall₂ (PieceCast levels)
      (splitItems .start (blanks ++ [',', ' '].intercalate texts)) found) :
    List.Forall₂ (fun cs m => ∃ t : Token, t.WrittenAs cs ∧ castWithin levels t = .ok m)
      texts found := by
  induction texts generalizing blanks found with
  | nil => exact absurd rfl hne
  | cons cs rest ih =>
      rw [List.forall_mem_cons] at forms
      rcases forms.1 with ⟨u, written⟩ | fraction
      · have passed : Enclosed blanks := .plain fun c hc => isPlain_of_isBlank (hb c hc)
        have runs : Runs Nesting.Separates .start (blanks ++ cs) .start :=
          (passed.append written.enclosed) _ _ (spares_separates (Int.le_refl 0))
        have core : trim isBlank (blanks ++ cs) = cs :=
          trim_append hb written.ends.1 written.ends.2
        cases rest with
        | nil =>
            rw [List.intercalate_singleton, splitItems_eq_singleton runs] at each
            cases each with
            | cons first none =>
                cases none
                rw [PieceCast, core] at first
                exact .cons first .nil
        | cons second more =>
            have cut : blanks ++ [',', ' '].intercalate (cs :: second :: more) =
                (blanks ++ cs) ++ ',' :: ([' '] ++ [',', ' '].intercalate (second :: more)) := by
              simp [List.intercalate_cons_cons]
            rw [cut, splitItems_append runs (by decide)] at each
            cases each with
            | cons first others =>
                rw [PieceCast, core] at first
                exact .cons first (ih (List.cons_ne_nil _ _) forms.2
                  (List.forall_mem_singleton.mpr rfl) others)
      · cases rest with
        | nil =>
            rw [List.intercalate_singleton, ← List.append_nil cs] at each
            exact absurd each (fraction.not_cast hb [] found)
        | cons second more =>
            rw [List.intercalate_cons_cons, List.append_assoc] at each
            exact absurd each (fraction.not_cast hb _ found)

end

/-- The text of the literal is read as one that it equals. -/
def ReadAs (levels : Nat) (l : Literal) (cs : List Char) : Prop :=
  l.queryText = .ok (String.ofList cs) ∧
    ∃ (t : Token) (m : Literal), t.WrittenAs cs ∧ castWithin levels t = .ok m ∧ l.same m = true

private theorem forall₂_readAs {levels : Nat} {items found : List Literal}
    {texts : List (List Char)}
    (written : List.Forall₂ (fun l cs => l.queryText = .ok (String.ofList cs)) items texts)
    (read : List.Forall₂ (fun cs m => ∃ t : Token, t.WrittenAs cs ∧ castWithin levels t = .ok m)
      texts found)
    (same : sameLiterals items found = true) : List.Forall₂ (ReadAs levels) items texts := by
  induction written generalizing found with
  | nil => exact .nil
  | cons text _ ih =>
      cases read with
      | cons first others =>
          rw [sameLiterals, Bool.and_eq_true] at same
          obtain ⟨t, token, cast⟩ := first
          exact .cons ⟨text, t, _, token, cast, same.1⟩ (ih others same.2)

/-- The texts of items can be told apart again in the text of their list. -/
theorem forall₂_readAs_of_list {levels : Nat} {items : List Literal}
    (typed : ∀ l ∈ items, l.Typed) {cs : List Char} (h : ReadAs levels (list items) cs) :
    ∃ (n : Nat) (texts : List (List Char)), List.Forall₂ (ReadAs n) items texts := by
  obtain ⟨text, t, m, token, cast, same⟩ := h
  obtain ⟨texts, rfl, written⟩ := exists_texts text
  have forms : ∀ cs ∈ texts, HasForm cs := by
    refine forall_mem_of_forall₂ ((List.forall₂_and_left items texts).mpr ⟨typed, written⟩).flip ?_
    rintro cs l ⟨typed, text⟩
    exact typed.genuine.hasForm text
  have whole : Token.WrittenAs (.plain .list 0 (listChars texts)) (listChars texts) :=
    .list (runs_of_hasForm forms)
  have again := castWithin_moved cast 0
  rw [token.moved_eq whole, Token.moved_plain] at again
  cases levels with
  | zero => cases again
  | succ levels =>
      rw [castList_eq_ok_iff castWithin_moved rfl, listChars, innerText_brackets] at again
      obtain ⟨found, rfl, ⟨_, rfl⟩ | ⟨visible, each⟩⟩ := again
      · cases items with
        | nil => exact ⟨0, [], .nil⟩
        | cons l rest => cases same
      · have hne : texts ≠ [] := by
          rintro rfl
          cases visible
        have none : ∀ c ∈ ([] : List Char), isBlank c = true := List.forall_mem_nil _
        exact ⟨levels, texts, forall₂_readAs written
          (forall₂_written_of_pieces hne forms none each) same⟩

/-- Only the text of an expressible literal is read as a literal that it equals. -/
theorem Typed.expressible {l : Literal} (h : l.Typed) {levels : Nat} {cs : List Char}
    (read : ReadAs levels l cs) : l.Expressible := by
  induction h generalizing levels cs with
  | null => exact .spellable .null
  | bool b => exact .spellable (.bool b)
  | text s => exact .spellable (.text s)
  | date d => exact .spellable (.date d)
  | number n =>
      obtain ⟨number, finite⟩ := n
      obtain ⟨text, t, m, token, cast, same⟩ := read
      cases number with
      | int n => exact .spellable (.int n (natAbs_lt_of_intText text))
      | float x => exact .spellable (.float x finite)
      | decimal d =>
          cases d with
          | finite negative c e =>
              rw [queryText_decimal, Except.ok.injEq] at text
              have chars := String.ofList_injective text
              subst chars
              have number : Token.WrittenAs
                  (.plain .number 0 (Decimal.numberText negative c e).chars) _ :=
                .number (Token.isNumber_chars _)
              exact expressible_decimal (castScalar_of_written token number nofun cast) same
          | infinite => cases finite
          | nan => cases finite
      | fraction r =>
          have form := isFractionText_of_queryText text
          rw [String.toList_ofList] at form
          obtain ⟨before, after, rfl, parenthesis, _⟩ := form
          exact absurd token (not_writtenAs_parenthesis (List.mem_append_left _ parenthesis))
  | datetime z =>
      obtain ⟨text, t, m, token, cast, same⟩ := read
      have quoted := text.symm.trans (congrArg Except.ok (quoted_eq z.clockChars))
      rw [String.ofList_injective (Except.ok.inj quoted)] at token
      have time : Token.WrittenAs ⟨.quoted, some (String.ofList z.shortText.toList), 0,
          some (String.ofList ['D', 'A', 'T', 'E', 'T', 'I', 'M', 'E'])⟩ _ :=
        writtenAs_quoted _ (List.cons_ne_nil _ _) (List.all_eq_true.mp rfl)
      have value := castScalar_of_written token time nofun cast
      rw [Token.moved, castScalar_quoted, String.ofList_toList, castText, if_neg (by decide),
        if_pos rfl, castDateTime] at value
      split at value
      · next found =>
          have minutes := ZonedDateTime.isWholeMinutes_of_read_shortText found
          rw [ZonedDateTime.read_shortText minutes] at found
          cases found
          cases value
          have settled := ZonedDateTime.sameTime_atOffset_iff.mp (ZonedDateTime.same_iff.mp same)
          exact .datetime settled minutes
      · cases value
      · cases value
  | @list items each ih =>
      obtain ⟨n, texts, read⟩ := forall₂_readAs_of_list each read
      refine .list (forall_mem_of_forall₂ ((List.forall₂_and_left items texts).mpr ⟨ih, read⟩) ?_)
      rintro l cs ⟨expressible, read⟩
      exact expressible read

/-- A literal of a plain value, with lists nested within the limit, is written as text that is read
    as one token and cast to an equal literal exactly if it is expressible. If its times go by fixed
    offsets, then every comparison with the literal that is read back has the same answer. -/
theorem expressible_iff_read_back {limit : Nat} {v : Value} {l : Literal} (hv : v.Plain)
    (made : ofValue v = .ok l) (room : l.listDepth ≤ limit) :
    l.Expressible ↔ ∃ (text : String) (t : Token) (m : Literal), l.queryText = .ok text ∧
      t.Alone text.toList ∧ castToken (.ok limit) 0 t = .ok m ∧ l.same m = true ∧
      ((∀ z ∈ l.times, z.zone.isFixed = true) →
        ∀ (op : Comparison) (subject : Value), op.holds subject m = op.holds subject l) := by
  constructor
  · intro expressible
    obtain ⟨cs, m, text, reads, same⟩ := expressible.readsBack room
    obtain ⟨t, written, cast⟩ := reads.exists_written
    refine ⟨_, t.moved 0, m, text, ?_, ?_, same, ?_⟩
    · rw [String.toList_ofList]
      exact written.alone
    · rw [castToken_eq]
      exact castWithin_moved cast 0
    · intro fixed op subject
      have read := (spellable_of_castWithin cast).1.isFixed_of_mem_times
      have step := forall₂_inStep_of_isFixed (sameTimes_of_same same) fixed read
      exact (op.holds_of_inStep same step subject).symm
  · rintro ⟨text, t, m, written, alone, cast, same, _⟩
    have typed := Typed.ofValue hv made
    have chars : l.queryText = .ok (String.ofList text.toList) := by
      rw [String.ofList_toList, written]
    obtain ⟨core, padded, token⟩ := alone.exists_written
    have whole := padded.trim_eq token.ne_nil token.ends.1 token.ends.2
    rw [(typed.genuine.hasForm chars).trim_eq] at whole
    rw [castToken_eq] at cast
    exact typed.expressible ⟨chars, t, m, whole ▸ token, cast, same⟩

theorem expressible_iff_read_back_half :
    ∃ l : Literal, ofValue (.tuple [.number (.decimal (.finite false 50 (-2)))]) = .ok l ∧
      l.listDepth ≤ 1 ∧ ∃ (text : String) (t : Token) (m : Literal), l.queryText = .ok text ∧
        t.Alone text.toList ∧ castToken (.ok (1 : Nat)) 0 t = .ok m ∧ l.same m = true := by
  have plain : Value.Plain (.tuple [.number (.decimal (.finite false 50 (-2)))]) :=
    .tuple (List.forall_mem_singleton.mpr (.other rfl nofun))
  have half : (FiniteNumber.mk (.float (.finite false (2 ^ 52) (-53) (by decide))) rfl).value =
      (FiniteNumber.mk (.decimal (.finite false 50 (-2))) rfl).value := by
    have left : (FiniteNumber.mk (.float (.finite false (2 ^ 52) (-53) (by decide))) rfl).value =
        ((2 ^ 52 : Nat) : Rat) * 2 ^ (-53 : Int) := rfl
    have right : (FiniteNumber.mk (.decimal (.finite false 50 (-2))) rfl).value =
        ((50 : Nat) : Rat) * 10 ^ (-2 : Int) := rfl
    rw [left, right]
    norm_num
  have expressible : Expressible (list [number ⟨.decimal (.finite false 50 (-2)), rfl⟩]) :=
    .list (List.forall_mem_singleton.mpr (.float rfl (by decide) half))
  obtain ⟨text, t, m, written, alone, cast, same, _⟩ :=
    (@expressible_iff_read_back 1 _ _ plain rfl (by decide)).mp expressible
  exact ⟨_, rfl, by decide, text, t, m, written, alone, cast, same⟩

/-- A decimal beyond all floating point values is written with an exponent, as a number that is out
    of range when it is read. -/
theorem not_read_back_beyond_floats :
    ∃ l : Literal, ofValue (.number (.decimal (.finite false 1 400))) = .ok l ∧
      l.queryText = .ok "1E+400" ∧ ¬∃ (t : Token) (m : Literal),
        t.Alone "1E+400".toList ∧ castToken (.ok 64) 0 t = .ok m := by
  refine ⟨_, rfl, by cbv, ?_⟩
  rintro ⟨t, m, ⟨_, stop, scan⟩, cast⟩
  have tokens : Scan.ofText 0 "1E+400" =
      ⟨[.plain .number 0 ['1', 'E', '+', '4', '0', '0']], .finish 6⟩ := by
    cbv
  rw [String.ofList_toList, tokens] at scan
  cases scan
  have fails : castToken (.ok 64) 0 (.plain .number 0 ['1', 'E', '+', '4', '0', '0']) =
      .error (.cast (.numberOutOfRange "1E+400") (some 0)) := by
    cbv
  rw [fails] at cast
  cases cast

end RecordFilter.Literal
