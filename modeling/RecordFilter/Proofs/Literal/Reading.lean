import Mathlib.Data.Bool.AllAny
import RecordFilter.Literal.Print
import RecordFilter.Proofs.Literal.List
import RecordFilter.Proofs.Numeric.FloatText

/-! # Reading the text of a literal

The text of a literal is one token, whatever delimiter follows, and that token is cast to the
literal. Besides, the text is enclosed and has no blanks at its ends, so it survives as an item of a
list, where it is cut out at the commas, trimmed and scanned once more.
-/

namespace RecordFilter.Literal

open Text

/-- The text is read as the literal when lists may be nested `levels` deep. -/
structure Reads (levels : Nat) (l : Literal) (cs : List Char) : Prop where
  ne_nil : cs ≠ []
  first : Stops isBlank cs
  last : Stops isBlank cs.reverse
  enclosed : Enclosed cs
  token : ∀ position, ∃ t : Token, t.kind.isLiteral = true ∧ castWithin levels t = .ok l ∧
    ∀ rest, Delimits rest → Token.read position false (cs ++ rest) = .ok (t, cs.length)

section

variable {levels : Nat} {l : Literal} {t : Token} {cs : List Char}

/-- A token that is cast to the literal has a text that is read as it. -/
theorem reads_of_written (h : t.WrittenAs cs) (cast : castWithin levels t = .ok l) :
    Reads levels l cs where
  ne_nil := h.ne_nil
  first := h.ends.1
  last := h.ends.2
  enclosed := h.enclosed
  token position := ⟨t.moved position, h.isLiteral, castWithin_moved cast position,
    fun _ hr => h.read_append position (Token.stops_grows (hr.stops rfl rfl) t)⟩

theorem reads_of_scalar (h : t.WrittenAs cs) (hk : t.kind ≠ .list) (cast : castScalar t = .ok l)
    (levels : Nat) : Reads levels l cs := by
  rw [← castWithin_eq_castScalar hk levels] at cast
  exact reads_of_written h cast

theorem Reads.exists_written (h : Reads levels l cs) :
    ∃ t : Token, t.WrittenAs cs ∧ castWithin levels t = .ok l := by
  obtain ⟨t, literal, cast, read⟩ := h.token 0
  obtain ⟨text, rest, whole, width, written⟩ :=
    Token.writtenAs_of_read (read [] delimits_nil) literal
  rw [List.append_inj_left whole width]
  exact ⟨t, written, cast⟩

end

theorem reads_word {c : Char} {cs : List Char} {l : Literal} (kind : TokenKind)
    (name : Token.startsWord c = true) (chars : ∀ d ∈ cs, Token.isWordChar d = true)
    (word : TokenKind.ofWord (String.ofList (c :: cs)) = kind) (literal : kind.isLiteral = true)
    (scalar : kind ≠ .list) (cast : castScalar (.plain kind 0 (c :: cs)) = .ok l)
    (levels : Nat) : Reads levels l (c :: cs) := by
  have written : (Token.plain kind 0 (c :: cs)).WrittenAs (c :: cs) :=
    .word name chars word literal
  exact reads_of_scalar written scalar cast levels

theorem reads_null (levels : Nat) : Reads levels null ['n', 'i', 'l'] := by
  have word : TokenKind.ofWord (String.ofList ['n', 'i', 'l']) = .null := rfl
  exact reads_word .null rfl (List.all_eq_true.mp rfl) word rfl (by decide) rfl levels

def boolChars (b : Bool) : List Char := if b then ['t', 'r', 'u', 'e'] else ['f', 'a', 'l', 's', 'e']

theorem reads_bool (b : Bool) (levels : Nat) : Reads levels (bool b) (boolChars b) := by
  have value : (lower (String.ofList (boolChars b)) == "true") = b := by
    cases b <;> decide
  have cast : castScalar (.plain .boolean 0 (boolChars b)) = .ok (bool b) :=
    congrArg (fun b => Except.ok (bool b)) value
  have word : TokenKind.ofWord (String.ofList (boolChars b)) = .boolean := by
    cases b <;> rfl
  cases b with
  | true =>
      exact reads_word .boolean rfl (List.all_eq_true.mp rfl) word rfl (by decide) cast levels
  | false =>
      exact reads_word .boolean rfl (List.all_eq_true.mp rfl) word rfl (by decide) cast levels

theorem reads_number (t : NumberText) {l : Literal}
    (cast : ∀ position, castNumber (String.ofList t.chars) position = .ok l) (levels : Nat) :
    Reads levels l t.chars := by
  have written : (Token.plain .number 0 t.chars).WrittenAs t.chars :=
    .number (Token.isNumber_chars t)
  exact reads_of_scalar written nofun (cast _) levels

theorem reads_int {n : Int} (few : n.natAbs < 10 ^ Numeral.digitLimit) (levels : Nat) :
    Reads levels (number ⟨.int n, rfl⟩) (NumberText.ofInt n).chars := by
  apply reads_number
  intro position
  have whole : isFloatText (String.ofList (NumberText.ofInt n).chars) = false :=
    NumberText.isFloatText_chars _
  rw [castNumber, whole, if_neg Bool.false_ne_true, NumberText.toInt?_ofInt few]

theorem reads_float {x : Binary64} (finite : x.isFinite = true) (levels : Nat) :
    ∃ t : NumberText, x.text = String.ofList t.chars ∧
      Reads levels (number ⟨.float x, finite⟩) t.chars := by
  obtain ⟨t, text, float, value⟩ := Binary64.exists_numberText finite
  refine ⟨t, text, reads_number t ?_ levels⟩
  intro position
  rw [castNumber, t.isFloatText_chars, if_pos float, t.toBinary64?_chars, value]
  exact dif_pos finite

/-- Text in quotes, with a suffix. -/
def quoted (text suffix : List Char) : List Char :=
  quoteMark :: (escape text ++ quoteMark :: suffix)

theorem unquote?_closed (text : List Char) :
    unquote? (escape text ++ [quoteMark]) = some (text, (escape text ++ [quoteMark]).length) := by
  rw [unquote?_escape_append, List.length_append, List.length_singleton]

theorem reads_text (s : String) (levels : Nat) :
    Reads levels (text s) (quoted s.toList []) := by
  have written : Token.WrittenAs ⟨.quoted, some (String.ofList s.toList), 0, none⟩
      (quoted s.toList []) := .quoted (unquote?_closed s.toList)
  refine reads_of_scalar written nofun ?_ levels
  exact congrArg (fun s => Except.ok (text s)) String.ofList_toList

/-- Text with a cast after it. -/
theorem writtenAs_quoted (text : List Char) {name : List Char} (hne : name ≠ [])
    (letters : ∀ c ∈ name, isLetter c = true) :
    Token.WrittenAs ⟨.quoted, some (String.ofList text), 0, some (String.ofList name)⟩
      (quoted text (':' :: ':' :: name)) := by
  have closed := @Token.WrittenAs.cast 0 _ _ _ (unquote?_closed text) hne letters
  rwa [List.cons_append, List.append_assoc] at closed

theorem reads_quoted {text name : List Char} {l : Literal} (hne : name ≠ [])
    (letters : ∀ c ∈ name, isLetter c = true)
    (value : ∀ position, castText (String.ofList text) (some (String.ofList name)) position = .ok l)
    (levels : Nat) : Reads levels l (quoted text (':' :: ':' :: name)) :=
  reads_of_scalar (writtenAs_quoted text hne letters) nofun (value _) levels

theorem reads_date (d : Date) (levels : Nat) :
    Reads levels (date d) (quoted d.chars [':', ':', 'D', 'A', 'T', 'E']) := by
  refine reads_quoted (List.cons_ne_nil _ _) (List.all_eq_true.mp rfl) ?_ levels
  intro position
  have value : Date.read (String.ofList d.chars) = .read d := d.read_text
  rw [castText, if_pos rfl, castDate, value]

/-- The text of a time is read as the time that goes by its offset. -/
theorem reads_datetime {z : ZonedDateTime} (minutes : z.offset.IsWholeMinutes) (levels : Nat) :
    Reads levels (datetime z.atOffset)
      (quoted z.shortText.toList [':', ':', 'D', 'A', 'T', 'E', 'T', 'I', 'M', 'E']) := by
  refine reads_quoted (List.cons_ne_nil _ _) (List.all_eq_true.mp rfl) ?_ levels
  intro position
  rw [String.ofList_toList, castText, if_neg (by decide), if_pos rfl, castDateTime,
    ZonedDateTime.read_shortText minutes]

/-- The texts of items as they stand between the commas: all but the first after a space. -/
def pieces : List (List Char) → List (List Char)
  | [] => []
  | first :: rest => first :: rest.map (' ' :: ·)

private theorem intercalate_pieces (texts : List (List Char)) :
    [','].intercalate (pieces texts) = [',', ' '].intercalate texts := by
  have spaced : ∀ (first : List Char) (rest : List (List Char)),
      [','].intercalate (first :: rest.map (' ' :: ·)) = [',', ' '].intercalate (first :: rest) := by
    intro first rest
    induction rest generalizing first with
    | nil => rfl
    | cons second more ih =>
        have shorter := ih (' ' :: second)
        rw [List.map_cons, List.intercalate_cons_cons, shorter, List.intercalate_cons_cons]
        cases more with
        | nil => simp [List.intercalate_singleton]
        | cons third others => simp [List.intercalate_cons_cons]
  cases texts with
  | nil => rfl
  | cons first rest => exact spaced first rest

section

variable {levels : Nat} {items : List Literal} {texts : List (List Char)}

private theorem padded_pieces (texts : List (List Char)) :
    List.Forall₂ (Padded isBlank) texts (pieces texts) := by
  have spaced (texts : List (List Char)) :
      List.Forall₂ (Padded isBlank) texts (texts.map (' ' :: ·)) :=
    List.forall₂_map_right_iff.mpr (List.forall₂_same.mpr fun text _ =>
      ⟨[' '], [], (List.append_nil _).symm, List.all_eq_true.mp rfl, List.forall_mem_nil _⟩)
  cases texts with
  | nil => exact .nil
  | cons first rest =>
      exact .cons ⟨[], [], (List.append_nil _).symm, List.forall_mem_nil _, List.forall_mem_nil _⟩
        (spaced rest)

private theorem listBody_pieces (texts : List (List Char)) :
    ListBody texts ([',', ' '].intercalate texts) := by
  rw [← intercalate_pieces]
  cases texts with
  | nil => exact .empty (List.forall_mem_nil _)
  | cons first rest => exact .items (List.cons_ne_nil _ _) (padded_pieces _)

/-- The text of a list. -/
def listChars (texts : List (List Char)) : List Char :=
  '[' :: ([',', ' '].intercalate texts ++ [']'])

/-- The texts of literals, with commas and spaces between them and brackets around, are read as the
    list of the literals. -/
theorem reads_list (h : List.Forall₂ (Reads levels) items texts) :
    Reads (levels + 1) (list items) (listChars texts) := by
  have each : List.Forall₂ (fun text l => ∃ t : Token, t.Alone text ∧ castWithin levels t = .ok l)
      texts items := by
    refine h.flip.imp fun text l reads => ?_
    obtain ⟨t, written, cast⟩ := reads.exists_written
    exact ⟨t.moved 0, written.alone, castWithin_moved cast 0⟩
  have alone : ∀ text ∈ texts, ∃ t : Token, t.Alone text := by
    refine forall_mem_of_forall₂ each ?_
    rintro text l ⟨t, alone, _⟩
    exact ⟨t, alone⟩
  have body := listBody_pieces texts
  have written : (Token.plain .list 0 (listChars texts)).WrittenAs (listChars texts) :=
    .list (body.runs alone)
  refine reads_of_written written ?_
  rw [castList_eq_ok_iff castWithin_moved rfl]
  refine ⟨items, rfl, ?_⟩
  rw [listChars, innerText_brackets]
  exact (body.cast_iff alone).mpr each

end

end RecordFilter.Literal
