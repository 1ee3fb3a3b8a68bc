import RecordFilter.Identifier
import RecordFilter.Proofs.Text.Trim
import RecordFilter.Proofs.Token.Scan

/-! # Scanning written text

In written text a space or a closing parenthesis follows every token, or nothing does. Before such a
delimiter every token ends where it was meant to end, and whether it was a number no longer matters.
So the tokens of two texts with a space between are those of the one and then those of the other.
-/

namespace RecordFilter

open Text

/-- What follows a token in written text: nothing, a space or a closing parenthesis. -/
def Delimits (rest : List Char) : Prop := ∀ c ∈ rest.head?, c = ' ' ∨ c = ')'

theorem delimits_nil : Delimits [] := by
  intro c hc
  cases hc

theorem delimits_space (cs : List Char) : Delimits (' ' :: cs) := by
  intro c hc
  cases hc
  exact .inl rfl

private theorem delimits_closeParen (cs : List Char) : Delimits (')' :: cs) := by
  intro c hc
  cases hc
  exact .inr rfl

theorem Delimits.stops {p : Char → Bool} {rest : List Char} (h : Delimits rest)
    (space : p ' ' = false) (paren : p ')' = false) : Stops p rest := by
  intro c hc
  rcases h c hc with rfl | rfl
  · exact space
  · exact paren

namespace Token

/-- A character that could continue a token: one of a word, the colon of a cast, or the second
    character of an operator. -/
def continuesToken (c : Char) : Bool := isWordChar c || c == ':' || c == '='

theorem takeNumber?_eq_none {c : Char} (digit : isDigit c = false) (minus : c ≠ '-')
    (point : c ≠ '.') (cs : List Char) : takeNumber? (c :: cs) = none := by
  have unsigned : takeMinus (c :: cs) = ([], c :: cs) := by
    unfold takeMinus
    split
    · next he =>
        cases he
        exact absurd rfl minus
    · rfl
  have whole : takeDigits (c :: cs) = ([], c :: cs) := by
    simp [takeDigits, digit]
  have mantissa : takeMantissa? (c :: cs) = none := by
    simp only [takeMantissa?, whole]
    split
    · next more he => exact absurd (List.cons.inj he).1 point
    · rfl
  rw [takeNumber?, unsigned]
  simp only [mantissa, Option.map_none]

private theorem isDigit_of_startsWord {c : Char} (h : startsWord c = true) : isDigit c = false := by
  rw [Bool.eq_false_iff]
  intro digit
  simp only [startsWord, isLetter, isDigit, Bool.or_eq_true, Bool.and_eq_true, decide_eq_true_eq,
    beq_iff_eq] at h digit
  rcases h with ((letter | letter) | rfl) | rfl
  · exact absurd (Char.le_trans letter.1 digit.2) (by decide)
  · exact absurd (Char.le_trans letter.1 digit.2) (by decide)
  · exact absurd digit.2 (by decide)
  · exact absurd digit.1 (by decide)

/-- A character that begins a word begins no number, unless it is a point before a digit. -/
theorem takeNumber?_eq_none_iff {c : Char} (first : startsWord c = true) (cs : List Char) :
    takeNumber? (c :: cs) = none ↔ (c = '.' → Stops isDigit cs) := by
  by_cases point : c = '.'
  · subst point
    have minus : takeMinus ('.' :: cs) = ([], '.' :: cs) := rfl
    have mantissa : takeMantissa? ('.' :: cs) = if ([] : List Char) = [] ∧ (takeDigits cs).1 = []
        then none else some ([] ++ '.' :: (takeDigits cs).1, (takeDigits cs).2) := rfl
    rw [takeNumber?, minus, Option.map_eq_none_iff, mantissa, ← takeWhile_eq_nil_iff, takeDigits]
    simp
  · refine iff_of_true (takeNumber?_eq_none (isDigit_of_startsWord first) ?_ point cs)
      fun h => absurd h point
    rintro rfl
    cases first

private theorem isWordChar_of_startsName {c : Char} (h : Identifier.startsName c = true) :
    isWordChar c = true := by
  apply isWordChar_of_startsWord
  rw [startsWord, Bool.or_eq_true]
  exact .inl h

theorem isBlank_of_isWordChar {c : Char} (h : isWordChar c = true) : isBlank c = false := by
  simp only [isWordChar, isLetter, isDigit, Bool.or_eq_true, Bool.and_eq_true, decide_eq_true_eq,
    beq_iff_eq] at h
  rcases h with (((⟨low, high⟩ | ⟨low, high⟩) | ⟨low, high⟩) | rfl) | rfl
  · exact isBlank_eq_false (Nat.le_trans (by decide) low) (Nat.le_trans high (by decide))
  · exact isBlank_eq_false (Nat.le_trans (by decide) low) (Nat.le_trans high (by decide))
  · exact isBlank_eq_false (Nat.le_trans (by decide) low) (Nat.le_trans high (by decide))
  · rfl
  · rfl

/-- What begins a word and no number is read as a word. -/
theorem read_eq_readWord {c : Char} {cs : List Char} (first : startsWord c = true)
    (number : takeNumber? (c :: cs) = none) (position : Int) (afterNumber : Bool) :
    read position afterNumber (c :: cs) = .ok (readWord position afterNumber (c :: cs)) := by
  have excluded {d : Char} (hd : startsWord d = false) : c ≠ d := by
    rintro rfl
    rw [hd] at first
    cases first
  rw [read, number]
  simp only [if_neg (excluded (show startsWord quoteMark = false from rfl)),
    if_neg (excluded (show startsWord '[' = false from rfl)), first, if_true]

/-- A word is read up to a character that could not continue it. -/
theorem read_word {c : Char} {cs rest : List Char} (first : startsWord c = true)
    (point : c = '.' → Stops isDigit cs) (others : ∀ d ∈ cs, isWordChar d = true)
    (h : Stops isWordChar rest) (position : Int) :
    read position false (c :: cs ++ rest) =
      .ok (plain (.ofWord (String.ofList (c :: cs))) position (c :: cs), (c :: cs).length) := by
  have number : takeNumber? (c :: (cs ++ rest)) = none := by
    rw [takeNumber?_eq_none_iff first]
    intro hc
    exact (point hc).append (h.mono fun d hd => by simp [isWordChar, hd])
  have word : (c :: cs ++ rest).takeWhile isWordChar = c :: cs :=
    takeWhile_append_of_stops
      (List.forall_mem_cons.mpr ⟨isWordChar_of_startsWord first, others⟩) h
  have width : wordLength false (c :: cs) = (c :: cs).length := rfl
  rw [List.cons_append] at word ⊢
  rw [read_eq_readWord first number]
  simp only [readWord, word, width, List.take_length]

end Token

namespace Scan

/-- The scan with more tokens in front. -/
def prepend (ts : List Token) (s : Scan) : Scan := ⟨ts ++ s.tokens, s.ending⟩

theorem prepend_cons (t : Token) (ts : List Token) (s : Scan) :
    s.prepend (t :: ts) = .cons t (s.prepend ts) := rfl

theorem prepend_append (xs ys : List Token) (s : Scan) :
    s.prepend (xs ++ ys) = (s.prepend ys).prepend xs := by
  simp only [prepend, List.append_assoc]

theorem skipBlanks_eq_self {position : Int} {cs : List Char} (h : Stops isBlank cs)
    (afterNumber : Bool) :
    (Cursor.mk position cs afterNumber).skipBlanks = ⟨position, cs, afterNumber⟩ := by
  have none : cs.takeWhile isBlank = [] := by
    have taken := takeWhile_append_of_stops (List.forall_mem_nil _) h
    rwa [List.nil_append] at taken
  simp [Cursor.skipBlanks, Cursor.advance, none]

/-- Blanks before a token only move it, and part it from a number before them. -/
theorem ofCursor_blanks {gap : List Char} (hne : gap ≠ []) (blank : ∀ c ∈ gap, isBlank c = true)
    (position : Int) (cs : List Char) (afterNumber : Bool) :
    ofCursor ⟨position, gap ++ cs, afterNumber⟩ =
      ofCursor ⟨position + gap.length, cs, false⟩ := by
  apply ofCursor_congr
  have some_blank := List.length_pos_iff.mpr hne
  simp only [Cursor.skipBlanks, Cursor.advance, List.takeWhile_append_of_pos blank,
    List.length_append, List.drop_length_add_append, Bool.false_and, Cursor.mk.injEq, true_and,
    Bool.and_eq_false_iff, beq_eq_false_iff_ne]
  omega

theorem ofCursor_space (position : Int) (cs : List Char) (afterNumber : Bool) :
    ofCursor ⟨position, ' ' :: cs, afterNumber⟩ = ofCursor ⟨position + 1, cs, false⟩ :=
  ofCursor_blanks (List.cons_ne_nil ' ' []) (List.forall_mem_singleton.mpr rfl) position cs _

theorem ofCursor_nil (position : Int) (afterNumber : Bool) :
    ofCursor ⟨position, [], afterNumber⟩ = ⟨[], .finish position⟩ := by
  have next : Cursor.next ⟨position, [], afterNumber⟩ = .ok (.finish position,
      Cursor.advance (Cursor.skipBlanks ⟨position, [], afterNumber⟩) 0 false) := by
    apply Cursor.next_eq_ok_iff.mpr
    rw [skipBlanks_eq_self (stops_nil _)]
    exact ⟨0, rfl, rfl⟩
  exact ofCursor_of_finish next rfl

/-- Before a delimiter it does not matter whether a number came before. -/
theorem ofCursor_afterNumber {rest : List Char} (h : Delimits rest) (position : Int)
    (afterNumber : Bool) :
    ofCursor ⟨position, rest, afterNumber⟩ = ofCursor ⟨position, rest, false⟩ := by
  cases rest with
  | nil => rw [ofCursor_nil, ofCursor_nil]
  | cons c cs =>
      rcases h c rfl with rfl | rfl
      · rw [ofCursor_space, ofCursor_space]
      · have closes (flag : Bool) : Cursor.next ⟨position, ')' :: cs, flag⟩ =
            .ok (.plain .closeParen position [')'], ⟨position + 1, cs, false⟩) := by
          apply Cursor.next_eq_ok_iff.mpr
          rw [skipBlanks_eq_self (stops_cons rfl _)]
          exact ⟨1, rfl, rfl⟩
        have not_end : (Token.plain .closeParen position [')']).kind ≠ .finish :=
          fun hk => nomatch hk
        rw [ofCursor_of_next (closes afterNumber) not_end, ofCursor_of_next (closes false) not_end]

/-- The tokens of the text at this position are these, whatever delimiter follows. -/
def Spells (position : Int) (cs : List Char) (ts : List Token) : Prop :=
  ∀ rest, Delimits rest →
    ofCursor ⟨position, cs ++ rest, false⟩ =
      (ofCursor ⟨position + cs.length, rest, false⟩).prepend ts

variable {position : Int} {xs ys : List Char} {t : Token} {ts us : List Token}

theorem ofCursor_of_read {width : Nat} (first : Stops isBlank xs)
    (h : Token.read position false xs = .ok (t, width)) (hk : t.kind ≠ .finish) :
    ofCursor ⟨position, xs, false⟩ =
      .cons t (ofCursor ⟨position + width, xs.drop width, t.kind == .number⟩) := by
  apply ofCursor_of_next _ hk
  apply Cursor.next_eq_ok_iff.mpr
  rw [skipBlanks_eq_self first]
  exact ⟨width, h, rfl⟩

theorem spells_of_read (hne : xs ≠ []) (first : Stops isBlank xs) (hk : t.kind ≠ .finish)
    (h : ∀ rest, Delimits rest → Token.read position false (xs ++ rest) = .ok (t, xs.length)) :
    Spells position xs [t] := by
  intro rest hr
  rw [ofCursor_of_read (first.append_of_ne_nil hne rest) (h rest hr) hk, List.drop_left,
    ofCursor_afterNumber hr]
  rfl

theorem spells_word {c : Char} {cs : List Char} (first : Identifier.startsName c = true)
    (others : ∀ d ∈ cs, Token.isWordChar d = true) (position : Int) :
    Spells position (c :: cs)
      [.plain (.ofWord (String.ofList (c :: cs))) position (c :: cs)] := by
  have visible : isBlank c = false :=
    Token.isBlank_of_isWordChar (Token.isWordChar_of_startsName first)
  apply spells_of_read (List.cons_ne_nil _ _) (stops_cons visible _)
  · rw [Token.kind_plain]
    intro he
    have word := TokenKind.isWord_ofWord (String.ofList (c :: cs))
    rw [he] at word
    cases word
  · intro rest hr
    have starts : Token.startsWord c = true := by
      rw [Token.startsWord, Bool.or_eq_true]
      exact .inl first
    refine Token.read_word starts ?_ others (hr.stops rfl rfl) position
    rintro rfl
    cases first

/-- A space joins the tokens of two texts. -/
theorem Spells.space (hx : Spells position xs ts)
    (hy : Spells (position + xs.length + 1) ys us) :
    Spells position (xs ++ ' ' :: ys) (ts ++ us) := by
  intro rest hr
  have whole : position + xs.length + 1 + ys.length =
      position + (xs ++ ' ' :: ys).length := by
    simp only [List.length_append, List.length_cons]
    omega
  rw [List.append_assoc, List.cons_append, hx _ (delimits_space _), ofCursor_space, hy rest hr,
    ← prepend_append, whole]

/-- Parentheses add their tokens at both ends. -/
theorem Spells.parenthesized (h : Spells (position + 1) xs ts) :
    Spells position ('(' :: (xs ++ [')'])) (.plain .openParen position ['('] ::
      (ts ++ [.plain .closeParen (position + 1 + xs.length) [')']])) := by
  intro rest hr
  have opens : ofCursor ⟨position, '(' :: (xs ++ ')' :: rest), false⟩ =
      .cons (.plain .openParen position ['('])
        (ofCursor ⟨position + 1, xs ++ ')' :: rest, false⟩) :=
    ofCursor_of_read (stops_cons rfl _) rfl (fun hk => nomatch hk)
  have closes : Spells (position + 1 + xs.length) [')']
      [.plain .closeParen (position + 1 + xs.length) [')']] :=
    spells_of_read (List.cons_ne_nil _ _) (stops_cons rfl _) (fun hk => nomatch hk)
      (fun _ _ => rfl)
  have whole : position + 1 + xs.length + 1 = position + ('(' :: (xs ++ [')'])).length := by
    simp only [List.length_append, List.length_cons, List.length_nil]
    omega
  rw [List.cons_append, List.append_assoc, List.singleton_append, opens,
    h _ (delimits_closeParen rest), prepend_cons, prepend_append, ← whole]
  congr 2
  exact closes rest hr

/-- Text that stands alone is scanned to its end. -/
theorem Spells.ofText {text : String} (h : Spells 0 text.toList ts) :
    Scan.ofText 0 text = ⟨ts, .finish text.toList.length⟩ := by
  have whole := h [] delimits_nil
  rw [List.append_nil, ofCursor_nil, Int.zero_add] at whole
  rw [Scan.ofText, Cursor.start, whole, prepend, List.append_nil]

end Scan
end RecordFilter
