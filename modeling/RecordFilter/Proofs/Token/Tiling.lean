import RecordFilter.Proofs.Token.Span

/-! # Tokens tile the text

The pieces of text that the tokens are read off lie one after the other and do not overlap, and only
blanks stand between them. Where the text begins matters for nothing but the positions: from another
place on, the same tokens and the same failure are told, all moved alike.
-/

namespace RecordFilter

open Text

namespace Token

/-- What stands behind the closing quote of quoted text. -/
def castChars : Option String → List Char
  | none => []
  | some name => ':' :: ':' :: name.toList

/-- The piece of text is that of the token: quoted text begins with its opening quote and goes up to
    its closing quote and the cast, if there is one; any other token has the piece as its text. -/
structure Covers (t : Token) (span : List Char) : Prop where
  quoted : t.kind = .quoted →
    ∃ inner content, unquote? (inner ++ [quoteMark]) = some (content, inner.length + 1) ∧
      t.text = some (String.ofList content) ∧
      span = quoteMark :: (inner ++ quoteMark :: castChars t.cast)
  other : t.kind ≠ .quoted → t.text = some (String.ofList span)

private theorem covers_of_unquote? {body content : List Char}
    (h : unquote? body = some (content, body.length)) (position : Int) (cast : Option String) :
    Covers ⟨.quoted, some (String.ofList content), position, cast⟩
      (quoteMark :: (body ++ castChars cast)) := by
  obtain ⟨inner, whole⟩ := exists_take_of_unquote? h
  rw [List.take_length] at whole
  subst whole
  rw [List.length_append] at h
  refine ⟨fun _ => ⟨inner, content, h, rfl, ?_⟩, fun hk => absurd rfl hk⟩
  rw [List.append_assoc, List.singleton_append]

private theorem covers_plain {kind : TokenKind} (h : kind ≠ .quoted) (position : Int)
    (cs : List Char) :
    (plain kind position cs).Covers cs :=
  ⟨fun hk => absurd hk h, fun _ => rfl⟩

theorem Spans.covers {t : Token} {span : List Char} (h : t.Spans span) : t.Covers span := by
  cases h with
  | literal written =>
      cases written with
      | number => exact covers_plain (by decide) _ _
      | @quoted position body content alone =>
          have covers := covers_of_unquote? alone position none
          rwa [castChars, List.append_nil] at covers
      | @cast position body content name alone =>
          have covers := covers_of_unquote? alone position (some (String.ofList name))
          rwa [castChars, String.toList_ofList] at covers
      | word _ _ word =>
          rw [← word]
          exact covers_plain (TokenKind.ofWord_ne_quoted _) _ _
      | list => exact covers_plain (by decide) _ _
  | word => exact covers_plain (TokenKind.ofWord_ne_quoted _) _ _
  | symbol symbol =>
      apply covers_plain
      rintro rfl
      cases TokenKind.isLiteral_of_mem_symbols (TokenKind.mem_symbols_of_mem_texts symbol)

end Token

/-- The tokens stand for pieces of the text, which begins at `position`: one piece after the other,
    none of them empty, each where its token says, and with nothing but blanks outside of them. -/
inductive Tiled : Int → List Char → List Token → Prop where
  | nil {position gap} : (∀ c ∈ gap, isBlank c = true) → Tiled position gap []
  | cons {position gap span rest t ts} : (∀ c ∈ gap, isBlank c = true) → span ≠ [] →
      t.Covers span → t.position = position + gap.length →
      Tiled (t.position + span.length) rest ts → Tiled position (gap ++ (span ++ rest)) (t :: ts)

namespace Cursor

/-- The next token is read off the piece behind the blanks, and the cursor goes behind that piece.
    -/
theorem exists_spans_of_next {c d : Cursor} {t : Token} (h : c.next = .ok (t, d))
    (hk : t.kind ≠ .finish) : ∃ span, t.Spans span ∧
      c.rest = c.rest.takeWhile isBlank ++ (span ++ d.rest) ∧
      t.position = c.position + (c.rest.takeWhile isBlank).length ∧
      d.position = t.position + span.length := by
  obtain ⟨width, read, rfl⟩ := next_eq_ok_iff.mp h
  obtain ⟨span, rest, whole, rfl, spans⟩ := Token.spans_of_read read hk
  refine ⟨span, spans, ?_, Token.position_of_read read, ?_⟩
  · have split := c.rest_eq_append_skipBlanks
    rw [whole] at split
    rw [advance, whole, List.drop_left]
    exact split
  · rw [Token.position_of_read read]
    rfl

/-- At the end of the text only blanks are left. -/
theorem blank_of_next_finish {c d : Cursor} {t : Token} (h : c.next = .ok (t, d))
    (hk : t.kind = .finish) :
    (∀ ch ∈ c.rest, isBlank ch = true) ∧ t.position = c.stop := by
  obtain ⟨width, read, rfl⟩ := next_eq_ok_iff.mp h
  have empty := Token.eq_nil_of_read_finish read hk
  have split := c.rest_eq_append_skipBlanks
  rw [empty, List.append_nil] at split
  refine ⟨?_, ?_⟩
  · rw [split]
    exact List.all_eq_true.mp List.all_takeWhile
  · rw [Token.position_of_read read]
    exact congrArg (fun cs : List Char => c.position + cs.length) split.symm

end Cursor

theorem Scan.tiled_ofCursor {c : Cursor} {ts : List Token} {stop : Int}
    (h : ofCursor c = ⟨ts, .finish stop⟩) : Tiled c.position c.rest ts ∧ stop = c.stop := by
  fun_induction ofCursor c generalizing ts with
  | case1 c failure hn => cases h
  | case2 c t d hn hk =>
      cases h
      obtain ⟨blank, last⟩ := Cursor.blank_of_next_finish hn hk
      exact ⟨.nil blank, last⟩
  | case3 c t d hn hk ih =>
      obtain ⟨rfl, ending⟩ := Scan.mk.inj h
      have others : ofCursor d = ⟨(ofCursor d).tokens, .finish stop⟩ := by
        rw [← ending]
      obtain ⟨tiled, last⟩ := ih others
      obtain ⟨span, spans, whole, here, next⟩ := Cursor.exists_spans_of_next hn hk
      -- The rest is tiled from where the cursor is, which is where the piece ends.
      rw [next] at tiled
      refine ⟨?_, last.trans (Cursor.inside_of_next hn).2⟩
      rw [whole]
      exact .cons (List.all_eq_true.mp List.all_takeWhile) spans.ne_nil spans.covers here tiled

/-- The failure as it is told of a text that begins `k` characters later. -/
def Failure.shift (k : Int) : Failure → Failure
  | query fault position => query fault (position.map (· + k))
  | cast fault position => cast fault (position.map (· + k))
  | failure => failure

namespace Token

def shift (k : Int) (t : Token) : Token := t.moved (t.position + k)

private theorem shift_plain (k : Int) (kind : TokenKind) (position : Int) (cs : List Char) :
    (plain kind position cs).shift k = plain kind (position + k) cs := rfl

/-- What is read, as it is told of a text that begins `k` characters later. -/
def shiftRead (k : Int) : Except Failure (Token × Nat) → Except Failure (Token × Nat)
  | .ok (t, width) => .ok (t.shift k, width)
  | .error failure => .error (failure.shift k)

private theorem readQuoted_shift (k position : Int) (cs : List Char) :
    readQuoted (position + k) cs = shiftRead k (readQuoted position cs) := by
  unfold readQuoted
  split
  · rfl
  · next content width _ =>
    simp only
    split
    · split
      · next more _ _ =>
          have later : position + k + 1 + width = position + 1 + width + k := by omega
          rw [later]
          rfl
      · rfl
    · rfl

private theorem readList_shift (k position : Int) (cs : List Char) :
    readList (position + k) cs = shiftRead k (readList position cs) := by
  unfold readList
  split <;> rfl

private theorem readSymbol_shift (k position : Int) (c : Char) (cs : List Char) :
    readSymbol (position + k) c cs = shiftRead k (readSymbol position c cs) := by
  rw [readSymbol.eq_def, readSymbol.eq_def]
  split <;> rfl

private theorem readWord_shift (k position : Int) (afterNumber : Bool) (cs : List Char) :
    .ok (readWord (position + k) afterNumber cs) =
      shiftRead k (.ok (readWord position afterNumber cs)) := by
  simp only [readWord, shiftRead, shift_plain]

theorem read_shift (k position : Int) (afterNumber : Bool) (cs : List Char) :
    read (position + k) afterNumber cs = shiftRead k (read position afterNumber cs) := by
  unfold read
  split
  · rfl
  · split
    · rfl
    · next c more _ =>
        split
        · exact readQuoted_shift k position more
        · split
          · exact readList_shift k position _
          · split
            · exact readWord_shift k position afterNumber _
            · exact readSymbol_shift k position c more

end Token

namespace Cursor

def shift (k : Int) (c : Cursor) : Cursor := ⟨c.position + k, c.rest, c.afterNumber⟩

theorem shift_advance (k : Int) (c : Cursor) (width : Nat) (afterNumber : Bool) :
    (c.shift k).advance width afterNumber = (c.advance width afterNumber).shift k := by
  simp only [shift, advance, Int.add_right_comm]

theorem shift_skipBlanks (k : Int) (c : Cursor) :
    (c.shift k).skipBlanks = c.skipBlanks.shift k :=
  c.shift_advance k _ _

private theorem next_shift_of_ok {c d : Cursor} {t : Token} (h : c.next = .ok (t, d)) (k : Int) :
    (c.shift k).next = .ok (t.shift k, d.shift k) := by
  obtain ⟨width, read, rfl⟩ := next_eq_ok_iff.mp h
  refine next_eq_ok_iff.mpr ⟨width, ?_, ?_⟩
  · rw [shift_skipBlanks, shift, Token.read_shift, read]
    rfl
  · rw [shift_skipBlanks, shift_advance]
    rfl

private theorem next_shift_of_error {c : Cursor} {failure : Failure} (h : c.next = .error failure)
    (k : Int) : (c.shift k).next = .error (failure.shift k) := by
  unfold next at h ⊢
  simp only [shift_skipBlanks] at h ⊢
  rw [shift, Token.read_shift]
  cases read : Token.read c.skipBlanks.position c.skipBlanks.afterNumber c.skipBlanks.rest with
  | ok found =>
      rw [read] at h
      cases h
  | error failed =>
      rw [read] at h
      cases h
      rfl

end Cursor

def Ending.shift (k : Int) : Ending → Ending
  | finish position => finish (position + k)
  | failed failure => failed (failure.shift k)

namespace Scan

def shift (k : Int) (s : Scan) : Scan := ⟨s.tokens.map (Token.shift k), s.ending.shift k⟩

private theorem ofCursor_shift (k : Int) (c : Cursor) :
    ofCursor (c.shift k) = (ofCursor c).shift k := by
  fun_induction ofCursor c with
  | case1 c failure hn => exact ofCursor_of_error (Cursor.next_shift_of_error hn k)
  | case2 c t d hn hk => exact ofCursor_of_finish (Cursor.next_shift_of_ok hn k) hk
  | case3 c t d hn hk ih =>
      rw [ofCursor_of_next (Cursor.next_shift_of_ok hn k) hk, ih]
      rfl

/-- The tokens of a text lie in it from left to right, in pieces that are disjoint and not empty,
    and only blanks stand outside of them; the end is told where the text ends. A text that begins
    elsewhere has the same tokens or the same failure, told as many characters later. -/
theorem ofText_tiled (k : Int) (text : String) :
    (∀ ts stop, ofText k text = ⟨ts, .finish stop⟩ →
      Tiled k text.toList ts ∧ stop = k + text.toList.length) ∧
    ofText k text = (ofText 0 text).shift k := by
  constructor
  · intro ts stop h
    exact tiled_ofCursor h
  · have start : Cursor.start k text = (Cursor.start 0 text).shift k := by
      rw [Cursor.shift, Cursor.start, Cursor.start, Int.zero_add]
    rw [ofText, start, ofCursor_shift]
    rfl

/-- A number with a word behind it, quoted text with a quote in it, and a cast, with no blank
    between any two of them. -/
theorem ofText_tiled_glued : ∃ ts : List Token,
    ts.map (fun t => (t.kind, t.content, t.position)) =
      [(.number, "1", 6), (.and, "and", 7), (.identifier, "b", 10), (.equal, "==", 11),
        (.quoted, "'", 13)] ∧
    ofText 5 " 1andb=='\\''::X " = ⟨ts, .finish 21⟩ ∧
    Tiled 5 " 1andb=='\\''::X ".toList ts := by
  have scanned : ofText 5 " 1andb=='\\''::X " =
      ⟨[Token.plain .number 6 ['1'], Token.plain .and 7 ['a', 'n', 'd'],
        Token.plain .identifier 10 ['b'], Token.plain .equal 11 ['=', '='],
        ⟨.quoted, some "'", 13, some "X"⟩], .finish 21⟩ := by
    decide +kernel
  exact ⟨_, rfl, scanned, ((ofText_tiled 5 " 1andb=='\\''::X ").1 _ _ scanned).1⟩

end Scan

end RecordFilter
