import RecordFilter.Token.Scan

/-! # Tokens of a scan

A scan goes from token to token, so what holds of every token that can be read holds of all tokens
of a text. Words are the tokens that matter here: their characters are those of words, and their
kind is the one that their text has.
-/

namespace RecordFilter

open Text

namespace Cursor

theorem next_eq_ok_iff {c d : Cursor} {t : Token} :
    c.next = .ok (t, d) ↔ ∃ width,
      Token.read c.skipBlanks.position c.skipBlanks.afterNumber c.skipBlanks.rest =
        .ok (t, width) ∧ d = c.skipBlanks.advance width (t.kind == .number) := by
  unfold next
  simp only [bind, Except.bind, pure, Except.pure]
  cases hr : Token.read c.skipBlanks.position c.skipBlanks.afterNumber c.skipBlanks.rest with
  | error failure => simp
  | ok found =>
      obtain ⟨u, width⟩ := found
      simp only [Except.ok.injEq, Prod.mk.injEq]
      constructor
      · rintro ⟨rfl, rfl⟩
        exact ⟨width, ⟨rfl, rfl⟩, rfl⟩
      · rintro ⟨w, ⟨rfl, rfl⟩, rfl⟩
        exact ⟨rfl, rfl⟩

end Cursor

namespace Scan

theorem ofCursor_of_next {c d : Cursor} {t : Token} (h : c.next = .ok (t, d))
    (hk : t.kind ≠ .finish) : ofCursor c = .cons t (ofCursor d) := by
  rw [ofCursor]
  split
  · next hn => rw [h] at hn; cases hn
  · next hn => rw [h] at hn; cases hn; exact dif_neg hk

theorem ofCursor_of_error {c : Cursor} {failure : Failure} (h : c.next = .error failure) :
    ofCursor c = ⟨[], .failed failure⟩ := by
  rw [ofCursor]
  split
  · next hn => rw [h] at hn; cases hn; rfl
  · next hn => rw [h] at hn; cases hn

theorem ofCursor_of_finish {c d : Cursor} {t : Token} (h : c.next = .ok (t, d))
    (hk : t.kind = .finish) : ofCursor c = ⟨[], .finish t.position⟩ := by
  rw [ofCursor]
  split
  · next hn => rw [h] at hn; cases hn
  · next hn => rw [h] at hn; cases hn; exact dif_pos hk

theorem next_of_ofCursor_cons {c : Cursor} {t : Token} {ts : List Token} {e : Ending}
    (h : ofCursor c = ⟨t :: ts, e⟩) : ∃ d, c.next = .ok (t, d) ∧ ofCursor d = ⟨ts, e⟩ := by
  rw [ofCursor] at h
  split at h
  · cases h
  · next u d hn =>
      split at h
      · cases h
      · simp only [cons, Scan.mk.injEq, List.cons.injEq] at h
        obtain ⟨⟨rfl, rfl⟩, rfl⟩ := h
        exact ⟨d, hn, rfl⟩

theorem next_of_ofCursor_finish {c : Cursor} {position : Int}
    (h : ofCursor c = ⟨[], .finish position⟩) :
    ∃ t d, c.next = .ok (t, d) ∧ t.kind = .finish := by
  rw [ofCursor] at h
  split at h
  · cases h
  · next t d hn =>
      split at h
      · next hk => exact ⟨t, d, hn, hk⟩
      · cases h

/-- A scan depends only on where the next token begins. -/
theorem ofCursor_congr {c d : Cursor} (h : c.skipBlanks = d.skipBlanks) :
    ofCursor c = ofCursor d := by
  have hn : c.next = d.next := by simp only [Cursor.next, h]
  cases he : d.next with
  | error failure =>
      rw [he] at hn
      rw [ofCursor, ofCursor]
      split <;> split <;> simp_all
  | ok found =>
      obtain ⟨t, rest⟩ := found
      rw [he] at hn
      by_cases hk : t.kind = .finish
      · rw [ofCursor_of_finish hn hk, ofCursor_of_finish he hk]
      · rw [ofCursor_of_next hn hk, ofCursor_of_next he hk]

theorem forall_tokens {P : Token → Prop}
    (h : ∀ {position afterNumber cs t width},
      Token.read position afterNumber cs = .ok (t, width) → t.kind ≠ .finish → P t) (c : Cursor) :
    ∀ t ∈ (ofCursor c).tokens, P t := by
  fun_induction ofCursor c with
  | case1 c failure hn => simp
  | case2 c t d hn hk => simp
  | case3 c t d hn hk ih =>
      intro u hu
      rcases List.mem_cons.mp hu with rfl | hu
      · obtain ⟨width, hr, _⟩ := Cursor.next_eq_ok_iff.mp hn
        exact h hr hk
      · exact ih u hu

end Scan

namespace TokenKind

private theorem isWord_of_mem_keywords {entry : String × TokenKind} (h : entry ∈ keywords) :
    entry.2.isWord = true := by
  revert entry
  decide

theorem isWord_ofWord (word : String) : (ofWord word).isWord = true := by
  unfold ofWord
  cases hl : keywords.lookup (Text.lower word) with
  | none => rfl
  | some kind =>
      obtain ⟨key, hm⟩ : ∃ key, (key, kind) ∈ keywords := by
        obtain ⟨before, after, hs, _⟩ := List.lookup_eq_some_iff.mp hl
        exact ⟨_, hs ▸ List.mem_append_right _ List.mem_cons_self⟩
      exact isWord_of_mem_keywords hm

theorem ofWord_ne_quoted (word : String) : ofWord word ≠ quoted := by
  intro hk
  have words := isWord_ofWord word
  rw [hk] at words
  cases words

/-- The kinds of the operators and the parentheses. -/
def symbols : List TokenKind :=
  [equal, notEqual, lessOrEqual, less, greaterOrEqual, greater, openParen, closeParen]

/-- The operators and the parentheses as they are written. -/
def symbolTexts : List (TokenKind × List Char) :=
  [(equal, ['=', '=']), (notEqual, ['!', '=']), (lessOrEqual, ['<', '=']), (less, ['<']),
   (greaterOrEqual, ['>', '=']), (greater, ['>']), (openParen, ['(']), (closeParen, [')'])]

variable {kind : TokenKind}

theorem mem_symbols_of_mem_texts {entry : TokenKind × List Char} (h : entry ∈ symbolTexts) :
    entry.1 ∈ symbols := by
  revert entry
  decide

theorem isWord_of_mem_symbols (h : kind ∈ symbols) : kind.isWord = false := by
  revert kind
  decide

theorem isLiteral_of_mem_symbols (h : kind ∈ symbols) : kind.isLiteral = false := by
  revert kind
  decide

theorem ne_finish_of_mem_symbols (h : kind ∈ symbols) : kind ≠ finish := by
  revert kind
  decide

end TokenKind

namespace Token

/-- What a token of a query has to be if it is a word. -/
def IsWordToken (t : Token) : Prop :=
  ∃ word : List Char, (∀ c ∈ word, isWordChar c = true) ∧
    t.kind = .ofWord (String.ofList word) ∧ t.text = some (String.ofList word) ∧ t.cast = none

theorem kind_readQuoted {position cs t width} (h : readQuoted position cs = .ok (t, width)) :
    t.kind = .quoted := by
  unfold readQuoted at h
  split at h
  · simp [fail] at h
  · simp only at h
    split at h
    · split at h
      · simp [fail] at h
      · cases h; rfl
    · cases h; rfl

theorem kind_readList {position cs t width} (h : readList position cs = .ok (t, width)) :
    t.kind = .list := by
  unfold readList at h
  split at h
  · simp [fail] at h
  · cases h; rfl

/-- What a character begins that begins nothing else: an operator, a parenthesis or a fault. -/
theorem readSymbol_cases (position : Int) (c : Char) (cs : List Char) :
    (∃ fault, readSymbol position c cs = fail fault position) ∨
      ∃ kind text rest, (kind, text) ∈ TokenKind.symbolTexts ∧ c :: cs = text ++ rest ∧
        readSymbol position c cs = .ok (plain kind position text, text.length) := by
  rw [readSymbol.eq_def]
  split
  · exact .inr ⟨.equal, ['=', '='], _, by decide, rfl, rfl⟩
  · exact .inl ⟨.loneEquals, rfl⟩
  · exact .inr ⟨.notEqual, ['!', '='], _, by decide, rfl, rfl⟩
  · exact .inl ⟨.loneExclamation, rfl⟩
  · exact .inr ⟨.lessOrEqual, ['<', '='], _, by decide, rfl, rfl⟩
  · exact .inr ⟨.less, ['<'], _, by decide, rfl, rfl⟩
  · exact .inr ⟨.greaterOrEqual, ['>', '='], _, by decide, rfl, rfl⟩
  · exact .inr ⟨.greater, ['>'], _, by decide, rfl, rfl⟩
  · exact .inr ⟨.openParen, ['('], _, by decide, rfl, rfl⟩
  · exact .inr ⟨.closeParen, [')'], _, by decide, rfl, rfl⟩
  · exact .inl ⟨.invalidCharacter _, rfl⟩

theorem mem_symbols_of_readSymbol {position c cs t width}
    (h : readSymbol position c cs = .ok (t, width)) : t.kind ∈ TokenKind.symbols := by
  rcases readSymbol_cases position c cs with ⟨fault, failed⟩ | ⟨kind, text, _, symbol, _, read⟩
  · rw [failed] at h
    cases h
  · rw [read] at h
    cases h
    exact TokenKind.mem_symbols_of_mem_texts symbol

theorem kind_plain (kind : TokenKind) (position : Int) (cs : List Char) :
    (plain kind position cs).kind = kind := rfl

private theorem isWordToken_plain {cs : List Char} (h : ∀ c ∈ cs, isWordChar c = true)
    (position : Int) :
    (plain (.ofWord (String.ofList cs)) position cs).IsWordToken :=
  ⟨cs, h, kind_plain _ _ _, rfl, rfl⟩

theorem isWordToken_readWord (position : Int) (afterNumber : Bool) (cs : List Char) :
    (readWord position afterNumber cs).1.IsWordToken := by
  rw [readWord]
  apply isWordToken_plain
  intro c hc
  exact List.all_eq_true.mp List.all_takeWhile c (List.mem_of_mem_take hc)

private theorem isWordToken_of_read {position afterNumber cs t width}
    (h : read position afterNumber cs = .ok (t, width)) (hk : t.kind.isWord = true) :
    t.IsWordToken := by
  unfold read at h
  split at h
  · cases h
    simp [plain, TokenKind.isWord] at hk
  · split at h
    · cases h
      simp [finish, TokenKind.isWord] at hk
    · split at h
      · rw [kind_readQuoted h] at hk
        simp [TokenKind.isWord] at hk
      · split at h
        · rw [kind_readList h] at hk
          simp [TokenKind.isWord] at hk
        · split at h
          · next c more _ _ _ _ =>
              have hw := isWordToken_readWord position afterNumber (c :: more)
              rw [Except.ok.injEq] at h
              rwa [h] at hw
          · rw [TokenKind.isWord_of_mem_symbols (mem_symbols_of_readSymbol h)] at hk
            cases hk

theorem IsWordToken.newline_not_mem {t : Token} (h : t.IsWordToken) :
    '\n' ∉ t.content.toList := by
  obtain ⟨word, chars, _, text, _⟩ := h
  rw [content, text, Option.getD_some, String.toList_ofList]
  intro hn
  exact absurd (chars _ hn) (by decide)

end Token

/-- Every word of a text is spelled with characters of words. -/
theorem Scan.isWordToken_of_mem {position : Int} {text : String} {t : Token}
    (h : t ∈ (Scan.ofText position text).tokens) (hk : t.kind.isWord = true) : t.IsWordToken :=
  forall_tokens (P := fun t => t.kind.isWord = true → t.IsWordToken)
    (fun hr _ hw => Token.isWordToken_of_read hr hw) _ t h hk

end RecordFilter
