import RecordFilter.Proofs.Token.Written

/-! # Tokens and their pieces of text

Every token is read off a piece of the text: quoted text with its quotes and its cast, any other
token as it stands. A piece is read as its token again wherever it stands, if nothing follows that
could continue it, and so is the token when it is written out anew.
-/

namespace RecordFilter.Token

open Text

/-- A token and the piece of text that it is read off. -/
inductive Spans : Token → List Char → Prop where
  | literal {t span} : t.WrittenAs span → Spans t span
  | word {position c cs} : startsWord c = true → (c = '.' → Stops isDigit cs) →
      (∀ d ∈ cs, isWordChar d = true) →
      Spans (plain (.ofWord (String.ofList (c :: cs))) position (c :: cs)) (c :: cs)
  | symbol {position kind text} : (kind, text) ∈ TokenKind.symbolTexts →
      Spans (plain kind position text) text

section

variable {position : Int} {afterNumber : Bool} {cs : List Char} {t : Token} {width : Nat}

theorem spans_of_read (h : read position afterNumber cs = .ok (t, width))
    (hk : t.kind ≠ .finish) :
    ∃ span rest, cs = span ++ rest ∧ width = span.length ∧ t.Spans span := by
  unfold read at h
  split at h
  · next number rest hn =>
      cases h
      obtain ⟨whole, isNumber⟩ := isNumber_of_takeNumber? hn
      exact ⟨number, rest, whole, rfl, .literal (.number isNumber)⟩
  · next none =>
      split at h
      · cases h
        exact absurd rfl hk
      · next c more =>
          split at h
          · next quote =>
              subst quote
              obtain ⟨span, rest, whole, length, written⟩ := writtenAs_of_readQuoted h
              exact ⟨span, rest, whole, length, .literal written⟩
          · split at h
            · next bracket =>
                subst bracket
                obtain ⟨span, rest, whole, length, written⟩ := writtenAs_of_readList h
                exact ⟨span, rest, whole, length, .literal written⟩
            · split at h
              · next first =>
                  obtain ⟨word, rest, rfl, length, chars, rfl⟩ :=
                    exists_word_of_readWord first (Except.ok.inj h)
                  refine ⟨c :: word, rest, rfl, length, .word first ?_ chars⟩
                  intro point
                  exact ((takeNumber?_eq_none_iff first _).mp none point).left
              · rcases readSymbol_cases position c more with
                  ⟨fault, failed⟩ | ⟨kind, text, rest, symbol, whole, found⟩
                · rw [failed] at h
                  cases h
                · rw [found] at h
                  cases h
                  exact ⟨text, rest, whole, rfl, .symbol symbol⟩

theorem position_of_read (h : read position afterNumber cs = .ok (t, width)) :
    t.position = position := by
  have fits := fits_read position afterNumber cs
  rw [h] at fits
  exact fits.of_ok.1

end

private theorem ne_nil_of_symbol {entry : TokenKind × List Char}
    (h : entry ∈ TokenKind.symbolTexts) :
    entry.2 ≠ [] := by
  revert entry
  decide

private theorem stops_isBlank_of_symbol {entry : TokenKind × List Char}
    (h : entry ∈ TokenKind.symbolTexts) : Stops isBlank entry.2 := by
  have each : ∀ entry ∈ TokenKind.symbolTexts, entry.2.head?.any isBlank = false := by decide
  have first := each entry h
  intro c hc
  rw [Option.mem_def.mp hc] at first
  exact first

private theorem read_symbol {kind : TokenKind} {text rest : List Char}
    (h : (kind, text) ∈ TokenKind.symbolTexts) (position : Int)
    (hr : Stops (plain kind position text).grows rest) :
    read position false (text ++ rest) = .ok (plain kind position text, text.length) := by
  simp only [TokenKind.symbolTexts, List.mem_cons, Prod.mk.injEq, List.not_mem_nil,
    or_false] at h
  rcases h with ⟨rfl, rfl⟩ | ⟨rfl, rfl⟩ | ⟨rfl, rfl⟩ | ⟨rfl, rfl⟩ | ⟨rfl, rfl⟩ | ⟨rfl, rfl⟩ |
    ⟨rfl, rfl⟩ | ⟨rfl, rfl⟩
  · rfl
  · rfl
  · rfl
  · have alone (more : List Char) : rest ≠ '=' :: more := by
      rintro rfl
      cases (hr '=' rfl : ('=' == '=') = false)
    change readSymbol position '<' rest = _
    rw [readSymbol.eq_def]
    split <;> simp_all
  · rfl
  · have alone (more : List Char) : rest ≠ '=' :: more := by
      rintro rfl
      cases (hr '=' rfl : ('=' == '=') = false)
    change readSymbol position '>' rest = _
    rw [readSymbol.eq_def]
    split <;> simp_all
  · rfl
  · rfl

namespace Spans

variable {t : Token} {span : List Char}

theorem ne_nil (h : t.Spans span) : span ≠ [] := by
  cases h with
  | literal written => exact written.ne_nil
  | word => exact List.cons_ne_nil _ _
  | symbol symbol => exact ne_nil_of_symbol symbol

theorem stops_isBlank (h : t.Spans span) : Stops isBlank span := by
  cases h with
  | literal written => exact written.ends.1
  | word first => exact stops_cons (isBlank_of_isWordChar (isWordChar_of_startsWord first)) _
  | symbol symbol => exact stops_isBlank_of_symbol symbol

theorem kind_ne_finish (h : t.Spans span) : t.kind ≠ .finish := by
  cases h with
  | literal written =>
      intro hk
      have literal := written.isLiteral
      rw [hk] at literal
      cases literal
  | @word _ c cs =>
      intro hk
      have word := TokenKind.isWord_ofWord (String.ofList (c :: cs))
      rw [kind_plain] at hk
      rw [hk] at word
      cases word
  | symbol symbol =>
      exact TokenKind.ne_finish_of_mem_symbols (TokenKind.mem_symbols_of_mem_texts symbol)

/-- A piece is read as its token, whatever follows that the token would not take in. -/
theorem read_append (h : t.Spans span) (position : Int) {rest : List Char}
    (hr : Stops t.grows rest) :
    read position false (span ++ rest) = .ok (t.moved position, span.length) := by
  cases h with
  | literal written => exact written.read_append position hr
  | word first point others =>
      have stop : Stops isWordChar rest := by
        refine hr.mono fun d hd => ?_
        rw [grows_of_isWord, hd]
        rw [kind_plain]
        exact TokenKind.isWord_ofWord _
      rw [moved_plain]
      exact read_word first point others stop position
  | symbol symbol => exact read_symbol symbol position hr

end Spans

end RecordFilter.Token
