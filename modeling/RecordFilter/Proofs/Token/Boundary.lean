import RecordFilter.Proofs.Token.Keyword

/-! # Where tokens end

Words and casts are read as far as they go, so what follows them is no part of them. What follows
other tokens may be taken in by them, but not if the grammar wants it there: no number goes on with
a connective, and no operator with a literal. All of this is the same in every letter case.
-/

namespace RecordFilter

open Text

namespace Token

theorem grows_toLower (t : Token) (c : Char) : t.grows c.toLower = t.grows c := by
  apply apply_toLower
  unfold grows
  split
  · decide
  · split
    · decide
    · decide
  · decide
  · decide
  · have words : ∀ n < 26, isWordChar (Char.ofNat (97 + n)) = isWordChar (Char.ofNat (65 + n)) := by
      decide
    exact fun n few => congrArg (_ && ·) (words n few)

theorem grows_congr {t u : Token} (kind : u.kind = t.kind) (cast : u.cast = t.cast) :
    u.grows = t.grows := by
  funext c
  rw [grows, grows, kind, cast]

/-- Texts that begin alike, up to the letter case, are kept out alike. -/
theorem stops_grows_of_head {t : Token} {cs ds : List Char} (h : Stops t.grows cs)
    (same : cs.head?.map Char.toLower = ds.head?.map Char.toLower) : Stops t.grows ds := by
  intro d hd
  rw [Option.mem_def.mp hd, Option.map_some, Option.map_eq_some_iff] at same
  obtain ⟨c, hc, small⟩ := same
  rw [← t.grows_toLower, ← small, t.grows_toLower]
  exact h c hc

section

variable {position : Int} {afterNumber : Bool} {cs : List Char} {t : Token} {width : Nat}

private theorem stops_of_readQuoted (h : readQuoted position cs = .ok (t, width))
    (hc : t.cast ≠ none) :
    Stops isLetter ((quoteMark :: cs).drop width) := by
  unfold readQuoted at h
  split at h
  · cases h
  · next content closed _ =>
      simp only at h
      split at h
      · next more colons =>
          split at h
          · cases h
          · cases h
            have behind : (quoteMark :: cs).drop (1 + closed + 2 + (more.takeWhile isLetter).length) =
                more.dropWhile isLetter := by
              rw [Nat.add_assoc, Nat.add_assoc, ← List.drop_drop, List.drop_succ_cons, List.drop_zero,
                ← List.drop_drop, colons, ← List.drop_drop]
              exact drop_length_takeWhile isLetter more
            rw [behind]
            exact stops_dropWhile isLetter more
      · cases h
        exact absurd rfl hc

private theorem stops_of_readWord (h : readWord position false cs = (t, width)) :
    Stops isWordChar (cs.drop width) := by
  have whole : (cs.takeWhile isWordChar).length = width := congrArg Prod.snd h
  rw [← whole, drop_length_takeWhile]
  exact stops_dropWhile isWordChar cs

private theorem not_far_plain {kind : TokenKind} (h : kind.isWord = false) (position : Int)
    (cs : List Char) :
    ¬((plain kind position cs).kind.isWord = true ∨ (plain kind position cs).cast ≠ none) := by
  rintro (word | cast)
  · rw [kind_plain, h] at word
    cases word
  · exact cast rfl

/-- Words and casts are read as far as they go. -/
theorem stops_of_read (h : read position false cs = .ok (t, width))
    (far : t.kind.isWord = true ∨ t.cast ≠ none) : Stops t.grows (cs.drop width) := by
  unfold read at h
  split at h
  · cases h
    exact absurd far (not_far_plain rfl _ _)
  · split at h
    · cases h
      rcases far with word | cast
      · cases word
      · exact absurd rfl cast
    · next c more _ =>
        split at h
        · next quote =>
            subst quote
            have kind := kind_readQuoted h
            rw [kind] at far
            have cast := far.resolve_left nofun
            refine (stops_of_readQuoted h cast).mono fun d hd => ?_
            simp only [grows, kind] at hd
            rwa [if_pos (Option.isSome_iff_ne_none.mpr cast)] at hd
        · split at h
          · unfold readList at h
            split at h
            · cases h
            · cases h
              exact absurd far (not_far_plain rfl _ _)
          · split at h
            · have found := Except.ok.inj h
              obtain ⟨text, _, kind, _⟩ := isWordToken_readWord position false (c :: more)
              rw [found] at kind
              have word : t.kind.isWord = true := by
                rw [kind]
                exact TokenKind.isWord_ofWord _
              refine (stops_of_readWord found).mono fun d hd => ?_
              rwa [grows_of_isWord word] at hd
            · rcases readSymbol_cases position c more with
                ⟨fault, failed⟩ | ⟨kind, text, rest, symbol, _, read⟩
              · rw [failed] at h
                cases h
              · rw [read] at h
                cases h
                have symbols := TokenKind.mem_symbols_of_mem_texts symbol
                exact absurd far (not_far_plain (TokenKind.isWord_of_mem_symbols symbols) _ _)

end

section

variable {t u : Token} {cs : List Char}

/-- A token that is not quoted is its text. -/
theorem Spans.eq_plain (h : t.Spans cs) (hk : t.kind ≠ .quoted) :
    t = plain t.kind t.position cs := by
  have own (kind : TokenKind) (position : Int) (cs : List Char) :
      plain kind position cs = plain (plain kind position cs).kind position cs := rfl
  cases h with
  | literal written =>
      cases written with
      | quoted => exact absurd rfl hk
      | cast => exact absurd rfl hk
      | _ => exact own _ _ _
  | word => exact own _ _ _
  | symbol => exact own _ _ _

theorem Spans.ofWord_eq (h : t.Spans cs) (word : t.kind.isWord = true) :
    TokenKind.ofWord (String.ofList cs) = t.kind := by
  cases h with
  | literal written =>
      cases written with
      | word _ _ kind _ => exact kind
      | _ => cases word
  | word => exact (kind_plain _ _ _).symm
  | symbol symbol =>
      rw [kind_plain, TokenKind.isWord_of_mem_symbols (TokenKind.mem_symbols_of_mem_texts symbol)]
        at word
      cases word

theorem Spans.mem_symbolTexts (h : t.Spans cs) (word : t.kind.isWord = false)
    (literal : t.kind.isLiteral = false) : (t.kind, cs) ∈ TokenKind.symbolTexts := by
  cases h with
  | literal written =>
      rw [written.isLiteral] at literal
      cases literal
  | word =>
      rw [kind_plain, TokenKind.isWord_ofWord] at word
      cases word
  | symbol symbol => exact symbol

/-- A keyword, an operator or a parenthesis is one of the same kind in another letter case. -/
theorem Spans.exists_of_sameLetters {cs' : List Char} (h : t.Spans cs)
    (literal : t.kind.isLiteral = false)
    (keyword : t.kind ≠ .identifier) (letters : SameLetters cs cs') :
    ∃ u : Token, u.Spans cs' ∧ u.kind = t.kind ∧ u.cast = t.cast := by
  cases word : t.kind.isWord with
  | true =>
      have kind := h.ofWord_eq word
      have kind' := (TokenKind.ofWord_congr letters).symm.trans kind
      have unquoted : t.kind ≠ .quoted := by
        intro hk
        rw [hk] at literal
        cases literal
      refine ⟨.plain (.ofWord (String.ofList cs')) 0 cs', ?_, (kind_plain _ _ _).trans kind', ?_⟩
      · exact spans_keyword (kind' ▸ keyword)
      · rw [h.eq_plain unquoted]
        rfl
  | false =>
      have marks : ∀ entry ∈ TokenKind.symbolTexts, entry.2.all (fun c => !isLetter c) = true := by
        decide
      have mark := marks _ (h.mem_symbolTexts word literal)
      have same := letters.symm.eq_of_not_isLetter fun c hc => by
        rw [← Bool.not_eq_true']
        exact List.all_eq_true.mp mark c hc
      subst same
      exact ⟨t, h, rfl, rfl⟩

theorem Spans.writtenAs (h : t.Spans cs) (literal : t.kind.isLiteral = true) : t.WrittenAs cs := by
  cases h with
  | literal written => exact written
  | word first _ others =>
      rw [kind_plain] at literal
      exact .word first others rfl literal
  | symbol symbol =>
      rw [kind_plain, TokenKind.isLiteral_of_mem_symbols (TokenKind.mem_symbols_of_mem_texts symbol)]
        at literal
      cases literal

theorem isWord_of_connective {kind : TokenKind} (h : kind.connective? ≠ none) :
    kind.isWord = true := by
  revert h
  cases kind <;> simp [TokenKind.connective?, TokenKind.isWord]

theorem Spans.eq_parenthesis (h : t.Spans cs) :
    (t.kind = .openParen → cs = ['(']) ∧ (t.kind = .closeParen → cs = [')']) := by
  have each : ∀ entry ∈ TokenKind.symbolTexts, (entry.1 = .openParen → entry.2 = ['(']) ∧
      (entry.1 = .closeParen → entry.2 = [')']) := by decide
  constructor
  · intro kind
    exact (each _ (h.mem_symbolTexts (by rw [kind]; rfl) (by rw [kind]; rfl))).1 kind
  · intro kind
    exact (each _ (h.mem_symbolTexts (by rw [kind]; rfl) (by rw [kind]; rfl))).2 kind

theorem Spans.exists_body (h : t.Spans cs) (hk : t.kind = .list) : ∃ body, cs = '[' :: body := by
  have unquoted : t.kind ≠ .quoted := by
    rw [hk]
    nofun
  have text := h.covers.other unquoted
  obtain ⟨body, plain⟩ := (h.writtenAs (by rw [hk]; rfl)).exists_body hk
  rw [plain] at text
  exact ⟨body ++ [']'], (String.ofList_injective (Option.some.inj text)).symm⟩

/-- What can follow a literal begins with one of two letters or with a parenthesis. -/
theorem Spans.exists_head (h : u.Spans cs)
    (next : u.kind.connective? ≠ none ∨ u.kind = .closeParen) :
    ∃ c, cs.head? = some c ∧ c.toLower ∈ ['a', 'o', ')'] := by
  rcases next with connective | closing
  · rw [← h.ofWord_eq (isWord_of_connective connective)] at connective
    cases cs with
    | nil => exact absurd rfl h.ne_nil
    | cons c cs =>
        refine ⟨c, rfl, ?_⟩
        rcases sameLetters_of_connective connective with same | same
        · rw [(List.cons.inj same).1]
          decide
        · rw [(List.cons.inj same).1]
          decide
  · rw [h.eq_parenthesis.2 closing]
    exact ⟨')', rfl, by decide⟩

/-- A number, quoted text or a list takes in no connective and no closing parenthesis. -/
theorem Spans.stops_of_connective (h : u.Spans cs)
    (next : u.kind.connective? ≠ none ∨ u.kind = .closeParen) (literal : t.kind.isLiteral = true)
    (near : ¬(t.kind.isWord = true ∨ t.cast ≠ none)) : Stops t.grows cs := by
  obtain ⟨c, head, small⟩ := h.exists_head next
  obtain ⟨word, cast⟩ := not_or.mp near
  have kept : ['a', 'o', ')'].all (fun d => !t.grows d) = true := by
    have kinds : t.kind = .number ∨ t.kind = .quoted ∨ t.kind = .list := by
      revert literal word
      cases t.kind <;> simp [TokenKind.isLiteral, TokenKind.isWord]
    rcases kinds with kind | kind | kind
    · simp only [grows, kind]
      decide
    · simp only [grows, kind, not_not.mp cast]
      decide
    · simp only [grows, kind]
      decide
  intro d hd
  rw [head] at hd
  cases hd
  rw [← t.grows_toLower, ← Bool.not_eq_true']
  exact List.all_eq_true.mp kept _ small

theorem WrittenAs.stops_equals (h : t.WrittenAs cs) : Stops (· == '=') cs := by
  cases h with
  | number number =>
      refine stops_of_forall fun c hc => ?_
      rw [beq_eq_false_iff_ne]
      rintro rfl
      rcases number.mem hc with digit | mark
      · cases digit
      · revert mark
        decide
  | word first =>
      refine stops_cons ?_ _
      rw [beq_eq_false_iff_ne]
      rintro rfl
      cases first
  | _ => exact stops_cons rfl _

/-- What ends with a bracket takes nothing in. -/
theorem stops_grows_bracket (h : t.kind = .list ∨ t.kind = .openParen ∨ t.kind = .closeParen)
    (cs : List Char) : Stops t.grows cs := by
  intro c _
  unfold grows
  rcases h with kind | kind | kind
  · rw [kind]
    rfl
  · rw [kind]
    rfl
  · rw [kind]
    rfl

/-- A mark takes in nothing but an equals sign. -/
theorem eq_equals_of_grows (word : t.kind.isWord = false) (literal : t.kind.isLiteral = false)
    {c : Char} (h : t.grows c = true) : (c == '=') = true := by
  unfold grows at h
  split at h
  · next kind =>
      rw [kind] at literal
      cases literal
  · next kind =>
      rw [kind] at literal
      cases literal
  · exact h
  · exact h
  · rw [word] at h
    cases h

end

section

variable {t : Token} {span span' rest rest' : List Char}

private theorem Covers.ends (h : t.Covers span) (hs : t.Spans span') :
    span ≠ [] ∧ Stops isBlank span := by
  by_cases quoted : t.kind = .quoted
  · obtain ⟨inner, content, _, _, rfl⟩ := h.quoted quoted
    exact ⟨List.cons_ne_nil _ _, stops_cons rfl _⟩
  · have text := h.other quoted
    rw [hs.covers.other quoted, Option.some.injEq] at text
    rw [← String.ofList_injective text]
    exact ⟨hs.ne_nil, hs.stops_isBlank⟩

/-- A text begins with one piece for a token. -/
theorem Covers.eq_of_append (h : t.Covers span) (h' : t.Covers span')
    (whole : span ++ rest = span' ++ rest') : span = span' := by
  by_cases quoted : t.kind = .quoted
  · obtain ⟨inner, content, closed, _, rfl⟩ := h.quoted quoted
    obtain ⟨inner', content', closed', _, rfl⟩ := h'.quoted quoted
    have found {cs text : List Char}
        (closed : unquote? (cs ++ [quoteMark]) = some (text, cs.length + 1))
        (more : List Char) : unquote? (cs ++ quoteMark :: more) = some (text, cs.length + 1) := by
      have width : cs.length + 1 = (cs ++ [quoteMark]).length := by simp
      have stable := unquote?_take_append closed more
      rwa [width, List.take_length, List.append_assoc, List.singleton_append, ← width] at stable
    have first := found closed (castChars t.cast ++ rest)
    have second := found closed' (castChars t.cast ++ rest')
    simp only [List.cons_append, List.append_assoc, List.cons.injEq, true_and] at whole
    rw [whole, second, Option.some.injEq, Prod.mk.injEq, Nat.add_right_cancel_iff] at first
    rw [List.append_inj_left whole first.2.symm]
  · have text := h.other quoted
    rw [h'.other quoted, Option.some.injEq] at text
    exact String.ofList_injective text.symm

end

end Token

namespace Cursor

theorem skipBlanks_append {gap cs : List Char} (blank : ∀ c ∈ gap, isBlank c = true)
    (first : Stops isBlank cs) (position : Int) (afterNumber : Bool) :
    (Cursor.mk position (gap ++ cs) afterNumber).skipBlanks =
      ⟨position + gap.length, cs, afterNumber && gap.length == 0⟩ := by
  simp only [skipBlanks, advance, takeWhile_append_of_stops blank first, List.drop_left]

end Cursor

namespace Scan

variable {gap span rest : List Char} {t : Token} {ts : List Token} {ending : Ending}
variable {position : Int} {afterNumber : Bool}

/-- The first token of a text is read off its piece behind the blanks. -/
theorem read_of_covers (blank : ∀ c ∈ gap, isBlank c = true) (covers : t.Covers span)
    (h : ofCursor ⟨position, gap ++ (span ++ rest), afterNumber⟩ = ⟨t :: ts, ending⟩) :
    t.Spans span ∧
      Token.read (position + gap.length) (afterNumber && gap.length == 0) (span ++ rest) =
        .ok (t, span.length) ∧
      ofCursor ⟨position + gap.length + span.length, rest, t.kind == .number⟩ = ⟨ts, ending⟩ := by
  obtain ⟨d, next, others⟩ := next_of_ofCursor_cons h
  have inner : t.kind ≠ .finish := by
    intro hk
    rw [ofCursor_of_finish next hk] at h
    cases h
  obtain ⟨width, read, rfl⟩ := Cursor.next_eq_ok_iff.mp next
  -- The blanks that are skipped are those of the gap, since the piece begins with none.
  obtain ⟨_, _, _, _, found⟩ := Token.spans_of_read read inner
  obtain ⟨hne, first⟩ := covers.ends found
  rw [Cursor.skipBlanks_append blank (first.append_of_ne_nil hne rest)] at read others
  obtain ⟨piece, after, whole, rfl, spans⟩ := Token.spans_of_read read inner
  have same := covers.eq_of_append spans.covers whole
  subst same
  rw [Cursor.advance, List.drop_left] at others
  exact ⟨spans, read, others⟩

/-- Nothing is left behind the last token. -/
theorem ofCursor_of_blank (blank : ∀ c ∈ gap, isBlank c = true) :
    ofCursor ⟨position, gap, afterNumber⟩ = ⟨[], .finish (position + gap.length)⟩ := by
  by_cases hne : gap = []
  · rw [hne, ofCursor_nil]
    simp
  · have behind := ofCursor_blanks hne blank position [] afterNumber
    rwa [List.append_nil, ofCursor_nil] at behind

/-- A token is scanned behind blanks. -/
theorem ofCursor_of_gap {cs : List Char} {width : Nat} (blank : ∀ c ∈ gap, isBlank c = true)
    (first : Stops isBlank cs)
    (h : Token.read (position + gap.length) (afterNumber && gap.length == 0) cs = .ok (t, width))
    (hk : t.kind ≠ .finish) :
    ofCursor ⟨position, gap ++ cs, afterNumber⟩ =
      .cons t (ofCursor ⟨position + gap.length + width, cs.drop width, t.kind == .number⟩) := by
  apply ofCursor_of_next _ hk
  apply Cursor.next_eq_ok_iff.mpr
  rw [Cursor.skipBlanks_append blank first]
  exact ⟨width, h, rfl⟩

end Scan
end RecordFilter
