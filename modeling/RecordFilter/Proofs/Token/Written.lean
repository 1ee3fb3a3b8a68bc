import RecordFilter.Proofs.Text.Balanced
import RecordFilter.Proofs.Token.Extent
import RecordFilter.Proofs.Token.Spelling

/-! # The text of a literal token

The scanner cuts a literal token out of a longer text. What was cut out is by itself read as the
same token, it has no blank at its ends and it is enclosed. These are the three things that an item
of a list needs: to be found between its commas, to survive the trimming, and to be scanned once
more.
-/

namespace RecordFilter

open Text

namespace Token

theorem isPlain_of_isWordChar {c : Char} (h : isWordChar c = true) : IsPlain c := by
  refine ⟨?_, ?_, ?_, ?_⟩
  all_goals
    rintro rfl
    exact absurd h (by decide)

theorem isWordChar_of_isLetter {c : Char} (h : isLetter c = true) : isWordChar c = true := by
  simp only [isWordChar, h, Bool.true_or]

private theorem isWordChar_of_continues {c : Char} (h : NumberText.continues c = true) :
    isWordChar c = true := by
  simp only [NumberText.continues, Bool.or_eq_true, beq_iff_eq] at h
  rcases h with ((digit | rfl) | rfl) | rfl
  · simp only [isWordChar, digit, Bool.or_true, Bool.true_or]
  · rfl
  · rfl
  · rfl

/-- The token would take in the character if it stood right behind it. -/
def grows (t : Token) (c : Char) : Bool :=
  match t.kind with
  | .number => NumberText.continues c
  | .quoted => if t.cast.isSome then isLetter c else c == ':'
  | .less | .greater => c == '='
  | kind => kind.isWord && isWordChar c

theorem grows_of_isWord {t : Token} (h : t.kind.isWord = true) (c : Char) :
    t.grows c = isWordChar c := by
  unfold grows
  split <;> simp_all [TokenKind.isWord]

private theorem continuesToken_of_grows {t : Token} {c : Char} (h : t.grows c = true) :
    continuesToken c = true := by
  have word (hc : isWordChar c = true) : continuesToken c = true := by
    rw [continuesToken, hc]
    rfl
  unfold grows at h
  split at h
  · exact word (isWordChar_of_continues h)
  · split at h
    · exact word (isWordChar_of_isLetter h)
    · simp only [continuesToken, h, Bool.or_true, Bool.true_or]
  · simp only [continuesToken, h, Bool.or_true]
  · simp only [continuesToken, h, Bool.or_true]
  · exact word (Bool.and_eq_true_iff.mp h).2

theorem stops_grows {rest : List Char} (h : Stops continuesToken rest) (t : Token) :
    Stops t.grows rest :=
  h.mono fun _ => continuesToken_of_grows

/-- The token at another position. -/
def moved (t : Token) (position : Int) : Token := { t with position := position }

theorem moved_plain (kind : TokenKind) (position : Int) (cs : List Char) (q : Int) :
    (plain kind position cs).moved q = plain kind q cs := rfl

/-- A literal token and the text that it is made of. -/
inductive WrittenAs : Token → List Char → Prop where
  | number {position cs} : IsNumber cs → WrittenAs (plain .number position cs) cs
  | quoted {position cs content} : unquote? cs = some (content, cs.length) →
      WrittenAs ⟨.quoted, some (String.ofList content), position, none⟩ (quoteMark :: cs)
  | cast {position cs content name} : unquote? cs = some (content, cs.length) → name ≠ [] →
      (∀ c ∈ name, isLetter c = true) →
      WrittenAs ⟨.quoted, some (String.ofList content), position, some (String.ofList name)⟩
        (quoteMark :: cs ++ ':' :: ':' :: name)
  | word {position c cs kind} : startsWord c = true → (∀ d ∈ cs, isWordChar d = true) →
      TokenKind.ofWord (String.ofList (c :: cs)) = kind → kind.isLiteral = true →
      WrittenAs (plain kind position (c :: cs)) (c :: cs)
  | list {position body} : Runs Nesting.Closes (.outside 1) body (.outside 1) →
      WrittenAs (plain .list position ('[' :: (body ++ [']']))) ('[' :: (body ++ [']']))

section

variable {position : Int} {t : Token} {width : Nat} {cs : List Char}

theorem writtenAs_of_readQuoted (h : readQuoted position cs = .ok (t, width)) :
    ∃ text rest, quoteMark :: cs = text ++ rest ∧ width = text.length ∧ t.WrittenAs text := by
  unfold readQuoted at h
  split at h
  · cases h
  · next content w hu =>
      obtain ⟨body, rest, rfl, rfl, alone⟩ := exists_of_unquote? hu
      rw [List.drop_left] at h
      simp only at h
      split at h
      · next more =>
          split at h
          · cases h
          · next hne =>
              cases h
              refine ⟨_, more.dropWhile isLetter, ?_, ?_, .cast alone hne ?_⟩
              · simp only [List.cons_append, List.append_assoc, List.takeWhile_append_dropWhile]
              · simp only [List.cons_append, List.length_cons, List.length_append]
                omega
              · exact List.all_eq_true.mp List.all_takeWhile
      · cases h
        exact ⟨_, rest, rfl, Nat.add_comm _ _, .quoted alone⟩

theorem writtenAs_of_readList (h : readList position ('[' :: cs) = .ok (t, width)) :
    ∃ text rest, '[' :: cs = text ++ rest ∧ width = text.length ∧ t.WrittenAs text := by
  unfold readList at h
  split at h
  · cases h
  · next taken rest hb =>
      cases h
      obtain ⟨body, rfl, runs⟩ := exists_body_of_takeBalanced? hb
      exact ⟨_, rest, takeBalanced?_eq_append hb, rfl, .list runs⟩

theorem exists_word_of_readWord {afterNumber : Bool} {c : Char} (first : startsWord c = true)
    (h : readWord position afterNumber (c :: cs) = (t, width)) :
    ∃ word rest, cs = word ++ rest ∧ width = (c :: word).length ∧
      (∀ d ∈ word, isWordChar d = true) ∧
      t = plain (.ofWord (String.ofList (c :: word))) position (c :: word) := by
  have word : (c :: cs).takeWhile isWordChar = c :: cs.takeWhile isWordChar :=
    List.takeWhile_cons_of_pos (isWordChar_of_startsWord first)
  have positive := width_readWord_pos position afterNumber cs first
  simp only [readWord, word] at h positive
  have bound := wordLength_le afterNumber (c :: cs.takeWhile isWordChar)
  obtain ⟨n, hn⟩ := Nat.exists_eq_add_one.mpr positive
  rw [hn] at h bound
  rw [← (Prod.mk.inj h).1, ← (Prod.mk.inj h).2]
  refine ⟨(cs.takeWhile isWordChar).take n,
    (cs.takeWhile isWordChar).drop n ++ cs.dropWhile isWordChar, ?_, ?_, ?_, rfl⟩
  · rw [← List.append_assoc, List.take_append_drop, List.takeWhile_append_dropWhile]
  · exact (List.length_take_of_le bound).symm
  · intro d hd
    exact List.all_eq_true.mp List.all_takeWhile d (List.mem_of_mem_take hd)

private theorem writtenAs_of_readWord {afterNumber : Bool} {c : Char} (first : startsWord c = true)
    (h : readWord position afterNumber (c :: cs) = (t, width))
    (literal : t.kind.isLiteral = true) :
    ∃ text rest, c :: cs = text ++ rest ∧ width = text.length ∧ t.WrittenAs text := by
  obtain ⟨word, rest, rfl, whole, chars, rfl⟩ := exists_word_of_readWord first h
  rw [kind_plain] at literal
  exact ⟨c :: word, rest, rfl, whole, .word first chars rfl literal⟩

/-- A literal token is written as the text that was read. -/
theorem writtenAs_of_read {afterNumber : Bool} (h : read position afterNumber cs = .ok (t, width))
    (literal : t.kind.isLiteral = true) :
    ∃ text rest, cs = text ++ rest ∧ width = text.length ∧ t.WrittenAs text := by
  unfold read at h
  split at h
  · next number rest hn =>
      cases h
      obtain ⟨whole, isNumber⟩ := isNumber_of_takeNumber? hn
      exact ⟨number, rest, whole, rfl, .number isNumber⟩
  · split at h
    · cases h
      cases literal
    · next c more _ _ =>
        split at h
        · next hq =>
            rw [hq]
            exact writtenAs_of_readQuoted h
        · split at h
          · next hl =>
              subst hl
              exact writtenAs_of_readList h
          · split at h
            · next first => exact writtenAs_of_readWord first (Except.ok.inj h) literal
            · rw [TokenKind.isLiteral_of_mem_symbols (mem_symbols_of_readSymbol h)] at literal
              cases literal

end

/-- A list is read up to the bracket that closes it, whatever comes before or after. -/
theorem read_brackets {body : List Char} (h : Runs Nesting.Closes (.outside 1) body (.outside 1))
    (position : Int) (afterNumber : Bool) (rest : List Char) :
    read position afterNumber ('[' :: (body ++ ']' :: rest)) =
      .ok (plain .list position ('[' :: (body ++ [']'])), ('[' :: (body ++ [']'])).length) := by
  have number : takeNumber? ('[' :: (body ++ ']' :: rest)) = none :=
    takeNumber?_eq_none rfl (by decide) (by decide) _
  simp only [read, number, if_neg (show '[' ≠ quoteMark by decide), if_true, readList,
    takeBalanced?_brackets h]

namespace WrittenAs

variable {t : Token} {cs : List Char}

theorem isLiteral (h : t.WrittenAs cs) : t.kind.isLiteral = true := by
  cases h with
  | word _ _ _ literal => exact literal
  | _ => rfl

theorem ne_nil (h : t.WrittenAs cs) : cs ≠ [] := by
  cases h with
  | number number => exact number.ne_nil
  | _ => exact List.cons_ne_nil _ _

/-- A keyword does not begin with a point. -/
theorem ofWord_point (cs : List Char) :
    TokenKind.ofWord (String.ofList ('.' :: cs)) = .identifier := by
  have letters : ∀ entry ∈ TokenKind.keywords, entry.1.toList.head? ≠ some '.' := by decide
  have absent : TokenKind.keywords.lookup (lower (String.ofList ('.' :: cs))) = none := by
    rw [List.lookup_eq_none_iff]
    intro entry he
    rw [bne_iff_ne]
    intro same
    apply letters entry he
    rw [← same, lower, String.toList_ofList, String.toList_ofList]
    rfl
  rw [TokenKind.ofWord, absent]
  rfl

/-- A literal is read as it is written, whatever follows that it would not take in. -/
theorem read_append (h : t.WrittenAs cs) (position : Int) {rest : List Char}
    (hr : Stops t.grows rest) :
    read position false (cs ++ rest) = .ok (t.moved position, cs.length) := by
  cases h with
  | number number =>
      simp only [read, number.take_append hr]
      rfl
  | @quoted _ body content alone =>
      have number : takeNumber? (quoteMark :: (body ++ rest)) = none :=
        takeNumber?_eq_none rfl (by decide) (by decide) _
      have colon : ∀ more, rest ≠ ':' :: ':' :: more := by
        rintro more rfl
        have refused : (':' == ':') = false := hr ':' rfl
        cases refused
      have content : unquote? (body ++ rest) = some (content, body.length) := by
        have stable := unquote?_take_append alone rest
        rwa [List.take_length] at stable
      simp only [read, List.cons_append, number, if_true, readQuoted, content, List.drop_left,
        List.length_cons, Nat.add_comm 1]
      rfl
  | @cast _ body content name alone hne letters =>
      have number : takeNumber? (quoteMark :: (body ++ ':' :: ':' :: (name ++ rest))) = none :=
        takeNumber?_eq_none rfl (by decide) (by decide) _
      have content : unquote? (body ++ ':' :: ':' :: (name ++ rest)) =
          some (content, body.length) := by
        have stable := unquote?_take_append alone (':' :: ':' :: (name ++ rest))
        rwa [List.take_length] at stable
      have taken : (name ++ rest).takeWhile isLetter = name :=
        takeWhile_append_of_stops letters hr
      have width : 1 + body.length + 2 + name.length =
          (quoteMark :: (body ++ ':' :: ':' :: name)).length := by
        simp only [List.length_cons, List.length_append]
        omega
      simp only [read, List.cons_append, List.append_assoc, number, if_true, readQuoted, content,
        List.drop_left, taken, if_neg hne, width]
      rfl
  | @word _ c cs kind first others word literal =>
      have point : c = '.' → Stops isDigit cs := by
        rintro rfl
        rw [← word, ofWord_point] at literal
        cases literal
      have stop : Stops isWordChar rest := by
        refine hr.mono fun d hd => ?_
        rw [grows_of_isWord, hd]
        rw [kind_plain, ← word]
        exact TokenKind.isWord_ofWord _
      rw [read_word first point others stop position, word]
      rfl
  | @list _ body runs =>
      rw [List.cons_append, List.append_assoc, List.singleton_append]
      exact read_brackets runs position false rest

theorem moved (h : t.WrittenAs cs) (position : Int) : (t.moved position).WrittenAs cs := by
  cases h with
  | number number => exact .number number
  | quoted alone => exact .quoted alone
  | cast alone hne letters => exact .cast alone hne letters
  | word first others word literal => exact .word first others word literal
  | list runs => exact .list runs

theorem exists_body (h : t.WrittenAs cs) (hk : t.kind = .list) :
    ∃ body, t = plain .list t.position ('[' :: (body ++ [']'])) := by
  cases h with
  | number => cases hk
  | quoted => cases hk
  | cast => cases hk
  | @word _ c cs kind _ _ word _ =>
      have words := TokenKind.isWord_ofWord (String.ofList (c :: cs))
      rw [kind_plain] at hk
      rw [word, hk] at words
      cases words
  | @list _ body _ => exact ⟨body, rfl⟩

/-- Two tokens that are written alike differ only in where they stand. -/
theorem moved_eq {u : Token} (ht : t.WrittenAs cs) (hu : u.WrittenAs cs) :
    t.moved 0 = u.moved 0 := by
  have first := ht.read_append 0 (stops_nil _)
  rw [hu.read_append 0 (stops_nil _)] at first
  simp only [Except.ok.injEq, Prod.mk.injEq, and_true] at first
  exact first.symm

theorem plain_visible_of_isNumber (h : IsNumber cs) {c : Char} (hc : c ∈ cs) :
    IsPlain c ∧ isBlank c = false := by
  rcases h.mem hc with digit | mark
  · have word : isWordChar c = true := by
      simp only [isWordChar, digit, Bool.or_true, Bool.true_or]
    exact ⟨isPlain_of_isWordChar word, isBlank_of_isWordChar word⟩
  · revert mark
    simp only [List.mem_cons, List.not_mem_nil, or_false]
    rintro (rfl | rfl | rfl | rfl | rfl) <;> decide

/-- There is no blank at either end. -/
theorem ends (h : t.WrittenAs cs) : Stops isBlank cs ∧ Stops isBlank cs.reverse := by
  have visible {cs : List Char} (each : ∀ c ∈ cs, isBlank c = false) :
      Stops isBlank cs ∧ Stops isBlank cs.reverse :=
    ⟨stops_of_forall each, stops_of_forall fun c hc => each c (List.mem_reverse.mp hc)⟩
  cases h with
  | number number => exact visible fun c hc => (plain_visible_of_isNumber number hc).2
  | @quoted _ body content alone =>
      obtain ⟨inner, hi⟩ := exists_take_of_unquote? alone
      rw [List.take_length] at hi
      refine ⟨stops_cons rfl _, ?_⟩
      rw [hi, List.reverse_cons, List.reverse_append]
      exact stops_cons rfl _
  | @cast _ body content name alone hne letters =>
      refine ⟨stops_cons rfl _, ?_⟩
      have last := (visible fun c hc => isBlank_of_isWordChar
        (isWordChar_of_isLetter (letters c hc))).2
      intro c hc
      rw [List.reverse_append, List.reverse_cons, List.reverse_cons, List.append_assoc,
        List.append_assoc, List.head?_append_of_ne_nil _ (List.reverse_ne_nil_iff.mpr hne)] at hc
      exact last c hc
  | @word _ c cs kind first others word literal =>
      have chars : ∀ d ∈ c :: cs, isWordChar d = true :=
        List.forall_mem_cons.mpr ⟨isWordChar_of_startsWord first, others⟩
      exact visible fun d hd => isBlank_of_isWordChar (chars d hd)
  | @list _ body runs =>
      refine ⟨stops_cons rfl _, ?_⟩
      rw [List.reverse_cons, List.reverse_append]
      exact stops_cons rfl _

theorem enclosed (h : t.WrittenAs cs) : Enclosed cs := by
  cases h with
  | number number => exact .plain fun c hc => (plain_visible_of_isNumber number hc).1
  | @quoted _ body content alone =>
      have whole := enclosed_of_unquote? alone
      rwa [List.take_length] at whole
  | @cast _ body content name alone hne letters =>
      have whole := enclosed_of_unquote? alone
      rw [List.take_length] at whole
      have colon : IsPlain ':' := by decide
      exact whole.append (.cons_plain colon (.cons_plain colon (.plain fun c hc =>
        isPlain_of_isWordChar (isWordChar_of_isLetter (letters c hc)))))
  | @word _ c cs kind first others word literal =>
      have chars : ∀ d ∈ c :: cs, isWordChar d = true :=
        List.forall_mem_cons.mpr ⟨isWordChar_of_startsWord first, others⟩
      exact .plain fun d hd => isPlain_of_isWordChar (chars d hd)
  | list runs => exact .brackets runs

end WrittenAs

/-- Only the end of the text is read as the end. -/
theorem eq_nil_of_read_finish {position : Int} {afterNumber : Bool} {cs : List Char} {t : Token}
    {width : Nat} (h : read position afterNumber cs = .ok (t, width)) (hk : t.kind = .finish) :
    cs = [] := by
  unfold read at h
  split at h
  · cases h
    cases hk
  · split at h
    · rfl
    · split at h
      · rw [kind_readQuoted h] at hk
        cases hk
      · split at h
        · rw [kind_readList h] at hk
          cases hk
        · split at h
          · next c more _ _ _ _ =>
              obtain ⟨word, _, kind, _⟩ := isWordToken_readWord position afterNumber (c :: more)
              have words := TokenKind.isWord_ofWord (String.ofList word)
              rw [Except.ok.injEq] at h
              rw [h, hk] at kind
              rw [← kind] at words
              cases words
          · exact absurd hk (TokenKind.ne_finish_of_mem_symbols (mem_symbols_of_readSymbol h))

end Token

namespace Cursor

theorem next_nil (position : Int) (afterNumber : Bool) :
    (Cursor.mk position [] afterNumber).next =
      .ok (.finish position, ⟨position, [], false⟩) := by
  apply next_eq_ok_iff.mpr
  rw [Scan.skipBlanks_eq_self (stops_nil _)]
  refine ⟨0, rfl, ?_⟩
  simp [advance, Token.finish]

theorem next_of_writtenAs {t : Token} {text : List Char} (h : t.WrittenAs text) (position : Int) :
    (Cursor.mk position text false).next =
      .ok (t.moved position, ⟨position + text.length, [], t.kind == .number⟩) := by
  have alone := h.read_append position (stops_nil _)
  rw [List.append_nil] at alone
  apply next_eq_ok_iff.mpr
  rw [Scan.skipBlanks_eq_self h.ends.1]
  refine ⟨text.length, alone, ?_⟩
  rw [advance, List.drop_length]
  rfl

theorem rest_eq_append_skipBlanks (c : Cursor) :
    c.rest = c.rest.takeWhile isBlank ++ c.skipBlanks.rest := by
  have dropped : c.skipBlanks.rest = c.rest.dropWhile isBlank := drop_length_takeWhile isBlank c.rest
  rw [dropped, List.takeWhile_append_dropWhile]

/-- A text in which a literal is the only token is that literal with blanks around it. -/
theorem exists_written_of_next {c d e : Cursor} {t second : Token} (first : c.next = .ok (t, d))
    (literal : t.kind.isLiteral = true) (last : d.next = .ok (second, e))
    (hk : second.kind = .finish) : ∃ text, Padded isBlank text c.rest ∧ t.WrittenAs text := by
  obtain ⟨width, read, rfl⟩ := next_eq_ok_iff.mp first
  obtain ⟨text, rest, split, rfl, written⟩ := Token.writtenAs_of_read read literal
  obtain ⟨_, nothing, _⟩ := next_eq_ok_iff.mp last
  have empty := Token.eq_nil_of_read_finish nothing hk
  refine ⟨text, ⟨c.rest.takeWhile isBlank, rest, ?_, List.all_eq_true.mp List.all_takeWhile, ?_⟩,
    written⟩
  · rw [List.append_assoc, ← split, ← rest_eq_append_skipBlanks]
  · have after := (c.skipBlanks.advance text.length (t.kind == .number)).rest_eq_append_skipBlanks
    rw [empty, List.append_nil] at after
    simp only [advance, split, List.drop_left] at after
    rw [after]
    exact List.all_eq_true.mp List.all_takeWhile

end Cursor

/-- The text by itself is scanned as this literal and nothing more. -/
def Token.Alone (t : Token) (text : List Char) : Prop :=
  t.kind.isLiteral = true ∧ ∃ stop, Scan.ofText 0 (String.ofList text) = ⟨[t], .finish stop⟩

namespace Token

variable {t : Token} {text : List Char}

theorem Alone.exists_written (h : t.Alone text) :
    ∃ core, Padded isBlank core text ∧ t.WrittenAs core := by
  obtain ⟨literal, stop, scan⟩ := h
  obtain ⟨d, first, rest⟩ := Scan.next_of_ofCursor_cons scan
  obtain ⟨second, e, last, hk⟩ := Scan.next_of_ofCursor_finish rest
  have padded := Cursor.exists_written_of_next first literal last hk
  rwa [Cursor.start, String.toList_ofList] at padded

theorem WrittenAs.alone (h : t.WrittenAs text) : (t.moved 0).Alone text := by
  have literal : (t.moved 0).kind.isLiteral = true := h.isLiteral
  have inner : (t.moved 0).kind ≠ .finish := by
    intro hk
    rw [hk] at literal
    cases literal
  refine ⟨literal, 0 + text.length, ?_⟩
  rw [Scan.ofText, Cursor.start, String.toList_ofList,
    Scan.ofCursor_of_next (Cursor.next_of_writtenAs h 0) inner, Scan.ofCursor_nil]
  rfl

/-- A text that is a literal token's has no other token. -/
theorem Alone.eq_moved {u : Token} (h : t.Alone text) (hu : u.WrittenAs text) : t = u.moved 0 := by
  obtain ⟨_, stop, scan⟩ := h
  obtain ⟨_, _, again⟩ := hu.alone
  rw [again, Scan.mk.injEq, List.cons.injEq] at scan
  exact scan.1.1.symm

end Token
end RecordFilter
