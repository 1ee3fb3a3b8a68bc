import RecordFilter.Proofs.Token.Tiling

/-! # Tokens written out again

The tokens of a text can be written out with blanks between them: quoted text with its quotes, its
escapes and its cast, every other token as its text. Whatever the blanks are, the scan of what was
written gives the same tokens, at other positions.
-/

namespace RecordFilter

open Text

namespace Token

/-- The token as it is written out. -/
def rendering (t : Token) : List Char :=
  if t.kind = .quoted then (quote t.content).toList ++ castChars t.cast else t.content.toList

/-- What a token tells apart from where it stands. -/
def reading (t : Token) : TokenKind × Option String × Option String := (t.kind, t.text, t.cast)

private theorem rendering_of_text {t : Token} {span : List Char} (h : t.kind ≠ .quoted)
    (text : t.text = some (String.ofList span)) : t.rendering = span := by
  rw [rendering, if_neg h, content, text, Option.getD_some, String.toList_ofList]

private theorem rendering_quoted (content : List Char) (position : Int) (cast : Option String) :
    rendering ⟨.quoted, some (String.ofList content), position, cast⟩ =
      quoteMark :: (escape content ++ [quoteMark]) ++ castChars cast := by
  rw [rendering, if_pos rfl, Token.content, Option.getD_some, quote, String.toList_ofList,
    String.toList_ofList, List.cons_append]

private theorem unquote?_escape (content : List Char) :
    unquote? (escape content ++ [quoteMark]) =
      some (content, (escape content ++ [quoteMark]).length) := by
  rw [unquote?_escape_append, List.length_append]
  rfl

/-- What is written out for a token is a piece that it is read off. -/
theorem Spans.rendering {t : Token} {span : List Char} (h : t.Spans span) :
    t.Spans t.rendering := by
  by_cases hk : t.kind = .quoted
  · cases h with
    | literal written =>
        cases written with
        | number => cases hk
        | quoted =>
            rw [rendering_quoted, castChars, List.append_nil]
            exact .literal (.quoted (unquote?_escape _))
        | cast _ hne letters =>
            rw [rendering_quoted, castChars, String.toList_ofList]
            exact .literal (.cast (unquote?_escape _) hne letters)
        | word _ _ word =>
            rw [kind_plain, ← word] at hk
            exact absurd hk (TokenKind.ofWord_ne_quoted _)
        | list => cases hk
    | word =>
        rw [kind_plain] at hk
        exact absurd hk (TokenKind.ofWord_ne_quoted _)
    | symbol symbol =>
        have kinds := TokenKind.isLiteral_of_mem_symbols (TokenKind.mem_symbols_of_mem_texts symbol)
        rw [kind_plain] at hk
        rw [hk] at kinds
        cases kinds
  · rwa [rendering_of_text hk (h.covers.other hk)]

end Token

/-- The text in which these tokens are written out one after the other, with blanks between them. -/
inductive Rendered : List Token → List Char → Prop where
  | nil : Rendered [] []
  | last {t} : Rendered [t] t.rendering
  | more {t u ts gap cs} : gap ≠ [] → (∀ c ∈ gap, isBlank c = true) → Rendered (u :: ts) cs →
      Rendered (t :: u :: ts) (t.rendering ++ (gap ++ cs))

namespace Scan

/-- A token's piece is scanned as the token, and then what follows is. -/
theorem ofCursor_of_spans {t : Token} {span rest : List Char} (h : t.Spans span)
    (hr : Stops t.grows rest) (position : Int) :
    ofCursor ⟨position, span ++ rest, false⟩ =
      .cons (t.moved position)
        (ofCursor ⟨position + span.length, rest, t.kind == .number⟩) := by
  have first : Stops isBlank (span ++ rest) := h.stops_isBlank.append_of_ne_nil h.ne_nil rest
  rw [ofCursor_of_read first (h.read_append position hr) h.kind_ne_finish, List.drop_left]
  rfl

/-- No token takes in a blank. -/
theorem stops_of_blank {gap : List Char} (hne : gap ≠ []) (blank : ∀ c ∈ gap, isBlank c = true)
    (cs : List Char) (t : Token) : Stops t.grows (gap ++ cs) := by
  obtain ⟨c, gap, rfl⟩ := List.exists_cons_of_ne_nil hne
  refine Token.stops_grows (stops_cons ?_ _) t
  have hb := blank c List.mem_cons_self
  rw [Bool.eq_false_iff]
  intro hc
  simp only [Token.continuesToken, Bool.or_eq_true, beq_iff_eq] at hc
  rcases hc with (word | rfl) | rfl
  · rw [Token.isBlank_of_isWordChar word] at hb
    cases hb
  · cases hb
  · cases hb

private theorem ofCursor_of_rendered {ts : List Token} {cs : List Char} (h : Rendered ts cs)
    (spans : ∀ t ∈ ts, ∃ span, t.Spans span) (position : Int) :
    ∃ us, ofCursor ⟨position, cs, false⟩ = ⟨us, .finish (position + cs.length)⟩ ∧
      us.map Token.reading = ts.map Token.reading := by
  induction h generalizing position with
  | nil => exact ⟨[], by rw [ofCursor_nil]; simp, rfl⟩
  | @last t =>
      obtain ⟨span, spans⟩ := spans t List.mem_cons_self
      have scan := ofCursor_of_spans spans.rendering (stops_nil _) position
      rw [List.append_nil, ofCursor_nil] at scan
      exact ⟨[t.moved position], scan, rfl⟩
  | @more t u ts gap cs hne blank _ ih =>
      -- The blank behind a token continues none, so the token ends where it was written to end.
      rw [List.forall_mem_cons] at spans
      obtain ⟨span, first⟩ := spans.1
      obtain ⟨us, scan, same⟩ := ih spans.2 (position + t.rendering.length + gap.length)
      refine ⟨t.moved position :: us, ?_, ?_⟩
      · rw [ofCursor_of_spans first.rendering (stops_of_blank hne blank cs t) position,
          ofCursor_blanks hne blank, scan]
        simp only [cons, List.length_append, Scan.mk.injEq, Ending.finish.injEq, true_and]
        omega
      · rw [List.map_cons, same]
        rfl

private theorem spans_of_mem (position : Int) (text : String) {t : Token}
    (h : t ∈ (ofText position text).tokens) : ∃ span, t.Spans span := by
  refine forall_tokens (P := fun t => ∃ span, t.Spans span) ?_ _ t h
  intro position afterNumber cs t width read hk
  obtain ⟨span, _, _, _, spans⟩ := Token.spans_of_read read hk
  exact ⟨span, spans⟩

/-- The tokens of a text that is scanned to its end, written out with blanks between them, are
    scanned as the same tokens again. -/
theorem ofText_rendered {k : Int} {text : String} {ts : List Token} {stop : Int}
    (h : ofText k text = ⟨ts, .finish stop⟩) {written : List Char} (rendered : Rendered ts written)
    (l : Int) :
    ∃ us, ofText l (String.ofList written) = ⟨us, .finish (l + written.length)⟩ ∧
      us.map Token.reading = ts.map Token.reading := by
  have spans : ∀ t ∈ ts, ∃ span, t.Spans span := by
    intro t ht
    apply spans_of_mem k text
    rw [h]
    exact ht
  rw [ofText, Cursor.start, String.toList_ofList]
  exact ofCursor_of_rendered rendered spans l

/-- A word behind a number falls apart into a connective and a name, which the blanks keep apart. -/
theorem ofText_rendered_glued : ∃ (ts us : List Token) (written : List Char),
    ofText 0 "1order=='it\\'s'::DATE" = ⟨ts, .finish 21⟩ ∧
    Rendered ts written ∧
    String.ofList written = "1\tor\nder  == 'it\\'s'::DATE" ∧
    ofText 7 (String.ofList written) = ⟨us, .finish 33⟩ ∧
    us.map Token.reading =
      [(.number, some "1", none), (.or, some "or", none), (.identifier, some "der", none),
        (.equal, some "==", none), (.quoted, some "it's", some "DATE")] := by
  have scanned : ofText 0 "1order=='it\\'s'::DATE" =
      ⟨[Token.plain .number 0 ['1'], Token.plain .or 1 ['o', 'r'],
        Token.plain .identifier 3 ['d', 'e', 'r'], Token.plain .equal 6 ['=', '='],
        ⟨.quoted, some "it's", 8, some "DATE"⟩], .finish 21⟩ := by
    decide +kernel
  have blank {c : Char} (h : isBlank c = true) : ∀ d ∈ [c], isBlank d = true :=
    List.forall_mem_singleton.mpr h
  obtain ⟨written, rendered, text⟩ : ∃ written, Rendered
      [Token.plain .number 0 ['1'], Token.plain .or 1 ['o', 'r'],
        Token.plain .identifier 3 ['d', 'e', 'r'], Token.plain .equal 6 ['=', '='],
        ⟨.quoted, some "it's", 8, some "DATE"⟩] written ∧
      written = "1\tor\nder  == 'it\\'s'::DATE".toList :=
    ⟨_, .more (List.cons_ne_nil '\t' []) (blank rfl) (.more (List.cons_ne_nil '\n' []) (blank rfl)
      (.more (List.cons_ne_nil ' ' [' ']) (List.forall_mem_cons.mpr ⟨rfl, blank rfl⟩)
        (.more (List.cons_ne_nil ' ' []) (blank rfl) .last))), rfl⟩
  obtain ⟨us, again, same⟩ := ofText_rendered scanned rendered 7
  refine ⟨_, us, written, scanned, rendered, ?_, ?_, same⟩
  · rw [text, String.ofList_toList]
  · rw [again, text]
    rfl

end Scan

end RecordFilter
