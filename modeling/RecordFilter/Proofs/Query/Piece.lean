import RecordFilter.Proofs.Grammar.Place
import RecordFilter.Proofs.Literal.Respelled

/-! # Pieces in two layouts

A token of a query has one text in one layout and another in the other. In both it ends at the same
place: a blank parts it from the next one, or the next one begins as it began. Only a connective and
a name can run together: right behind a number they are cut apart, and elsewhere they are not.
-/

namespace RecordFilter

open Text Grammar

/-- A token of a query in two layouts: its text and the blanks before it, in the one and in the
    other. -/
structure Piece extends PlacedToken where
  gap : List Char
  text : List Char
  newGap : List Char
  newText : List Char

namespace Piece

def chars (p : Piece) : List Char := p.gap ++ p.text

def newChars (p : Piece) : List Char := p.newGap ++ p.newText

/-- A field keeps its text, a literal may be written otherwise, and any other token may be in
    another letter case. -/
def Respelled (p : Piece) : Prop :=
  match p.place with
  | .field => p.newText = p.text
  | .literal => Literal.Respelled p.text p.newText
  | _ => SameLetters p.text p.newText

/-- The piece is one of its token, and the other layout differs from it only as it may. -/
structure Varies (p : Piece) : Prop where
  covers : p.token.Covers p.text
  gap_blank : ∀ c ∈ p.gap, isBlank c = true
  newGap_blank : ∀ c ∈ p.newGap, isBlank c = true
  respelled : p.Respelled

/-- What is asked of the blanks between neighbours. -/
@[mk_iff]
structure Precedes (p q : Piece) : Prop where
  /-- They are kept or there are some, but beside a list there may be none. -/
  spaced : q.newGap = q.gap ∨ q.newGap ≠ [] ∨ p.token.kind = .list ∨ q.token.kind = .list
  /-- Those before a connective are kept if a name follows it without any. -/
  attached : p.place = .link → q.place = .field → q.newGap = [] → p.newGap = p.gap

instance (p q : Piece) : Decidable (p.Precedes q) := decidable_of_iff _ (precedes_iff p q).symm

end Piece

namespace Grammar

private theorem PlacedToken.Kept.moved {limit : Nat} {p : PlacedToken} {u : Token}
    (h : p.Kept (.ok limit) u) (position : Int) : p.Kept (.ok limit) (u.moved position) where
  kind := h.kind
  name := h.name
  literal := by
    intro place l cast
    have own := h.literal place l cast
    rw [Literal.castToken_eq] at own ⊢
    exact Literal.castWithin_moved own position

/-- What the grammar wants next is no part of a token that could go on. -/
theorem PlacedToken.stops_of_leads {p q : PlacedToken} {text : List Char} (leads : p.Leads q)
    (spans : q.token.Spans text) (near : ¬(p.token.kind.isWord = true ∨ p.token.cast ≠ none)) :
    Stops p.token.grows text := by
  obtain ⟨place, t, allowed⟩ := p
  obtain ⟨following, u, wanted⟩ := q
  have word : t.kind.isWord = false := Bool.eq_false_iff.mpr fun word => near (.inl word)
  cases place with
  | field => exact absurd (.inl allowed) near
  | negation =>
      rw [show t.kind = .not from allowed] at word
      cases word
  | operator =>
      have literal := (Place.keyword_of_allows allowed nofun nofun).1
      cases List.mem_singleton.mp leads
      exact (spans.writtenAs wanted).stops_equals.mono fun c => Token.eq_equals_of_grows word literal
  | literal =>
      have next : u.kind.connective? ≠ none ∨ u.kind = .closeParen := by
        rcases List.mem_cons.mp leads with link | closing
        · cases link
          exact .inl wanted
        · cases List.mem_singleton.mp closing
          exact .inr wanted
      exact spans.stops_of_connective next allowed near
  | link => exact absurd (.inl (Token.isWord_of_connective allowed)) near
  | opening => exact Token.stops_grows_bracket (.inr (.inl allowed)) text
  | closing => exact Token.stops_grows_bracket (.inr (.inr allowed)) text

end Grammar

namespace Piece

variable {p : Piece}

theorem Respelled.refl (q : PlacedToken) (gap newGap text : List Char) :
    Respelled ⟨q, gap, text, newGap, text⟩ := by
  unfold Respelled
  split
  · rfl
  · exact .same
  · rfl

theorem Respelled.head_eq (h : p.Respelled) :
    p.text.head?.map Char.toLower = p.newText.head?.map Char.toLower := by
  obtain ⟨⟨place, t, allowed⟩, gap, text, newGap, newText⟩ := p
  cases place with
  | field => exact congrArg (·.head?.map Char.toLower) (Eq.symm h)
  | literal => exact Literal.Respelled.head_eq h
  | _ => exact SameLetters.head_eq h

theorem Respelled.ne_nil (h : p.Respelled) (hne : p.text ≠ []) : p.newText ≠ [] := by
  intro none
  have first := h.head_eq
  rw [none, List.head?_nil, Option.map_none, Option.map_eq_none_iff, List.head?_eq_none_iff] at first
  exact hne first

/-- The token of a piece in the other layout. -/
theorem Varies.exists_token {limit : Nat} (varies : p.Varies) (spans : p.token.Spans p.text)
    (value : p.place = .literal → ∃ l, Literal.castToken (.ok limit) 0 p.token = .ok l) :
    ∃ u : Token, u.Spans p.newText ∧ u.cast = p.token.cast ∧ p.Kept (.ok limit) u := by
  have respelled := varies.respelled
  obtain ⟨⟨place, t, allowed⟩, gap, text, newGap, newText⟩ := p
  by_cases field : place = .field
  · subst field
    cases respelled
    exact ⟨t, spans, rfl, rfl, fun _ => rfl, nofun⟩
  · by_cases literal : place = .literal
    · subst literal
      obtain ⟨l, cast⟩ := value rfl
      have again := cast
      rw [Literal.castToken_eq] at again
      obtain ⟨u, written, kind, suffix, again⟩ :=
        Literal.Respelled.exists_written respelled (spans.writtenAs allowed) again
      rw [← Literal.castToken_eq] at again
      refine ⟨u, .literal written, suffix, kind, nofun, fun _ m hm => ?_⟩
      cases hm.symm.trans cast
      exact again
    · have letters : SameLetters text newText := by
        cases place with
        | field => exact absurd rfl field
        | literal => exact absurd rfl literal
        | _ => exact respelled
      obtain ⟨scalar, keyword⟩ := Place.keyword_of_allows allowed field literal
      obtain ⟨u, hu, kind, suffix⟩ := spans.exists_of_sameLetters scalar keyword letters
      exact ⟨u, hu, suffix, kind, fun hp => absurd hp field, fun hp => absurd hp literal⟩

section

variable {q : Piece}

/-- If nothing parts two neighbours in either layout, the second is no part of the first one. -/
theorem stops_of_glued {position : Int} {afterNumber : Bool} {rest : List Char}
    (leads : p.Leads q.toPlacedToken) (precedes : p.Precedes q) (spans : q.token.Spans q.text)
    (glued : q.newGap = [])
    (read : Token.read position (afterNumber && p.gap.length == 0) (p.text ++ (q.text ++ rest)) =
      .ok (p.token, p.text.length))
    (first : afterNumber = true → p.place ∈ Place.literal.next)
    (parted : (afterNumber && p.newGap.length == 0) = false) : Stops p.token.grows q.text := by
  cases behind : afterNumber && p.gap.length == 0 with
  | false =>
      by_cases far : p.token.kind.isWord = true ∨ p.token.cast ≠ none
      · rw [behind] at read
        have stop := Token.stops_of_read read far
        rw [List.drop_left] at stop
        exact stop.left
      · exact PlacedToken.stops_of_leads leads spans far
  | true =>
      -- Only a connective or a closing parenthesis stands right behind a number.
      have number : afterNumber = true := (Bool.and_eq_true _ _ ▸ behind).1
      rcases List.mem_cons.mp (first number) with link | closing
      · have next : q.place ∈ Place.link.next := by
          rw [← link]
          exact leads
        rcases List.mem_cons.mp next with field | opening
        · rw [precedes.attached link field glued, behind] at parted
          cases parted
        · have allowed := q.allowed
          rw [List.mem_singleton.mp opening] at allowed
          rw [spans.eq_parenthesis.1 allowed]
          exact Token.stops_grows (stops_cons rfl _) _
      · have allowed := p.allowed
        rw [List.mem_singleton.mp closing] at allowed
        exact Token.stops_grows_bracket (.inr (.inr allowed)) _

end

/-- What follows a token in the other layout is no part of it. -/
theorem stops_newChars {ps : List Piece} {tail newTail : List Char} {position : Int}
    {afterNumber : Bool} (varies : ∀ q ∈ ps, q.Varies) (spans : ∀ q ∈ ps, q.token.Spans q.text)
    (leads : (p :: ps).IsChain fun p q => p.Leads q.toPlacedToken)
    (precedes : (p :: ps).IsChain Precedes) (blank : ∀ c ∈ newTail, isBlank c = true)
    (read : Token.read position (afterNumber && p.gap.length == 0)
      (p.text ++ (ps.flatMap chars ++ tail)) = .ok (p.token, p.text.length))
    (first : afterNumber = true → p.place ∈ Place.literal.next)
    (parted : (afterNumber && p.newGap.length == 0) = false) :
    Stops p.token.grows (ps.flatMap newChars ++ newTail) := by
  cases ps with
  | nil =>
      by_cases hne : newTail = []
      · rw [hne]
        exact stops_nil _
      · have stop := Scan.stops_of_blank hne blank [] p.token
        rwa [List.append_nil] at stop
  | cons q rest =>
      rw [List.forall_mem_cons] at varies spans
      rw [List.isChain_cons_cons] at leads precedes
      rw [List.flatMap_cons, newChars, List.append_assoc, List.append_assoc]
      by_cases glued : q.newGap = []
      · have stop : Stops p.token.grows q.text := by
          rcases precedes.1.spaced with kept | blanks | list | list
          · rw [List.flatMap_cons, chars, ← kept, glued, List.nil_append, List.append_assoc] at read
            exact stops_of_glued leads.1 precedes.1 spans.1 glued read first parted
          · exact absurd glued blanks
          · exact Token.stops_grows_bracket (.inl list) _
          · obtain ⟨body, text⟩ := spans.1.exists_body list
            rw [text]
            exact Token.stops_grows (stops_cons rfl _) _
        rw [glued, List.nil_append]
        have start := Token.stops_grows_of_head stop varies.1.respelled.head_eq
        exact start.append_of_ne_nil (varies.1.respelled.ne_nil spans.1.ne_nil) _
      · exact Scan.stops_of_blank glued varies.1.newGap_blank _ _

/-- A token is read off its new text, right behind a number only if it can stand there. -/
theorem read_newText {u : Token} {position : Int} {afterNumber : Bool} {rest : List Char}
    (spans : u.Spans p.newText) (kind : u.kind = p.token.kind)
    (first : afterNumber = true → p.place ∈ Place.literal.next)
    (stop : afterNumber = false → Stops u.grows rest) :
    Token.read position afterNumber (p.newText ++ rest) =
      .ok (u.moved position, p.newText.length) := by
  cases afterNumber with
  | false => exact spans.read_append position (stop rfl)
  | true =>
      have allowed := kind.symm ▸ p.allowed
      rcases List.mem_cons.mp (first rfl) with link | closing
      · rw [link] at allowed
        have word := spans.ofWord_eq (Token.isWord_of_connective allowed)
        have unquoted : u.kind ≠ .quoted := by
          intro quoted
          rw [quoted] at allowed
          exact allowed rfl
        rw [Token.read_connective (word ▸ allowed), word, spans.eq_plain unquoted]
        rfl
      · rw [List.mem_singleton.mp closing] at allowed
        have unquoted : u.kind ≠ .quoted := by
          rw [show u.kind = _ from allowed]
          nofun
        rw [spans.eq_plain unquoted, show u.kind = _ from allowed, spans.eq_parenthesis.2 allowed]
        rfl

/-- The tokens of a scan are those of their pieces. -/
theorem forall_spans {ps : List Piece} {tail : List Char} {position stop : Int}
    {afterNumber : Bool} (varies : ∀ p ∈ ps, p.Varies)
    (scan : Scan.ofCursor ⟨position, ps.flatMap chars ++ tail, afterNumber⟩ =
      ⟨ps.map (·.token), .finish stop⟩) : ∀ p ∈ ps, p.token.Spans p.text := by
  induction ps generalizing position afterNumber with
  | nil => exact List.forall_mem_nil _
  | cons p ps ih =>
      rw [List.forall_mem_cons] at varies ⊢
      rw [List.flatMap_cons, chars, List.append_assoc, List.append_assoc] at scan
      obtain ⟨spans, _, rest⟩ := Scan.read_of_covers varies.1.gap_blank varies.1.covers scan
      exact ⟨spans, ih varies.2 rest⟩

/-- The new text is scanned as tokens that keep what counts. -/
theorem exists_scan {limit : Nat} {ps : List Piece} {tail newTail : List Char}
    {position stop : Int} {afterNumber : Bool} (newPosition : Int) (varies : ∀ p ∈ ps, p.Varies)
    (spans : ∀ p ∈ ps, p.token.Spans p.text)
    (value : ∀ p ∈ ps, p.place = .literal → ∃ l, Literal.castToken (.ok limit) 0 p.token = .ok l)
    (leads : ps.IsChain fun p q => p.Leads q.toPlacedToken) (precedes : ps.IsChain Precedes)
    (first : afterNumber = true → ∀ p ∈ ps.head?, p.place ∈ Place.literal.next)
    (blank : ∀ c ∈ newTail, isBlank c = true)
    (scan : Scan.ofCursor ⟨position, ps.flatMap chars ++ tail, afterNumber⟩ =
      ⟨ps.map (·.token), .finish stop⟩) :
    ∃ us newStop, Scan.ofCursor ⟨newPosition, ps.flatMap newChars ++ newTail, afterNumber⟩ =
        ⟨us, .finish newStop⟩ ∧
      List.Forall₂ (PlacedToken.Kept (.ok limit)) (ps.map toPlacedToken) us := by
  induction ps generalizing position newPosition afterNumber with
  | nil => exact ⟨[], _, Scan.ofCursor_of_blank blank, .nil⟩
  | cons p ps ih =>
      rw [List.forall_mem_cons] at varies spans value
      rw [List.flatMap_cons, chars, List.append_assoc, List.append_assoc] at scan
      obtain ⟨_, read, others⟩ := Scan.read_of_covers varies.1.gap_blank varies.1.covers scan
      obtain ⟨u, hu, cast, kept⟩ := varies.1.exists_token spans.1 value.1
      have first := fun after => first after p rfl
      have next : (p.token.kind == .number) = true →
          ∀ q ∈ ps.head?, q.place ∈ Place.literal.next := by
        intro number q hq
        rw [← Place.eq_literal_of_allows p.allowed (eq_of_beq number)]
        exact (List.isChain_cons.mp leads).1 q hq
      obtain ⟨us, newStop, rest, same⟩ := ih (newPosition + p.newGap.length + p.newText.length)
        varies.2 spans.2 value.2 leads.tail precedes.tail next others
      -- Where the token ended in the old text tells that it ends before the rest of the new one.
      have again : Token.read (newPosition + p.newGap.length) (afterNumber && p.newGap.length == 0)
          (p.newText ++ (ps.flatMap newChars ++ newTail)) =
            .ok (u.moved (newPosition + p.newGap.length), p.newText.length) := by
        apply read_newText hu kept.kind
        · intro after
          exact first (Bool.and_eq_true _ _ ▸ after).1
        · intro parted
          rw [Token.grows_congr kept.kind cast]
          exact stops_newChars varies.2 spans.2 leads precedes blank read first parted
      refine ⟨u.moved (newPosition + p.newGap.length) :: us, newStop, ?_, .cons (kept.moved _) same⟩
      have visible := hu.stops_isBlank.append_of_ne_nil hu.ne_nil (ps.flatMap newChars ++ newTail)
      rw [List.flatMap_cons, newChars, List.append_assoc, List.append_assoc,
        Scan.ofCursor_of_gap varies.1.newGap_blank visible again hu.kind_ne_finish, List.drop_left,
        (kept.moved _).kind, rest]
      rfl

end Piece

end RecordFilter
