import RecordFilter.Proofs.Located
import RecordFilter.Proofs.Text.Quoted
import RecordFilter.Proofs.Token.Number
import RecordFilter.Proofs.Token.Scan

/-! # Where tokens stand

A token stands where the cursor is and takes no more characters than are left. A text that has no
token at some place fails at a position in the text. So everything that a scan tells stands between
the two ends of the text.
-/

namespace RecordFilter

open Text

namespace Token

/-- How far beyond its position a failure to cast a token can point. Only the text of a list is read
again. -/
def reach (t : Token) : Nat := if t.kind = .list then t.content.toList.length else 0

theorem reach_eq_zero {t : Token} (h : t.kind ≠ .list) : t.reach = 0 := if_neg h

/-- The token stands between these two positions. -/
structure Inside (low high : Int) (t : Token) : Prop where
  first : low ≤ t.position
  last : t.position + t.reach ≤ high

theorem Inside.mono {low high low' high' : Int} {t : Token} (h : t.Inside low high)
    (hl : low' ≤ low) (hh : high ≤ high') : t.Inside low' high' :=
  ⟨Int.le_trans hl h.first, Int.le_trans h.last hh⟩

/-- What reading a token at a position can come to when this many characters are left. -/
def Fits (position : Int) (room : Nat) : Except Failure (Token × Nat) → Prop :=
  Located position (position + room) fun (t, width) =>
    t.position = position ∧ t.reach ≤ width ∧ width ≤ room

section

variable {position : Int} {room width : Nat}

theorem fits_fail (fault : LexicalFault) {q : Int} (first : position ≤ q)
    (last : q ≤ position + room) : Fits position room (fail fault q) :=
  .error (.query _ first last)

theorem fits_fail_here (fault : LexicalFault) : Fits position room (fail fault position) :=
  fits_fail fault (Int.le_refl _) (by omega)

theorem fits_ok {t : Token} (here : t.position = position) (scalar : t.kind ≠ .list)
    (fits : width ≤ room) : Fits position room (.ok (t, width)) := by
  refine .ok ⟨here, ?_, fits⟩
  rw [reach_eq_zero scalar]
  exact Nat.zero_le width

private theorem fits_readQuoted (position : Int) (cs : List Char) :
    Fits position (cs.length + 1) (readQuoted position cs) := by
  unfold readQuoted
  split
  · exact fits_fail_here _
  · next content width hu =>
      have bound := (width_of_unquote? hu).2
      have left : (cs.drop width).length = cs.length - width := List.length_drop
      simp only
      split
      · next more hm =>
          rw [hm, List.length_cons, List.length_cons] at left
          split
          · exact fits_fail _ (by omega) (by omega)
          · have name := (List.takeWhile_sublist (p := isLetter) (l := more)).length_le
            exact fits_ok rfl nofun (by omega)
      · exact fits_ok rfl nofun (by omega)

private theorem fits_readList (position : Int) (cs : List Char) :
    Fits position cs.length (readList position cs) := by
  unfold readList
  split
  · exact fits_fail_here _
  · next taken rest hb =>
      have reach : (plain .list position taken).reach = taken.length := by
        simp [Token.reach, plain, content]
      refine .ok ⟨rfl, Nat.le_of_eq reach, ?_⟩
      rw [takeBalanced?_eq_append hb, List.length_append]
      exact Nat.le_add_right _ _

theorem wordLength_le (afterNumber : Bool) (word : List Char) :
    wordLength afterNumber word ≤ word.length := by
  simp only [wordLength]
  split
  · omega
  · split <;> omega

private theorem fits_readWord (position : Int) (afterNumber : Bool) (cs : List Char) :
    Fits position cs.length (.ok (readWord position afterNumber cs)) := by
  have word := (List.takeWhile_sublist (p := isWordChar) (l := cs)).length_le
  have width := wordLength_le afterNumber (cs.takeWhile isWordChar)
  refine fits_ok rfl ?_ (Nat.le_trans width word)
  intro hk
  obtain ⟨text, _, kind, _⟩ := isWordToken_readWord position afterNumber cs
  have words := TokenKind.isWord_ofWord (String.ofList text)
  rw [← kind] at words
  cases hk.symm ▸ words

private theorem fits_readSymbol (position : Int) (c : Char) (cs : List Char) :
    Fits position (cs.length + 1) (readSymbol position c cs) := by
  rcases readSymbol_cases position c cs with
    ⟨fault, failed⟩ | ⟨kind, text, rest, symbol, whole, read⟩
  · rw [failed]
    exact fits_fail_here _
  · have scalar : kind ≠ .list := by
      rintro rfl
      cases TokenKind.isLiteral_of_mem_symbols (TokenKind.mem_symbols_of_mem_texts symbol)
    have length := congrArg List.length whole
    rw [List.length_cons, List.length_append] at length
    rw [read, length]
    exact fits_ok rfl scalar (Nat.le_add_right _ _)

theorem fits_read (position : Int) (afterNumber : Bool) (cs : List Char) :
    Fits position cs.length (read position afterNumber cs) := by
  unfold read
  split
  · next number rest hn =>
      refine fits_ok rfl nofun ?_
      rw [(isNumber_of_takeNumber? hn).1, List.length_append]
      exact Nat.le_add_right _ _
  · split
    · exact fits_ok rfl nofun (Nat.le_refl _)
    · next c more _ =>
        split
        · exact fits_readQuoted position more
        · split
          · exact fits_readList position _
          · split
            · exact fits_readWord position afterNumber _
            · exact fits_readSymbol position c more

end

end Token

namespace Cursor

/-- Where the text of a cursor ends. -/
def stop (c : Cursor) : Int := c.position + c.rest.length

theorem position_le_stop (c : Cursor) : c.position ≤ c.stop := by
  rw [stop]
  omega

theorem stop_advance {c : Cursor} {width : Nat} (h : width ≤ c.rest.length) (afterNumber : Bool) :
    (c.advance width afterNumber).stop = c.stop := by
  simp only [stop, advance, List.length_drop]
  omega

theorem skipBlanks_bounds (c : Cursor) :
    c.position ≤ c.skipBlanks.position ∧ c.skipBlanks.stop = c.stop := by
  have blanks := (List.takeWhile_sublist (p := isBlank) (l := c.rest)).length_le
  refine ⟨?_, stop_advance blanks _⟩
  simp only [skipBlanks, advance]
  omega

/-- The next token ends before the cursor after it, and the text ends where it ended. -/
theorem located_next (c : Cursor) :
    Located c.position c.stop (fun (t, d) => t.Inside c.position d.position ∧ d.stop = c.stop)
      c.next := by
  obtain ⟨before, same⟩ := c.skipBlanks_bounds
  have fits := Token.fits_read c.skipBlanks.position c.skipBlanks.afterNumber c.skipBlanks.rest
  refine (fits.widen before (Int.le_of_eq same)).bind ?_
  rintro ⟨t, width⟩ ⟨here, reach, room⟩
  refine .ok ⟨⟨?_, ?_⟩, ?_⟩
  · rw [here]
    exact before
  · simp only [advance, here]
    omega
  · rw [stop_advance room, same]

theorem inside_of_next {c d : Cursor} {t : Token} (h : c.next = .ok (t, d)) :
    t.Inside c.position d.position ∧ d.stop = c.stop := by
  have next := c.located_next
  rw [h] at next
  exact next.of_ok

theorem position_le_of_next {c d : Cursor} {t : Token} (h : c.next = .ok (t, d)) :
    c.position ≤ d.position := by
  obtain ⟨first, last⟩ := (inside_of_next h).1
  omega

private theorem within_of_next {c : Cursor} {failure : Failure} (h : c.next = .error failure) :
    failure.Within c.position c.stop := by
  have next := c.located_next
  rw [h] at next
  exact next.within

end Cursor

/-- What ends the scan stands between these two positions. -/
def Ending.Inside (low high : Int) : Ending → Prop
  | .finish position => low ≤ position ∧ position ≤ high
  | .failed failure => failure.Within low high

theorem Ending.Inside.mono {low high low' : Int} {e : Ending} (h : e.Inside low high)
    (hl : low' ≤ low) : e.Inside low' high := by
  cases e with
  | finish position => exact ⟨Int.le_trans hl h.1, h.2⟩
  | failed failure => exact Failure.Within.mono h hl (Int.le_refl _)

structure Scan.Inside (low high : Int) (s : Scan) : Prop where
  tokens : ∀ t ∈ s.tokens, t.Inside low high
  ending : s.ending.Inside low high

private theorem Scan.inside_ofCursor (c : Cursor) : (ofCursor c).Inside c.position c.stop := by
  fun_induction ofCursor c with
  | case1 c failure hn => exact ⟨List.forall_mem_nil _, Cursor.within_of_next hn⟩
  | case2 c t d hn hk =>
      obtain ⟨here, same⟩ := Cursor.inside_of_next hn
      have := here.last
      have := d.position_le_stop
      exact ⟨List.forall_mem_nil _, here.first, by omega⟩
  | case3 c t d hn hk ih =>
      obtain ⟨here, same⟩ := Cursor.inside_of_next hn
      have before := Cursor.position_le_of_next hn
      rw [same] at ih
      obtain ⟨tokens, ending⟩ := ih
      refine ⟨List.forall_mem_cons.mpr ⟨?_, ?_⟩, ending.mono before⟩
      · exact here.mono (Int.le_refl _) (same ▸ d.position_le_stop)
      · intro u hu
        exact (tokens u hu).mono before (Int.le_refl _)

/-- What a scan of a text tells stands in the text. -/
theorem Scan.inside_ofText (position : Int) (text : String) :
    (ofText position text).Inside position (position + text.toList.length) :=
  inside_ofCursor (.start position text)

end RecordFilter
