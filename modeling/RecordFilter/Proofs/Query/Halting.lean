import Mathlib
import RecordFilter.Proofs.Literal.Unlimited
import RecordFilter.Proofs.Stream.Resumption
import RecordFilter.Proofs.Token.Tiling

/-! # Reading ends

A query is scanned, read and its lists are cast, and each of these goes on for as long as there is
something to go on with. Scanning takes characters, reading takes tokens, and in lists it is again
characters that become fewer. Limits for the nesting make none of this end earlier than it would.
-/

namespace RecordFilter

open Text

namespace Cursor

/-- What looking for the next token comes to: a failure, the end of the text with nothing left
    behind the cursor, or a token for which the cursor has moved on. -/
inductive MovesOn (c : Cursor) : Except Failure (Token × Cursor) → Prop where
  | fails (failure : Failure) : MovesOn c (.error failure)
  | ends {t : Token} {d : Cursor} : t.kind = .finish → d.rest = [] → d.position = c.stop →
      MovesOn c (.ok (t, d))
  | takes {t : Token} {d : Cursor} (taken : List Char) : t.kind ≠ .finish → taken ≠ [] →
      c.rest = taken ++ d.rest → d.position = c.position + taken.length → MovesOn c (.ok (t, d))

private theorem movesOn_next (c : Cursor) : c.MovesOn c.next := by
  cases next : c.next with
  | error failure => exact .fails failure
  | ok found =>
      obtain ⟨t, d⟩ := found
      by_cases last : t.kind = .finish
      · obtain ⟨width, read, rfl⟩ := next_eq_ok_iff.mp next
        have empty := Token.eq_nil_of_read_finish read last
        have nothing : (c.skipBlanks.advance width (t.kind == .number)).rest = [] := by
          rw [advance, empty, List.drop_nil]
        refine .ends last nothing ?_
        have same := (inside_of_next next).2
        rwa [stop, nothing, List.length_nil, Int.natCast_zero, Int.add_zero] at same
      · obtain ⟨span, spans, whole, here, behind⟩ := exists_spans_of_next next last
        refine .takes (c.rest.takeWhile isBlank ++ span) last ?_ ?_ ?_
        · exact List.append_ne_nil_of_right_ne_nil _ spans.ne_nil
        · rwa [List.append_assoc]
        · rw [behind, here, List.length_append, Int.natCast_add, Int.add_assoc]

end Cursor

namespace Scan

/-- The tokens that are handed out one after the other. The end of the text is one of them. -/
def handedOut (s : Scan) : List Token :=
  match s.ending with
  | .finish position => s.tokens ++ [.finish position]
  | .failed _ => s.tokens

theorem handedOut_cons (t : Token) (s : Scan) : (cons t s).handedOut = t :: s.handedOut := by
  obtain ⟨tokens, ending⟩ := s
  cases ending <;> rfl

private theorem length_handedOut_ofCursor (c : Cursor) :
    (ofCursor c).handedOut.length ≤ c.rest.length + 1 := by
  fun_induction ofCursor c with
  | case1 c failure next => exact Nat.zero_le _
  | case2 c t d next last => exact Nat.le_add_left 1 _
  | case3 c t d next more ih =>
      have shorter := Cursor.length_rest_of_next next more
      rw [handedOut_cons, List.length_cons]
      omega

end Scan

/-- The scanner moves on with every token, so there are at most as many tokens as characters, and
    the end. The descent asks for a round of a loop or for a level only with fewer tokens left,
    whatever the limit is; it has one solution, which gives what the reader gives. An item of a list
    has two characters less than the list, so casting without a limit has one solution too, and
    limits that are not reached give the same. -/
theorem reading_ends :
    (∀ c : Cursor, c.MovesOn c.next) ∧
    (∀ position text, (Scan.ofText position text).handedOut.length ≤ text.toList.length + 1) ∧
    (∀ limit : Int,
      Descends (fun c => c.place.tokensLeft) Descent.Request.Expected (Descent.perform limit) ∧
      (∃! ask, Solves (Descent.perform limit) ask) ∧
      ∀ ask, Solves (Descent.perform limit) ask →
        ∀ text, Descent.readQuery ask text = StreamItem.ofText limit text) ∧
    (∀ (t : Token) items, Literal.Item.ofText (t.position + 1) (Literal.innerText t) = .ok items →
      ∀ item ∈ items, item.text.toList.length + 2 ≤ t.content.toList.length) ∧
    (∃! cast, Solves Literal.castVia cast) ∧
    ∀ cast, Solves Literal.castVia cast → ∀ levels (t : Token),
      t.content.toList.length < 2 * levels → Literal.castWithin levels t = cast t := by
  refine ⟨Cursor.movesOn_next, fun position text => Scan.length_handedOut_ofCursor _, ?_, ?_, ?_, ?_⟩
  · intro limit
    have descends := Descent.descends limit
    exact ⟨descends, descends.existsUnique_solution (.error .refused),
      fun ask solves => Descent.readQuery_eq_ofText solves⟩
  · intro t items cut item hi
    exact Literal.length_item_of_innerText cut hi
  · exact Literal.descends_castVia.existsUnique_solution (.error .refused)
  · intro cast solves levels t enough
    exact Literal.castWithin_eq_of_solution solves enough

/-- A query that breaks off behind a group, read by descent, and a list in a list, cast without a
    limit. -/
theorem reading_ends_nested : ∃ ask cast,
    Solves (Descent.perform 1) ask ∧ Solves Literal.castVia cast ∧
    Descent.readQuery ask "(a == 1) or b" =
      .error (.query (.expectedComparison .finish) (some 13)) ∧
    Literal.Item.ofText 8 "1, [2]" = .ok [⟨"1", 8⟩, ⟨"[2]", 11⟩] ∧
    ("[2]".toList.length + 2 ≤ "[1, [2]]".toList.length) ∧
    cast (.plain .list 7 "[1, [2]]".toList) =
      .ok (.list [.number ⟨.int 1, rfl⟩, .list [.number ⟨.int 2, rfl⟩]]) := by
  obtain ⟨_, _, reader, shorter, ⟨cast, casts, _⟩, limited⟩ := reading_ends
  obtain ⟨_, ⟨ask, asks, _⟩, same⟩ := reader 1
  have cut : Literal.Item.ofText 8 "1, [2]" = .ok [⟨"1", 8⟩, ⟨"[2]", 11⟩] := by decide +kernel
  have stream : StreamItem.ofText 1 "(a == 1) or b" =
      .error (.query (.expectedComparison .finish) (some 13)) := by
    cbv
  have list : Literal.castWithin 5 (.plain .list 7 "[1, [2]]".toList) =
      .ok (.list [.number ⟨.int 1, rfl⟩, .list [.number ⟨.int 2, rfl⟩]]) := by
    cbv
  refine ⟨ask, cast, asks, casts, (same ask asks _).trans stream, cut, ?_, ?_⟩
  · exact shorter (.plain .list 7 "[1, [2]]".toList) _ cut ⟨"[2]", 11⟩ (by decide)
  · exact (limited cast casts 5 _ (by decide)).symm.trans list

end RecordFilter
