import Mathlib.Data.List.TakeWhile
import RecordFilter.Literal.Cast
import RecordFilter.Proofs.Result
import RecordFilter.Proofs.Token.Written

/-! # Items of lists

The items of a list are its pieces between commas, trimmed. An item has a token if its text is that
of a literal, and where the item stands matters for nothing but the position of the token.
-/

namespace RecordFilter.Literal.Item

open Text

/-- The first two tokens of an item. -/
def firstTwo (item : Item) : Except Failure (Token × Token) := do
  let (first, after) ← (Cursor.start item.position item.text).next
  let (second, _) ← after.next
  return (first, second)

theorem token_eq_firstTwo (item : Item) : item.token =
    match item.firstTwo with
    | .ok (first, second) =>
      if first.kind.isLiteral ∧ second.kind = .finish then .ok first
      else failCast (.badItem item.text none) (some item.position)
    | .error (.query (.lexical fault) position) =>
      failCast (.badItem item.text (some fault)) position
    | .error failure => .error failure := rfl

variable {item : Item} {t : Token}

theorem token_eq_ok_iff : item.token = .ok t ↔
    t.kind.isLiteral = true ∧ ∃ second, item.firstTwo = .ok (t, second) ∧ second.kind = .finish := by
  rw [token_eq_firstTwo]
  split
  · next first second ht =>
      rw [ht]
      split
      · next alone =>
          constructor
          · rintro ⟨⟩
            exact ⟨alone.1, second, rfl, alone.2⟩
          · rintro ⟨_, _, ⟨⟩, _⟩
            rfl
      · next other =>
          constructor
          · rintro ⟨⟩
          · rintro ⟨literal, _, ⟨⟩, last⟩
            exact absurd ⟨literal, last⟩ other
  · next ht => simp [ht, failCast]
  · next ht => simp [ht]

/-- The two tokens are read one after the other from the start of the item. -/
theorem exists_next_of_firstTwo {second : Token} (h : item.firstTwo = .ok (t, second)) :
    ∃ after rest, (Cursor.start item.position item.text).next = .ok (t, after) ∧
      after.next = .ok (second, rest) := by
  obtain ⟨⟨first, after⟩, hf, others⟩ := bind_eq_ok_iff.mp h
  obtain ⟨⟨next, rest⟩, hs, pair⟩ := bind_eq_ok_iff.mp others
  cases pure_eq_ok_iff.mp pair
  exact ⟨after, rest, hf, hs⟩

/-- The text of an item is that of its token, with blanks around it. -/
theorem exists_written_of_token (h : item.token = .ok t) :
    ∃ text, Padded isBlank text item.text.toList ∧ t.WrittenAs text := by
  obtain ⟨literal, second, two, hk⟩ := token_eq_ok_iff.mp h
  obtain ⟨after, rest, first, last⟩ := exists_next_of_firstTwo two
  exact Cursor.exists_written_of_next first literal last hk

theorem token_of_writtenAs {text : List Char} (h : t.WrittenAs text)
    (ht : item.text = String.ofList text) : item.token = .ok (t.moved item.position) := by
  refine token_eq_ok_iff.mpr ⟨h.isLiteral, .finish (item.position + text.length), ?_, rfl⟩
  rw [firstTwo, Cursor.start, ht, String.toList_ofList, Cursor.next_of_writtenAs h, ok_bind]
  simp only [Cursor.next_nil, ok_bind]
  rfl

theorem blanks_eq_length_iff (piece : List Char) :
    (piece.takeWhile isBlank).length = piece.length ↔ allBlank piece = true := by
  rw [allBlank, List.all_eq_true, ← List.takeWhile_eq_self_iff]
  constructor
  · exact (List.takeWhile_prefix isBlank).eq_of_length
  · intro h
    rw [h]

section

variable {position : Int} {piece : List Char} {rest : List (List Char)}

theorem ofPieces_of_blank (h : allBlank piece = true) :
    ofPieces position (piece :: rest) = failCast .emptyItem (some (position + piece.length)) := by
  simp only [ofPieces, if_pos ((blanks_eq_length_iff piece).mpr h)]

theorem ofPieces_of_visible (h : allBlank piece = false) :
    ofPieces position (piece :: rest) = do
      return ⟨String.ofList (trim isBlank piece), position + (piece.takeWhile isBlank).length⟩ ::
        (← ofPieces (position + piece.length + 1) rest) := by
  have visible : (piece.takeWhile isBlank).length ≠ piece.length := by
    rw [ne_eq, blanks_eq_length_iff, h]
    exact Bool.false_ne_true
  simp only [ofPieces, if_neg visible]

/-- The first piece has an item, and the others have theirs. -/
theorem ofPieces_cons_eq_ok_iff {items : List Item} :
    ofPieces position (piece :: rest) = .ok items ↔ allBlank piece = false ∧
      ∃ others, ofPieces (position + piece.length + 1) rest = .ok others ∧
        items = ⟨String.ofList (trim isBlank piece),
          position + (piece.takeWhile isBlank).length⟩ :: others := by
  cases blank : allBlank piece with
  | true => simp [ofPieces_of_blank blank, failCast]
  | false =>
      simp only [ofPieces_of_visible blank, bind_eq_ok_iff, pure_eq_ok_iff, true_and,
        eq_comm (b := items)]

/-- The first piece has no item, or one of the others has none. -/
theorem ofPieces_cons_eq_error_iff {failure : Failure} :
    ofPieces position (piece :: rest) = .error failure ↔
      allBlank piece = true ∧ failure = .cast .emptyItem (some (position + piece.length)) ∨
      allBlank piece = false ∧ ofPieces (position + piece.length + 1) rest = .error failure := by
  cases blank : allBlank piece with
  | true => simp [ofPieces_of_blank blank, failCast, eq_comm]
  | false =>
      rw [ofPieces_of_visible blank, bind_eq_error_iff]
      simp [pure, Except.pure]

end

theorem map_text_ofPieces {position : Int} {pieces : List (List Char)} {items : List Item}
    (h : ofPieces position pieces = .ok items) :
    items.map Item.text = pieces.map fun piece => String.ofList (trim isBlank piece) := by
  induction pieces generalizing position items with
  | nil => cases h; rfl
  | cons piece rest ih =>
      obtain ⟨_, others, ho, rfl⟩ := ofPieces_cons_eq_ok_iff.mp h
      rw [List.map_cons, List.map_cons, ih ho]

theorem exists_ofPieces {pieces : List (List Char)}
    (h : ∀ piece ∈ pieces, allBlank piece = false) (position : Int) :
    ∃ items, ofPieces position pieces = .ok items := by
  induction pieces generalizing position with
  | nil => exact ⟨[], rfl⟩
  | cons piece rest ih =>
      rw [List.forall_mem_cons] at h
      obtain ⟨others, ho⟩ := ih h.2 (position + piece.length + 1)
      exact ⟨_, ofPieces_cons_eq_ok_iff.mpr ⟨h.1, others, ho, rfl⟩⟩

end RecordFilter.Literal.Item
