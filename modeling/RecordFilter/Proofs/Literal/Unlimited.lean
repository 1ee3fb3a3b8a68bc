import RecordFilter.Proofs.Literal.Item
import RecordFilter.Proofs.Literal.Spellable
import RecordFilter.Proofs.Recursion
import RecordFilter.Proofs.Text.Pieces

/-! # Lists without a limit

How deep lists may be nested is limited, but casting does not need the limit to end. An item of a
list does without the two brackets, so its text is shorter, and the token in it has no more
characters than the text. Casting without a limit is thus a recursion that ends, and a limit that is
large enough for the text of a token makes no difference.
-/

namespace RecordFilter

open Text

namespace Text

/-- What is unquoted has at least the closing quote less. -/
theorem length_lt_of_unquote? {cs content : List Char} {width : Nat}
    (h : unquote? cs = some (content, width)) : content.length < width := by
  fun_induction unquote? cs generalizing content width with
  | case1 => cases h
  | case2 => cases h; exact Nat.one_pos
  | case3 => cases h
  | case4 => cases h; exact Nat.one_pos
  | case5 c d cs _ _ ih =>
      obtain ⟨⟨text, w⟩, inner, he⟩ := Option.map_eq_some_iff.mp h
      cases he
      exact Nat.lt_succ_of_lt (Nat.succ_lt_succ (ih inner))
  | case6 c d cs _ _ ih =>
      obtain ⟨⟨text, w⟩, inner, he⟩ := Option.map_eq_some_iff.mp h
      cases he
      exact Nat.succ_lt_succ (ih inner)

private theorem length_trim_le (p : Char → Bool) (cs : List Char) :
    (trim p cs).length ≤ cs.length := by
  obtain ⟨run, whole, _⟩ := exists_takeWhile_append_trim p cs
  have length := congrArg List.length whole
  simp only [List.length_append] at length
  omega

private theorem length_le_joined {piece : List Char} {pieces : List (List Char)}
    (h : piece ∈ pieces) :
    piece.length ≤ (joined pieces).length := by
  induction pieces with
  | nil => cases h
  | cons first rest ih =>
      cases rest with
      | nil =>
          rw [List.mem_singleton.mp h, joined, List.intercalate_singleton]
      | cons second more =>
          rw [joined_cons first (List.cons_ne_nil second more), List.length_append, List.length_cons]
          rcases List.mem_cons.mp h with rfl | h
          · exact Nat.le_add_right _ _
          · have := ih h
            omega

end Text

/-- No literal has more characters than it is written with. -/
theorem Token.WrittenAs.length_content_le {t : Token} {cs : List Char} (h : t.WrittenAs cs) :
    t.content.toList.length ≤ cs.length := by
  cases h with
  | number => simp [content, plain]
  | quoted alone =>
      have := length_lt_of_unquote? alone
      simp only [content, Option.getD_some, String.toList_ofList, List.length_cons]
      omega
  | cast alone =>
      have := length_lt_of_unquote? alone
      simp only [content, Option.getD_some, String.toList_ofList, List.length_cons,
        List.length_append]
      omega
  | word => simp [content, plain]
  | list => simp [content, plain]

namespace Literal

namespace Item

variable {items : List Item} {item : Item} {position : Int}

private theorem length_text_of_mem {s : String} (h : ofText position s = .ok items)
    (hi : item ∈ items) :
    item.text.toList.length ≤ s.toList.length := by
  rw [ofText] at h
  split at h
  · cases h
    cases hi
  · have texts := map_text_ofPieces h
    have text : item.text ∈ items.map Item.text := List.mem_map_of_mem hi
    rw [texts] at text
    obtain ⟨piece, hp, whole⟩ := List.mem_map.mp text
    have trimmed := length_trim_le isBlank piece
    have shorter := length_le_joined hp
    rw [joined, intercalate_splitItems] at shorter
    rw [← whole, String.toList_ofList]
    exact Nat.le_trans trimmed shorter

private theorem length_content_of_token {u : Token} (h : item.token = .ok u) :
    u.content.toList.length ≤ item.text.toList.length := by
  obtain ⟨text, ⟨before, after, whole, _⟩, written⟩ := exists_written_of_token h
  have shorter := written.length_content_le
  rw [whole, List.length_append, List.length_append]
  omega

end Item

/-- An item of a list has at least two characters less than the list. -/
theorem length_item_of_innerText {t : Token} {position : Int} {items : List Item} {item : Item}
    (h : Item.ofText position (innerText t) = .ok items) (hi : item ∈ items) :
    item.text.toList.length + 2 ≤ t.content.toList.length := by
  have shorter := Item.length_text_of_mem h hi
  have inner : (innerText t).toList = (t.content.toList.drop 1).dropLast := String.toList_ofList
  rw [inner, List.length_dropLast, List.length_drop] at shorter
  by_cases brackets : 2 ≤ t.content.toList.length
  · omega
  · -- Without two brackets there is nothing inside, so there are no items.
    have nothing : (innerText t).toList = [] := by
      rw [inner, ← List.length_eq_zero_iff, List.length_dropLast, List.length_drop]
      omega
    rw [Item.ofText, nothing] at h
    cases h
    cases hi

/-- The literal of a token when the tokens in a list are cast by `cast`. -/
def castVia (cast : Token → Except Failure Literal) (t : Token) : Except Failure Literal :=
  if t.kind = .list then do
    let items ← Item.ofText (t.position + 1) (innerText t)
    return list (← items.mapM fun item => do cast (← item.token))
  else castScalar t

private theorem castWithin_succ (levels : Nat) :
    castWithin (levels + 1) = castVia (castWithin levels) := rfl

variable {cast other : Token → Except Failure Literal} {t : Token}

/-- The tokens that are cast on the way have at least two characters less. -/
theorem castVia_congr
    (agree : ∀ u : Token, u.content.toList.length + 2 ≤ t.content.toList.length → cast u = other u) :
    castVia cast t = castVia other t := by
  unfold castVia
  split
  · refine bind_congr_of_ok fun items cut => ?_
    have each : ∀ item ∈ items, (item.token >>= cast) = item.token >>= other := by
      intro item hi
      refine bind_congr_of_ok fun u token => agree u ?_
      have two := length_item_of_innerText cut hi
      have := Item.length_content_of_token token
      omega
    rw [mapM_congr each]
  · rfl

theorem descends_castVia :
    Descends (fun t : Token => t.content.toList.length) (fun _ _ => True) castVia := by
  constructor
  case asks_smaller =>
    intro f g t agree
    apply castVia_congr
    intro u shorter
    exact (agree u (by omega)).1
  case answers => exact fun _ _ _ => trivial

/-- A limit that the text of the token cannot reach makes no difference. -/
theorem castWithin_eq_of_solution (h : Solves castVia cast) {levels : Nat}
    (enough : t.content.toList.length < 2 * levels) : castWithin levels t = cast t := by
  induction levels generalizing t with
  | zero => exact absurd enough (Nat.not_lt_zero _)
  | succ levels ih =>
      rw [h, castWithin_succ]
      apply castVia_congr
      intro u shorter
      exact ih (by omega)

end Literal
end RecordFilter
