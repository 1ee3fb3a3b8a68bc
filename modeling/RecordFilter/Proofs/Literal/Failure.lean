import RecordFilter.Proofs.Literal.Refusal
import RecordFilter.Proofs.Token.Tiling

/-! # Literals that cannot be cast

A failure to cast points at the token, or into its text if the token is a list: the items are cut
out of that text, so each item and each token that is read from one stands inside it.
-/

namespace RecordFilter

/-- The last place that a failure to cast the token can point at: the closing bracket of a list, and
    of any other token its beginning. -/
def Token.last (t : Token) : Int := t.position + (t.reach - 1 : Nat)

namespace Literal

open Text

section

variable (s : String) (position : Int)

theorem located_failCast {α : Type} (P : α → Prop) (fault : CastFault) :
    Located position position P (failCast fault (some position)) :=
  .error (.cast fault (Int.le_refl _) (Int.le_refl _))

private theorem located_castText (cast : Option String) :
    Located position position (fun _ => True) (castText s cast (some position)) := by
  unfold castText
  split
  · exact .ok trivial
  · split
    · unfold castDate
      split
      · exact .ok trivial
      · exact located_failCast position _ _
      · exact located_failCast position _ _
    · split
      · unfold castDateTime
        split
        · exact .ok trivial
        · exact located_failCast position _ _
        · exact located_failCast position _ _
      · exact located_failCast position _ _

private theorem located_castNumber :
    Located position position (fun _ => True) (castNumber s (some position)) := by
  unfold castNumber
  split
  · split
    · split
      · exact .ok trivial
      · exact located_failCast position _ _
    · exact located_failCast position _ _
  · split
    · exact .ok trivial
    · exact located_failCast position _ _

theorem located_castScalar (t : Token) :
    Located t.position t.position (fun _ => True) (castScalar t) := by
  unfold castScalar
  split
  · exact .ok trivial
  · exact .ok trivial
  · exact located_castText _ _ _
  · exact located_castNumber _ _
  · exact .error (.query _ (Int.le_refl _) (Int.le_refl _))

end

namespace Item

/-- The item has a text, which stands between these two positions. -/
structure Inside (low high : Int) (item : Item) : Prop where
  visible : item.text.toList ≠ []
  first : low ≤ item.position
  last : item.position + item.text.toList.length ≤ high

theorem Inside.mono {low high low' high' : Int} {item : Item} (h : item.Inside low high)
    (hl : low' ≤ low) (hh : high ≤ high') : item.Inside low' high' :=
  ⟨h.visible, Int.le_trans hl h.first, Int.le_trans h.last hh⟩

/-- Cutting items out of the text between two positions fails there or gives items that stand there.
    -/
def Fits (low high : Int) : Except Failure (List Item) → Prop :=
  Located low high fun items => ∀ item ∈ items, item.Inside low high

theorem Fits.mono {low high low' high' : Int} {x : Except Failure (List Item)}
    (h : Fits low high x) (hl : low' ≤ low) (hh : high ≤ high') : Fits low' high' x :=
  Located.mono h hl hh fun _ each item hi => (each item hi).mono hl hh

theorem length_blanks_trim (piece : List Char) :
    (piece.takeWhile isBlank).length + (trim isBlank piece).length ≤ piece.length := by
  obtain ⟨run, whole, _⟩ := exists_takeWhile_append_trim isBlank piece
  calc
    (piece.takeWhile isBlank).length + (trim isBlank piece).length
        ≤ (piece.takeWhile isBlank).length + (trim isBlank piece).length + run.length :=
        Nat.le_add_right _ _
    _ = piece.length := by
        rw [← List.length_append, ← List.length_append, ← whole]

theorem fits_ofPieces {position high : Int} {pieces : List (List Char)}
    (h : position + ([','].intercalate pieces).length ≤ high) :
    Fits position high (ofPieces position pieces) := by
  induction pieces generalizing position with
  | nil => exact .ok (List.forall_mem_nil _)
  | cons piece rest ih =>
      have room : position + piece.length ≤ high ∧
          Fits position high (ofPieces (position + piece.length + 1) rest) := by
        cases rest with
        | nil =>
            rw [List.intercalate_singleton] at h
            exact ⟨h, .ok (List.forall_mem_nil _)⟩
        | cons second more =>
            rw [List.intercalate_cons_cons, List.length_append, List.length_append,
              List.length_singleton] at h
            exact ⟨by omega, (ih (by omega)).mono (by omega) (Int.le_refl _)⟩
      cases blank : allBlank piece with
      | true =>
          rw [ofPieces_of_blank blank]
          exact .error (.cast _ (by omega) room.1)
      | false =>
          rw [ofPieces_of_visible blank]
          have inner := length_blanks_trim piece
          refine Located.bind room.2 fun others each =>
            .ok (List.forall_mem_cons.mpr ⟨⟨?_, ?_, ?_⟩, each⟩)
          · rw [String.toList_ofList]
            exact trim_ne_nil blank
          · exact Int.le_add_of_nonneg_right (Int.natCast_nonneg _)
          · simp only [String.toList_ofList]
            omega

theorem fits_ofText (position : Int) (s : String) :
    Fits position (position + s.toList.length) (ofText position s) := by
  unfold ofText
  split
  · exact .ok (List.forall_mem_nil _)
  · apply fits_ofPieces
    exact Int.le_of_eq (by rw [intercalate_splitItems])

/-- Where the last character of the item stands. -/
def last (item : Item) : Int := item.position + (item.text.toList.length - 1 : Nat)

/-- The token of an item stands in the item, and the item has no token for a reason that is told of
    a place in it. -/
theorem located_token {item : Item} (visible : item.text.toList ≠ []) :
    Located item.position item.last (fun t => item.position ≤ t.position ∧ t.last ≤ item.last)
      item.token := by
  have length := List.length_pos_iff.mpr visible
  rw [token_eq_firstTwo]
  cases two : item.firstTwo with
  | error failure =>
      obtain ⟨fault, position, rfl, first, last⟩ := isLexical_of_firstTwo two
      exact .error (.cast _ first (by rw [Item.last]; omega))
  | ok found =>
      obtain ⟨t, second⟩ := found
      simp only
      split
      · next alone =>
          obtain ⟨after, _, next, _⟩ := exists_next_of_firstTwo two
          have literal : t.kind ≠ .finish := by
            intro hk
            rw [hk] at alone
            cases alone.1
          -- The token takes up a piece of the item that is not empty, so it ends behind its beginning.
          obtain ⟨span, spans, _, _, behind⟩ := Cursor.exists_spans_of_next next literal
          have some_text := List.length_pos_iff.mpr spans.ne_nil
          obtain ⟨⟨low, high⟩, same⟩ := Cursor.inside_of_next next
          have stop := after.position_le_stop
          have whole : after.stop = item.position + item.text.toList.length := same
          refine .ok ⟨low, ?_⟩
          rw [Token.last, Item.last]
          omega
      · exact .error (.cast _ (Int.le_refl _) (by rw [Item.last]; omega))

end Item

private theorem length_innerText (t : Token) :
    (innerText t).toList.length = t.content.toList.length - 2 := by
  simp only [innerText, String.toList_ofList, List.length_dropLast, List.length_drop]
  omega

/-- The items of a list stand between its brackets. -/
theorem fits_items {t : Token} (h : t.kind = .list) :
    Item.Fits t.position t.last (Item.ofText (t.position + 1) (innerText t)) := by
  have length := length_innerText t
  cases blank : allBlank (innerText t).toList with
  | true =>
      rw [Item.ofText, if_pos blank]
      exact .ok (List.forall_mem_nil _)
  | false =>
      have some_text : (innerText t).toList ≠ [] := by
        intro none
        rw [none] at blank
        cases blank
      have := List.length_pos_iff.mpr some_text
      have reach : t.reach = t.content.toList.length := if_pos h
      apply Item.Fits.mono (Item.fits_ofText _ _)
      · omega
      · rw [Token.last]
        omega

/-- What the token of an item is refused for is told of a place in the item. -/
theorem Item.located_cast {levels : Nat}
    (each : ∀ t, Located t.position t.last (fun _ => True) (castWithin levels t)) {item : Item}
    (visible : item.text.toList ≠ []) :
    Located item.position item.last (fun _ => True) (do castWithin levels (← item.token)) :=
  (located_token visible).bind fun t inside => (each t).widen inside.1 inside.2

/-- A failure to cast a token points at the token or, if it is a list, into its text. -/
theorem located_castWithin_last (levels : Nat) (t : Token) :
    Located t.position t.last (fun _ => True) (castWithin levels t) := by
  have here (t : Token) : t.position ≤ t.last := Int.le_add_of_nonneg_right (Int.natCast_nonneg _)
  have scalar (t : Token) := (located_castScalar t).widen (Int.le_refl _) (here t)
  induction levels generalizing t with
  | zero =>
      rw [castWithin]
      split
      · exact (located_failCast _ _ _).widen (Int.le_refl _) (here t)
      · exact scalar t
  | succ levels ih =>
      rw [castWithin]
      split
      · next hk =>
          refine Located.bind (fits_items hk) fun items each => ?_
          refine Located.bind (Located.mapM (Q := fun _ => True) ?_) fun _ _ => .ok trivial
          intro item hi
          have place := each item hi
          have length := List.length_pos_iff.mpr place.visible
          have high := place.last
          exact (Item.located_cast ih place.visible).widen place.first (by rw [Item.last]; omega)
      · exact scalar t

theorem located_castWithin (levels : Nat) (t : Token) :
    Located t.position (t.position + t.reach) (fun _ => True) (castWithin levels t) :=
  (located_castWithin_last levels t).widen (Int.le_refl _) (by rw [Token.last]; omega)

end Literal

end RecordFilter
