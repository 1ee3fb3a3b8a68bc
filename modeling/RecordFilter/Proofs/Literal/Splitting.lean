import RecordFilter.Proofs.Literal.Item
import RecordFilter.Proofs.Text.Pieces

/-! # Splitting into items

The items of a text are what stands in its pieces, without the blanks around it, and where an item
is told to stand it does stand. Put together with the blanks and with one comma between neighbours,
they are the text again. A piece with nothing but blanks in it has no item, and the first such piece
fails the text, unless there is nothing but blanks in all of it.
-/

namespace RecordFilter.Literal.Item

open Text

/-- Each of the pieces, in front of which stands `front`, is an item with blanks around it. The item
    is told to stand as many characters behind `start` as there are in front of it. -/
inductive Placed (start : Int) : List Char → List (List Char) → List Item → Prop where
  | nil {front : List Char} : Placed start front [] []
  | cons {front before text after : List Char} {pieces : List (List Char)} {items : List Item} :
      (∀ c ∈ before, isBlank c = true) → (∀ c ∈ after, isBlank c = true) → text ≠ [] →
      Stops isBlank text → Stops isBlank text.reverse →
      Placed start (front ++ (before ++ text ++ after) ++ [',']) pieces items →
      Placed start front ((before ++ text ++ after) :: pieces)
        (⟨String.ofList text, start + (front ++ before).length⟩ :: items)

/-- The first of the pieces that is blank ends so many characters behind the beginning. -/
def FirstBlankEnds (pieces : List (List Char)) (index : Nat) : Prop :=
  ∃ before piece after, pieces = before ++ piece :: after ∧
    (∀ other ∈ before, allBlank other = false) ∧ allBlank piece = true ∧
    index = (joined (before ++ [piece])).length

private theorem allBlank_eq_false_of_stops {before text after : List Char} (h : text ≠ [])
    (first : Stops isBlank text) : allBlank (before ++ text ++ after) = false := by
  obtain ⟨c, cs, rfl⟩ := List.exists_cons_of_ne_nil h
  have visible : isBlank c = false := first c rfl
  rw [Bool.eq_false_iff]
  intro blank
  rw [List.all_eq_true.mp blank c (by simp)] at visible
  cases visible

/-- What is trimmed off a piece that is not blank are the blanks around its item. -/
theorem Placed.trimmed {start : Int} {front piece : List Char} {pieces : List (List Char)}
    {items : List Item} (visible : allBlank piece = false)
    (placed : Placed start (front ++ piece ++ [',']) pieces items) :
    Placed start front (piece :: pieces) (⟨String.ofList (trim isBlank piece),
      start + (front ++ piece.takeWhile isBlank).length⟩ :: items) := by
  obtain ⟨run, whole, blank⟩ := exists_takeWhile_append_trim isBlank piece
  obtain ⟨first, last⟩ := stops_trim isBlank piece
  have blanks : ∀ c ∈ piece.takeWhile isBlank, isBlank c = true :=
    List.all_eq_true.mp List.all_takeWhile
  have made := Placed.cons blanks blank (trim_ne_nil visible) first last (whole ▸ placed)
  rwa [← whole] at made

private theorem ofPieces_iff_placed {start : Int} {front : List Char} {pieces : List (List Char)}
    {items : List Item} :
    ofPieces (start + front.length) pieces = .ok items ↔ Placed start front pieces items := by
  induction pieces generalizing front items with
  | nil =>
      constructor
      · intro made
        cases made
        exact .nil
      · intro h
        cases h
        rfl
  | cons piece rest ih =>
      have next : start + front.length + piece.length + 1 =
          start + (front ++ piece ++ [',']).length := by
        simp only [List.length_append, List.length_singleton]
        omega
      rw [ofPieces_cons_eq_ok_iff, next]
      simp only [ih]
      constructor
      · rintro ⟨visible, others, placed, rfl⟩
        rw [Int.add_assoc, ← Int.natCast_add, ← List.length_append]
        exact .trimmed visible placed
      · intro h
        cases h with
        | @cons _ before text after _ others hb ha hne first last placed =>
            refine ⟨allBlank_eq_false_of_stops hne first, others, placed, ?_⟩
            have trimmed := trim_append_append hb ha hne first last
            have blanks : (before ++ text ++ after).takeWhile isBlank = before := by
              rw [List.append_assoc]
              exact takeWhile_append_of_stops hb (first.append_of_ne_nil hne after)
            rw [trimmed, blanks, List.length_append, Int.natCast_add, Int.add_assoc]

namespace FirstBlankEnds

variable {piece : List Char} {rest : List (List Char)} {index : Nat}

theorem here (h : allBlank piece = true) : FirstBlankEnds (piece :: rest) piece.length :=
  ⟨[], piece, rest, rfl, List.forall_mem_nil _, h, by simp [joined]⟩

theorem length_joined_cons (before : List (List Char)) (missing : List Char) :
    (joined (piece :: before ++ [missing])).length =
      piece.length + 1 + (joined (before ++ [missing])).length := by
  rw [List.cons_append, joined_cons _ (by simp), List.length_append, List.length_cons]
  omega

theorem behind (h : allBlank piece = false) (ends : FirstBlankEnds rest index) :
    FirstBlankEnds (piece :: rest) (piece.length + 1 + index) := by
  obtain ⟨before, missing, after, rfl, filled, blank, rfl⟩ := ends
  exact ⟨piece :: before, missing, after, rfl, List.forall_mem_cons.mpr ⟨h, filled⟩, blank,
    (length_joined_cons before missing).symm⟩

theorem cons_iff : FirstBlankEnds (piece :: rest) index ↔
    (allBlank piece = true ∧ index = piece.length) ∨
      allBlank piece = false ∧
        ∃ more, FirstBlankEnds rest more ∧ index = piece.length + 1 + more := by
  constructor
  · rintro ⟨before, missing, after, whole, filled, blank, rfl⟩
    cases before with
    | nil =>
        obtain ⟨rfl, rfl⟩ := List.cons.inj whole
        exact .inl ⟨blank, by simp [joined]⟩
    | cons first before =>
        obtain ⟨rfl, rfl⟩ := List.cons.inj whole
        rw [List.forall_mem_cons] at filled
        exact .inr ⟨filled.1, _, ⟨before, missing, after, rfl, filled.2, blank, rfl⟩,
          length_joined_cons before missing⟩
  · rintro (⟨blank, rfl⟩ | ⟨visible, more, ends, rfl⟩)
    · exact here blank
    · exact behind visible ends

end FirstBlankEnds

/-- A text that has a blank piece has a first one. -/
theorem exists_firstBlankEnds_iff {pieces : List (List Char)} :
    (∃ index, FirstBlankEnds pieces index) ↔ ∃ piece ∈ pieces, allBlank piece = true := by
  constructor
  · rintro ⟨_, before, piece, after, rfl, _, blank, _⟩
    exact ⟨piece, List.mem_append_right _ List.mem_cons_self, blank⟩
  · rintro ⟨piece, hp, blank⟩
    induction pieces with
    | nil => cases hp
    | cons first rest ih =>
        cases visible : allBlank first with
        | true => exact ⟨_, .here visible⟩
        | false =>
            rcases List.mem_cons.mp hp with rfl | others
            · rw [blank] at visible
              cases visible
            · obtain ⟨index, ends⟩ := ih others
              exact ⟨_, ends.behind visible⟩

theorem ofPieces_error_iff {position : Int} {pieces : List (List Char)} {failure : Failure} :
    ofPieces position pieces = .error failure ↔ ∃ index, FirstBlankEnds pieces index ∧
      failure = .cast .emptyItem (some (position + (index : Nat))) := by
  induction pieces generalizing position with
  | nil =>
      refine iff_of_false nofun ?_
      rintro ⟨_, ⟨before, _, _, pieces, _⟩, _⟩
      cases before <;> cases pieces
  | cons piece rest ih =>
      simp only [ofPieces_cons_eq_error_iff, ih, FirstBlankEnds.cons_iff]
      constructor
      · rintro (⟨blank, rfl⟩ | ⟨visible, index, ends, rfl⟩)
        · exact ⟨_, .inl ⟨blank, rfl⟩, rfl⟩
        · refine ⟨_, .inr ⟨visible, index, ends, rfl⟩, ?_⟩
          simp only [Int.natCast_add, Int.natCast_one, Int.add_assoc]
      · rintro ⟨_, ⟨blank, rfl⟩ | ⟨visible, index, ends, rfl⟩, rfl⟩
        · exact .inl ⟨blank, rfl⟩
        · refine .inr ⟨visible, index, ends, ?_⟩
          simp only [Int.natCast_add, Int.natCast_one, Int.add_assoc]

/-- The pieces of a text are told by its commas outside quotes and brackets. If all of the text is
    blank, there are no items. Otherwise the items are the pieces without the blanks around them,
    each told with the place where it stands, or, if one of the pieces is blank, the text fails
    where the first such piece ends. -/
theorem ofText_pieces (start : Int) (s : String) : ∃ pieces, PiecesOf s.toList pieces ∧
    (∀ items, ofText start s = .ok items ↔ (allBlank s.toList = true ∧ items = []) ∨
      (allBlank s.toList = false ∧ Placed start [] pieces items)) ∧
    ((∃ failure, ofText start s = .error failure) ↔
      allBlank s.toList = false ∧ ∃ piece ∈ pieces, allBlank piece = true) ∧
    ∀ failure, ofText start s = .error failure ↔ allBlank s.toList = false ∧
      ∃ index, FirstBlankEnds pieces index ∧
        failure = .cast .emptyItem (some (start + (index : Nat))) := by
  refine ⟨splitItems .start s.toList, piecesOf_splitItems s.toList, ?_⟩
  have placed (items : List Item) :=
    @ofPieces_iff_placed start [] (splitItems .start s.toList) items
  rw [List.length_nil, Int.natCast_zero, Int.add_zero] at placed
  rw [ofText]
  split
  · next blank =>
      simp only [blank, Except.ok.injEq, reduceCtorEq, Bool.true_eq_false, true_and, false_and,
        or_false, exists_false, implies_true, and_true]
      exact fun items => eq_comm
  · next visible =>
      rw [Bool.not_eq_true] at visible
      simp only [visible, placed, ofPieces_error_iff, ← exists_firstBlankEnds_iff,
        Bool.false_eq_true, false_and, false_or, true_and, implies_true, and_true]
      constructor
      · rintro ⟨failure, index, ends, _⟩
        exact ⟨index, ends⟩
      · rintro ⟨index, ends⟩
        exact ⟨_, index, ends, rfl⟩

/-- A comma in quotes and one behind a bracket that closes nothing are no marks between items. -/
example : ofText 3 " '],' ,]x,\t" = .ok [⟨"'],'", 4⟩, ⟨"]x,", 10⟩] := by decide +kernel

end RecordFilter.Literal.Item
