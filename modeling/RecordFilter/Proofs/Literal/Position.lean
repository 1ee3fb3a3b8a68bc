import RecordFilter.Proofs.Grammar.Recognition
import RecordFilter.Proofs.Literal.Failure
import RecordFilter.Proofs.Literal.List
import RecordFilter.Proofs.Predicate.Refusal
import RecordFilter.Proofs.Token.Boundary

/-! # Where items stand

The items of a list are cut out of its token and scanned anew, and where they stand is worked out
from where the list does. What is worked out is right for lists in lists too, however deep: each
item is the text of the query at the position that it is told with, and so is each list that is an
item. What is told of an item is told of a place in it, and of a missing item, of the mark that ends
it.
-/

namespace RecordFilter

open Text

/-- The text stands in the query at this position. -/
def StandsAt (query : List Char) (position : Int) (text : List Char) : Prop :=
  ∃ before after, query = before ++ text ++ after ∧ position = before.length

namespace StandsAt

variable {query text : List Char} {position : Int}

theorem zero (query : List Char) : StandsAt query 0 query := ⟨[], [], by simp, rfl⟩

/-- What stands within text that stands in the query does so too. -/
theorem within {before after : List Char} (h : StandsAt query position (before ++ text ++ after)) :
    StandsAt query (position + before.length) text := by
  obtain ⟨left, right, rfl, rfl⟩ := h
  refine ⟨left ++ before, after ++ right, ?_, ?_⟩
  · simp only [List.append_assoc]
  · simp only [List.length_append, Int.natCast_add]

theorem left {after : List Char} (h : StandsAt query position (text ++ after)) :
    StandsAt query position text := by
  have inside : StandsAt query (position + ([] : List Char).length) text := h.within
  rwa [List.length_nil, Int.natCast_zero, Int.add_zero] at inside

theorem right {before : List Char} (h : StandsAt query position (before ++ text)) :
    StandsAt query (position + before.length) text := by
  rw [← List.append_nil (before ++ text)] at h
  exact h.within

end StandsAt

namespace Cursor

/-- The next token stands where it says, and the cursor behind it too. -/
theorem standsAt_of_next {query : List Char} {c d : Cursor} {t : Token}
    (h : StandsAt query c.position c.rest) (hn : c.next = .ok (t, d)) (hk : t.kind ≠ .finish) :
    (∃ span, t.Spans span ∧ StandsAt query t.position span) ∧ StandsAt query d.position d.rest := by
  obtain ⟨span, spans, whole, here, behind⟩ := exists_spans_of_next hn hk
  rw [whole] at h
  have rest := h.right
  rw [← here] at rest
  refine ⟨⟨span, spans, rest.left⟩, ?_⟩
  rw [behind]
  exact rest.right

end Cursor

private theorem Scan.standsAt_of_mem_ofCursor {query : List Char} {c : Cursor}
    (h : StandsAt query c.position c.rest) :
    ∀ t ∈ (ofCursor c).tokens, ∃ span, t.Spans span ∧ StandsAt query t.position span := by
  fun_induction ofCursor c with
  | case1 c failure hn => exact List.forall_mem_nil _
  | case2 c t d hn hk => exact List.forall_mem_nil _
  | case3 c t d hn hk ih =>
      obtain ⟨here, rest⟩ := Cursor.standsAt_of_next h hn hk
      exact List.forall_mem_cons.mpr ⟨here, ih rest⟩

/-- A list token whose text, brackets and all, stands in the query where the token says. -/
structure Token.ListStands (query : List Char) (t : Token) : Prop where
  kind : t.kind = .list
  stands : StandsAt query t.position t.content.toList
  brackets : t.content.toList = '[' :: ((Literal.innerText t).toList ++ [']'])

theorem Token.Spans.listStands {query span : List Char} {t : Token} (h : t.Spans span)
    (hk : t.kind = .list) (stands : StandsAt query t.position span) : t.ListStands query := by
  have text := h.covers.other (by rw [hk]; decide)
  have content : t.content.toList = span := by
    rw [Token.content, text, Option.getD_some, String.toList_ofList]
  obtain ⟨body, whole⟩ := (h.writtenAs (by rw [hk]; rfl)).exists_body hk
  have brackets : t.content.toList = '[' :: (body ++ [']']) := by
    rw [whole, Token.content, Token.plain, Option.getD_some, String.toList_ofList]
  refine ⟨hk, content ▸ stands, ?_⟩
  rw [brackets, whole, Literal.innerText_brackets]

namespace Literal.Item

/-- The mark that ends a piece of a list when these pieces follow it. -/
def closingMark : List (List Char) → Char
  | [] => ']'
  | _ :: _ => ','

/-- The pieces of a list, each with the mark that ends it. -/
def marked : List (List Char) → List Char
  | [] => []
  | piece :: rest => piece ++ closingMark rest :: marked rest

private theorem marked_eq {pieces : List (List Char)} (h : pieces ≠ []) :
    marked pieces = [','].intercalate pieces ++ [']'] := by
  induction pieces with
  | nil => exact absurd rfl h
  | cons piece rest ih =>
      cases rest with
      | nil => rw [List.intercalate_singleton, marked, marked, closingMark]
      | cons second more =>
          rw [marked, ih (List.cons_ne_nil _ _), List.intercalate_cons_cons, closingMark]
          simp only [List.append_assoc, List.cons_append, List.nil_append]

private theorem marked_splitItems (body : List Char) :
    marked (splitItems .start body) = body ++ [']'] := by
  rw [marked_eq (splitItems_ne_nil _ _), intercalate_splitItems]

/-- One of the pieces, the first of which begins at `position`, is the first that is blank, and the
    failure points at the mark that ends it. -/
def ToldMissing (query : List Char) (position : Int) (pieces : List (List Char)) (failure : Failure) :
    Prop :=
  ∃ before piece after start, pieces = before ++ piece :: after ∧
    (∀ other ∈ before, allBlank other = false) ∧ allBlank piece = true ∧
    start = position + ((before.map fun other => other.length + 1).sum : Nat) ∧
    StandsAt query start (piece ++ [closingMark after]) ∧
    failure = .cast .emptyItem (some (start + piece.length))

section

variable {query : List Char} {position : Int}

private theorem standsAt_trim {piece : List Char} (h : StandsAt query position piece) :
    StandsAt query (position + (piece.takeWhile isBlank).length) (trim isBlank piece) := by
  obtain ⟨run, whole, _⟩ := exists_takeWhile_append_trim isBlank piece
  rw [whole] at h
  exact h.within

theorem standsAt_marked {piece : List Char} {rest : List (List Char)}
    (h : StandsAt query position (marked (piece :: rest))) :
    StandsAt query position (piece ++ [closingMark rest]) ∧
      StandsAt query (position + piece.length + 1) (marked rest) := by
  have split : marked (piece :: rest) = piece ++ [closingMark rest] ++ marked rest := by
    rw [marked, List.append_assoc, List.singleton_append]
  rw [split] at h
  refine ⟨h.left, ?_⟩
  have behind := h.right
  rwa [List.length_append, List.length_singleton, Int.natCast_add, ← Int.add_assoc] at behind

private theorem standsAt_of_ofPieces {pieces : List (List Char)} {items : List Item}
    (h : StandsAt query position (marked pieces)) (made : ofPieces position pieces = .ok items) :
    ∀ item ∈ items, StandsAt query item.position item.text.toList := by
  induction pieces generalizing position items with
  | nil =>
      cases made
      exact List.forall_mem_nil _
  | cons piece rest ih =>
      obtain ⟨first, behind⟩ := standsAt_marked h
      obtain ⟨_, others, ho, rfl⟩ := ofPieces_cons_eq_ok_iff.mp made
      refine List.forall_mem_cons.mpr ⟨?_, ih behind ho⟩
      rw [String.toList_ofList]
      exact standsAt_trim first.left

private theorem toldMissing_of_ofPieces {pieces : List (List Char)} {failure : Failure}
    (h : StandsAt query position (marked pieces))
    (failed : ofPieces position pieces = .error failure) :
    ToldMissing query position pieces failure := by
  induction pieces generalizing position with
  | nil => cases failed
  | cons piece rest ih =>
      obtain ⟨first, behind⟩ := standsAt_marked h
      rcases ofPieces_cons_eq_error_iff.mp failed with ⟨blank, rfl⟩ | ⟨visible, failed⟩
      · exact ⟨[], piece, rest, position, rfl, List.forall_mem_nil _, blank, by simp, first, rfl⟩
      · obtain ⟨before, missing, after, start, rfl, filled, blank, place, stands, told⟩ :=
          ih behind failed
        refine ⟨piece :: before, missing, after, start, rfl,
          List.forall_mem_cons.mpr ⟨visible, filled⟩, blank, ?_, stands, told⟩
        rw [place, List.map_cons, List.sum_cons]
        omega

/-- Each item ends before the piece of the next one begins. -/
theorem ordered_of_ofPieces {pieces : List (List Char)} {items : List Item}
    (made : ofPieces position pieces = .ok items) :
    items.Pairwise fun first second => first.last < second.position := by
  induction pieces generalizing position items with
  | nil =>
      cases made
      exact .nil
  | cons piece rest ih =>
      obtain ⟨_, others, ho, rfl⟩ := ofPieces_cons_eq_ok_iff.mp made
      have fits : Fits _ _ (ofPieces (position + piece.length + 1) rest) :=
        fits_ofPieces (Int.le_refl _)
      rw [ho] at fits
      refine List.pairwise_cons.mpr ⟨fun second hs => ?_, ih ho⟩
      have behind := (fits.of_ok second hs).first
      have inner := length_blanks_trim piece
      simp only [last, String.toList_ofList]
      omega

end

end Literal.Item

/-- A list token that comes up when the literals of a query are cast: a token of the query, or that
    of an item of such a list. -/
inductive ListIn (query : String) : Token → Prop where
  | token {t} : t ∈ (Scan.ofText 0 query).tokens → t.kind = .list → ListIn query t
  | item {t items item u} : ListIn query t →
      Literal.Item.ofText (t.position + 1) (Literal.innerText t) = .ok items → item ∈ items →
      item.token = .ok u → u.kind = .list → ListIn query u

namespace Token.ListStands

variable {query : List Char} {t : Token}

/-- The pieces of a list stand behind its opening bracket, up to the closing one. -/
theorem standsAt_marked (h : t.ListStands query) :
    StandsAt query (t.position + 1)
      (Literal.Item.marked (splitItems .start (Literal.innerText t).toList)) := by
  have stands := h.stands
  rw [h.brackets, ← List.singleton_append] at stands
  rw [Literal.Item.marked_splitItems]
  exact stands.right

theorem standsAt_of_ofText (h : t.ListStands query) {items : List Literal.Item}
    (made : Literal.Item.ofText (t.position + 1) (Literal.innerText t) = .ok items) :
    ∀ item ∈ items, StandsAt query item.position item.text.toList := by
  unfold Literal.Item.ofText at made
  split at made
  · cases made
    exact List.forall_mem_nil _
  · exact Literal.Item.standsAt_of_ofPieces h.standsAt_marked made

private theorem ordered_of_ofText {items : List Literal.Item}
    (made : Literal.Item.ofText (t.position + 1) (Literal.innerText t) = .ok items) :
    items.Pairwise fun first second => first.last < second.position := by
  unfold Literal.Item.ofText at made
  split at made
  · cases made
    exact .nil
  · exact Literal.Item.ordered_of_ofPieces made

private theorem toldMissing_of_ofText (h : t.ListStands query) {failure : Failure}
    (failed : Literal.Item.ofText (t.position + 1) (Literal.innerText t) = .error failure) :
    Literal.Item.ToldMissing query (t.position + 1)
      (splitItems .start (Literal.innerText t).toList) failure := by
  unfold Literal.Item.ofText at failed
  split at failed
  · cases failed
  · exact Literal.Item.toldMissing_of_ofPieces h.standsAt_marked failed

end Token.ListStands

private theorem Literal.Item.listStands_of_token {query : List Char} {item : Item} {u : Token}
    (h : StandsAt query item.position item.text.toList) (token : item.token = .ok u)
    (hk : u.kind = .list) : u.ListStands query := by
  obtain ⟨_, second, two, _⟩ := token_eq_ok_iff.mp token
  obtain ⟨after, _, next, _⟩ := exists_next_of_firstTwo two
  obtain ⟨⟨span, spans, stands⟩, _⟩ := Cursor.standsAt_of_next h next (by rw [hk]; decide)
  exact spans.listStands hk stands

private theorem ListIn.listStands {query : String} {t : Token} (h : ListIn query t) :
    t.ListStands query.toList := by
  induction h with
  | token ht hk =>
      obtain ⟨span, spans, stands⟩ := Scan.standsAt_of_mem_ofCursor (.zero query.toList) _ ht
      exact spans.listStands hk stands
  | item _ made hi token hk ih =>
      exact Literal.Item.listStands_of_token (ih.standsAt_of_ofText made _ hi) token hk

namespace Literal

/-- A list is refused for a missing item or for what the token of an item is refused for. -/
theorem refused_item {levels : Nat} {t : Token} {failure : Failure} (hk : t.kind = .list)
    (failed : castWithin (levels + 1) t = .error failure) :
    Item.ofText (t.position + 1) (innerText t) = .error failure ∨
      ∃ items item, Item.ofText (t.position + 1) (innerText t) = .ok items ∧ item ∈ items ∧
        (do castWithin levels (← item.token)) = .error failure := by
  rw [castWithin, if_pos hk] at failed
  rcases bind_eq_error_iff.mp failed with missing | ⟨items, made, given⟩
  · exact .inl missing
  · obtain ⟨item, hi, refused⟩ := exists_error_of_mapM (error_of_bind_pure given)
    exact .inr ⟨items, item, made, hi, refused⟩

end Literal

/-- A list stands in the query as its token says, and its items stand where they are told to. -/
structure Token.ItemsPlaced (query : List Char) (t : Token) : Prop where
  list : StandsAt query t.position t.content.toList
  /-- Every item stands between the brackets. -/
  item : ∀ items, Literal.Item.ofText (t.position + 1) (Literal.innerText t) = .ok items →
    ∀ item ∈ items, StandsAt query item.position item.text.toList ∧
      t.position < item.position ∧ item.last < t.last
  /-- No item begins before the one in front of it has ended. -/
  ordered : ∀ items, Literal.Item.ofText (t.position + 1) (Literal.innerText t) = .ok items →
    items.Pairwise fun first second => first.last < second.position
  /-- What the token of an item is refused for is told of a place in the item. -/
  refused : ∀ items, Literal.Item.ofText (t.position + 1) (Literal.innerText t) = .ok items →
    ∀ item ∈ items, ∀ levels failure,
      (do Literal.castWithin levels (← item.token)) = .error failure →
        failure.Within item.position item.last
  /-- A missing item is told of the mark that ends it, a comma or the closing bracket. -/
  missing : ∀ failure,
    Literal.Item.ofText (t.position + 1) (Literal.innerText t) = .error failure →
      Literal.Item.ToldMissing query (t.position + 1)
        (splitItems .start (Literal.innerText t).toList) failure ∧
      failure.Within (t.position + 1) t.last
  /-- A list that may be nested so deep is refused for nothing else. -/
  complete : ∀ levels failure, Literal.castWithin (levels + 1) t = .error failure →
    Literal.Item.ofText (t.position + 1) (Literal.innerText t) = .error failure ∨
      ∃ items item, Literal.Item.ofText (t.position + 1) (Literal.innerText t) = .ok items ∧
        item ∈ items ∧ (do Literal.castWithin levels (← item.token)) = .error failure

private theorem Token.ListStands.itemsPlaced {query : List Char} {t : Token}
    (h : t.ListStands query) :
    t.ItemsPlaced query := by
  have fits := Literal.Item.fits_ofText (t.position + 1) (Literal.innerText t)
  have length := congrArg List.length h.brackets
  have reach : t.reach = t.content.toList.length := if_pos h.kind
  rw [List.length_cons, List.length_append, List.length_singleton] at length
  constructor
  case list => exact h.stands
  case item =>
    intro items made item hi
    rw [made] at fits
    obtain ⟨visible, low, high⟩ := fits.of_ok item hi
    have some_text := List.length_pos_iff.mpr visible
    refine ⟨h.standsAt_of_ofText made item hi, by omega, ?_⟩
    rw [Literal.Item.last, Token.last]
    omega
  case ordered => exact fun items made => ordered_of_ofText made
  case refused =>
    intro items made item hi levels failure failed
    rw [made] at fits
    have place := Literal.Item.located_cast (Literal.located_castWithin_last levels)
      (fits.of_ok item hi).visible
    rw [failed] at place
    exact place.within
  case missing =>
    intro failure failed
    rw [failed] at fits
    refine ⟨h.toldMissing_of_ofText failed, fits.within.mono (Int.le_refl _) ?_⟩
    rw [Token.last]
    omega
  case complete =>
    intro levels failure failed
    exact Literal.refused_item h.kind failed

/-- A query that is read has all its literals among its tokens. -/
theorem mem_tokens_of_literalsOf {limit : Int} {query : String} {items : List StreamItem}
    (h : StreamItem.ofText limit query = .ok items) :
    ∀ t ∈ literalsOf items, t ∈ (Scan.ofText 0 query).tokens := by
  obtain ⟨e, position, scanned, rfl, _⟩ := Grammar.exists_expression_of_ofText h
  rw [scanned]
  exact Alternates.literals (e.alternates fun t ht _ => ht)

/-- Every list that comes up when the literals of a query are cast stands in the query, at every
    depth, and so do its items, between its brackets and one behind the other. A missing item is
    told of the mark that ends it, and all else that an item is refused for is told of a place in
    the item. -/
theorem items_stand_in_query (query : String) :
    (∀ limit items, StreamItem.ofText limit query = .ok items →
      ∀ t ∈ literalsOf items, t.kind = .list → ListIn query t) ∧
    ∀ t, ListIn query t → t.ItemsPlaced query.toList := by
  constructor
  · intro limit items read t ht hk
    exact .token (mem_tokens_of_literalsOf read t ht) hk
  · intro t h
    exact h.listStands.itemsPlaced

/-- A list in a list with blanks around everything, whose second item is missing. -/
theorem items_stand_in_query_nested : ∃ outer inner : Token,
    (inner.kind, inner.content, inner.position) = (.list, "[\t2 ,]", 10) ∧
    StreamItem.ofText 3 "a in [ 1, [\t2 ,] ]" = .ok [.comparison "a" .memberOf outer] ∧
    Literal.Item.ofText (outer.position + 1) (Literal.innerText outer) =
      .ok [⟨"1", 7⟩, ⟨"[\t2 ,]", 10⟩] ∧
    StandsAt "a in [ 1, [\t2 ,] ]".toList 10 "[\t2 ,]".toList ∧
    (do Literal.castWithin 1 (← Literal.Item.token ⟨"[\t2 ,]", 10⟩)) =
      .error (.cast .emptyItem (some 15)) ∧
    (Failure.cast .emptyItem (some 15)).Within 10 15 ∧
    ListIn "a in [ 1, [\t2 ,] ]" inner ∧ inner.ItemsPlaced "a in [ 1, [\t2 ,] ]".toList := by
  have scanned : Scan.ofText 0 "a in [ 1, [\t2 ,] ]" =
      ⟨[.plain .identifier 0 ['a'], .plain .memberOf 2 ['i', 'n'],
        .plain .list 5 "[ 1, [\t2 ,] ]".toList], .finish 18⟩ := by decide +kernel
  have read : StreamItem.ofText 3 "a in [ 1, [\t2 ,] ]" =
      .ok [.comparison "a" .memberOf (.plain .list 5 "[ 1, [\t2 ,] ]".toList)] := by
    rw [StreamItem.ofText, scanned]
    rfl
  have made : Literal.Item.ofText 6 (Literal.innerText (.plain .list 5 "[ 1, [\t2 ,] ]".toList)) =
      .ok [⟨"1", 7⟩, ⟨"[\t2 ,]", 10⟩] := by decide +kernel
  have token : Literal.Item.token ⟨"[\t2 ,]", 10⟩ = .ok (.plain .list 10 "[\t2 ,]".toList) := by
    decide +kernel
  have missing : Literal.Item.ofText 11 (Literal.innerText (.plain .list 10 "[\t2 ,]".toList)) =
      .error (.cast .emptyItem (some 15)) := by decide +kernel
  have refused : (do Literal.castWithin 1 (← Literal.Item.token ⟨"[\t2 ,]", 10⟩)) =
      .error (.cast .emptyItem (some 15)) := by
    rw [token, ok_bind, Literal.castWithin]
    exact congrArg (· >>= _) missing
  have last : (⟨"[\t2 ,]", 10⟩ : Literal.Item) ∈ [⟨"1", 7⟩, ⟨"[\t2 ,]", 10⟩] :=
    List.mem_cons_of_mem _ List.mem_cons_self
  obtain ⟨literals, lists⟩ := items_stand_in_query "a in [ 1, [\t2 ,] ]"
  have outer := literals 3 _ read _ List.mem_cons_self rfl
  have inner : ListIn _ _ := .item outer made last token rfl
  exact ⟨_, _, rfl, read, made, ((lists _ outer).item _ made _ last).1, refused,
    (lists _ outer).refused _ made _ last 1 _ refused, inner, lists _ inner⟩

end RecordFilter
