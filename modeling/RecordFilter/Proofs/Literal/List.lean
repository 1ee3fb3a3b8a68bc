import RecordFilter.Proofs.Identifier
import RecordFilter.Proofs.Literal.Item
import RecordFilter.Proofs.Literal.Spellable

/-! # List literals

A list is scanned three times: for its closing bracket, for its commas, and item by item. The pieces
between its commas, padded with blanks, are texts of literals, and such texts are passed over by the
first two scans and read whole by the third. So a list is read exactly as its items are.
-/

namespace RecordFilter.Literal

open Text

section

variable {s : String} {l : Literal} {p : Option Int}

private theorem castDate_of_ok (h : castDate s p = .ok l) (q : Option Int) :
    castDate s q = .ok l := by
  unfold castDate at h ⊢
  cases hd : Date.read s with
  | read d => rwa [hd] at h
  | impossible => rw [hd] at h; cases h
  | otherForm => rw [hd] at h; cases h

private theorem castDateTime_of_ok (h : castDateTime s p = .ok l) (q : Option Int) :
    castDateTime s q = .ok l := by
  unfold castDateTime at h ⊢
  cases hz : ZonedDateTime.read s with
  | read z => rwa [hz] at h
  | impossible => rw [hz] at h; cases h
  | otherForm => rw [hz] at h; cases h

private theorem castText_of_ok {cast : Option String} (h : castText s cast p = .ok l)
    (q : Option Int) :
    castText s cast q = .ok l := by
  cases cast with
  | none => exact h
  | some name =>
      simp only [castText] at h ⊢
      by_cases date : name = "DATE"
      · rw [if_pos date] at h ⊢
        exact castDate_of_ok h q
      · by_cases datetime : name = "DATETIME"
        · rw [if_neg date, if_pos datetime] at h ⊢
          exact castDateTime_of_ok h q
        · rw [if_neg date, if_neg datetime] at h
          cases h

private theorem castNumber_of_ok (h : castNumber s p = .ok l) (q : Option Int) :
    castNumber s q = .ok l := by
  unfold castNumber at h ⊢
  split at h
  · next float =>
      rw [if_pos float]
      split at h
      · split at h
        · next finite =>
            cases h
            exact dif_pos finite
        · cases h
      · cases h
  · next whole =>
      rw [if_neg whole]
      split at h
      · exact h
      · cases h

end

variable {levels : Nat} {t : Token} {l : Literal}

private theorem castScalar_moved (h : castScalar t = .ok l) (q : Int) :
    castScalar (t.moved q) = .ok l := by
  unfold castScalar Token.moved at *
  cases hk : t.kind with
  | boolean => rwa [hk] at h
  | null => rwa [hk] at h
  | quoted =>
      rw [hk] at h
      exact castText_of_ok h _
  | number =>
      rw [hk] at h
      exact castNumber_of_ok h _
  | _ =>
      rw [hk] at h
      cases h

/-- The literal that a piece between commas is cast to. -/
def PieceCast (levels : Nat) (piece : List Char) (l : Literal) : Prop :=
  ∃ t : Token, t.WrittenAs (trim isBlank piece) ∧ castWithin levels t = .ok l

/-- The literals that the text between the brackets of a list is cast to. -/
def BodyCast (levels : Nat) (body : List Char) (items : List Literal) : Prop :=
  (allBlank body = true ∧ items = []) ∨
    (allBlank body = false ∧ List.Forall₂ (PieceCast levels) (splitItems .start body) items)

theorem allBlank_eq_false_of_written {piece : List Char}
    (h : t.WrittenAs (trim isBlank piece)) : allBlank piece = false := by
  rw [Bool.eq_false_iff]
  intro blank
  apply h.ne_nil
  have dropped : piece.dropWhile isBlank = [] :=
    List.dropWhile_eq_nil_iff.mpr (List.all_eq_true.mp blank)
  rw [trim, trimStart, dropped]
  rfl

section

variable (moved : ∀ {t : Token} {l : Literal}, castWithin levels t = .ok l → ∀ q,
  castWithin levels (t.moved q) = .ok l)
include moved

theorem castItem_eq_ok_iff {item : Item} {piece : List Char}
    (ht : item.text = String.ofList (trim isBlank piece)) :
    (do castWithin levels (← item.token)) = .ok l ↔ PieceCast levels piece l := by
  rw [bind_eq_ok_iff]
  constructor
  · rintro ⟨t, token, cast⟩
    obtain ⟨text, padded, written⟩ := Item.exists_written_of_token token
    rw [ht, String.toList_ofList] at padded
    have whole := padded.trim_eq written.ne_nil written.ends.1 written.ends.2
    rw [trim_trim] at whole
    exact ⟨t, whole ▸ written, cast⟩
  · rintro ⟨t, written, cast⟩
    exact ⟨_, Item.token_of_writtenAs written ht, moved cast _⟩

theorem castItems_eq_ok_iff {items : List Item} {pieces : List (List Char)} {ls : List Literal}
    (ht : items.map Item.text = pieces.map fun piece => String.ofList (trim isBlank piece)) :
    (items.mapM fun item => do castWithin levels (← item.token)) = .ok ls ↔
      List.Forall₂ (PieceCast levels) pieces ls := by
  rw [mapM_eq_ok_iff]
  induction items generalizing pieces ls with
  | nil =>
      rw [List.map_nil, eq_comm, List.map_eq_nil_iff] at ht
      rw [ht, List.forall₂_nil_left_iff, List.forall₂_nil_left_iff]
  | cons item items ih =>
      cases pieces with
      | nil => cases ht
      | cons piece pieces =>
          rw [List.map_cons, List.map_cons, List.cons.injEq] at ht
          simp only [List.forall₂_cons_left_iff, castItem_eq_ok_iff moved ht.1, ih ht.2]

theorem castBody_eq_ok_iff {position : Int} {s : String} {ls : List Literal} :
    (do (← Item.ofText position s).mapM fun item => do castWithin levels (← Item.token item)) =
      .ok ls ↔ BodyCast levels s.toList ls := by
  rw [Item.ofText, BodyCast]
  cases blank : allBlank s.toList with
  | true =>
      rw [if_pos rfl, ok_bind, List.mapM_nil, pure_eq_ok_iff]
      simp [eq_comm]
  | false =>
      rw [if_neg Bool.false_ne_true, bind_eq_ok_iff]
      constructor
      · rintro ⟨items, cut, each⟩
        exact .inr ⟨rfl, (castItems_eq_ok_iff moved (Item.map_text_ofPieces cut)).mp each⟩
      · rintro (⟨⟨⟩, _⟩ | ⟨_, each⟩)
        have visible : ∀ piece ∈ splitItems .start s.toList, allBlank piece = false := by
          refine forall_mem_of_forall₂ each ?_
          rintro piece l ⟨t, written, _⟩
          exact allBlank_eq_false_of_written written
        obtain ⟨items, cut⟩ := Item.exists_ofPieces visible position
        exact ⟨items, cut, (castItems_eq_ok_iff moved (Item.map_text_ofPieces cut)).mpr each⟩

/-- A list is cast if each of its pieces is. -/
theorem castList_eq_ok_iff (hk : t.kind = .list) : castWithin (levels + 1) t = .ok l ↔
    ∃ items, l = list items ∧ BodyCast levels (innerText t).toList items := by
  have whole : castWithin (levels + 1) t =
      (do (← Item.ofText (t.position + 1) (innerText t)).mapM fun item =>
        do castWithin levels (← Item.token item)) >>= fun items => .ok (list items) := by
    rw [castWithin, if_pos hk, bind_assoc]
    rfl
  rw [whole, bind_eq_ok_iff]
  simp only [castBody_eq_ok_iff moved, Except.ok.injEq]
  constructor
  · rintro ⟨items, cast, rfl⟩
    exact ⟨items, rfl, cast⟩
  · rintro ⟨items, rfl, cast⟩
    exact ⟨items, cast, rfl⟩

end

private theorem castWithin_moved_of_ne (hk : t.kind ≠ .list) (h : castWithin levels t = .ok l)
    (q : Int) :
    castWithin levels (t.moved q) = .ok l := by
  rw [castWithin_eq_castScalar hk] at h
  rw [castWithin_eq_castScalar (t := t.moved q) hk]
  exact castScalar_moved h q

/-- Where a token stands does not matter for the literal. -/
theorem castWithin_moved (h : castWithin levels t = .ok l) (q : Int) :
    castWithin levels (t.moved q) = .ok l := by
  induction levels generalizing t l q with
  | zero =>
      have scalar : t.kind ≠ .list := by
        intro hk
        rw [castWithin, if_pos hk] at h
        cases h
      exact castWithin_moved_of_ne scalar h q
  | succ levels ih =>
      by_cases hk : t.kind = .list
      · -- What a list is cast to is told by its text alone.
        exact (castList_eq_ok_iff ih (t := t.moved q) hk).mpr ((castList_eq_ok_iff ih hk).mp h)
      · exact castWithin_moved_of_ne hk h q

/-- The text between the brackets of a list of these texts: the texts with blanks around them and
commas between them, or nothing but blanks. -/
inductive ListBody : List (List Char) → List Char → Prop where
  | empty {blanks} : (∀ c ∈ blanks, isBlank c = true) → ListBody [] blanks
  | items {texts pieces} : texts ≠ [] → List.Forall₂ (Padded isBlank) texts pieces →
      ListBody texts ([','].intercalate pieces)

section

variable {text piece : List Char}

theorem writtenAs_trim (h : Padded isBlank text piece) (ht : t.Alone text) :
    t.WrittenAs (trim isBlank piece) := by
  obtain ⟨core, inner, written⟩ := ht.exists_written
  rwa [(inner.trans h).trim_eq written.ne_nil written.ends.1 written.ends.2]

private theorem enclosed_of_padded (h : Padded isBlank text piece) (ht : t.Alone text) :
    Enclosed piece := by
  have blanks {cs : List Char} (each : ∀ c ∈ cs, isBlank c = true) : Enclosed cs :=
    .plain fun c hc => isPlain_of_isBlank (each c hc)
  obtain ⟨before, after, whole, hb, ha⟩ := Padded.trim isBlank piece
  rw [whole]
  exact ((blanks hb).append (writtenAs_trim h ht).enclosed).append (blanks ha)

/-- A piece is cast as the text in it is. -/
theorem pieceCast_iff (h : Padded isBlank text piece) (ht : ∃ t : Token, t.Alone text) :
    PieceCast levels piece l ↔ ∃ t : Token, t.Alone text ∧ castWithin levels t = .ok l := by
  constructor
  · rintro ⟨u, written, cast⟩
    obtain ⟨t, alone⟩ := ht
    have same := written.moved_eq (writtenAs_trim h alone)
    have again := castWithin_moved (castWithin_moved cast 0) t.position
    rw [same] at again
    exact ⟨t, alone, again⟩
  · rintro ⟨t, alone, cast⟩
    exact ⟨t, writtenAs_trim h alone, cast⟩

end

section

variable {texts pieces : List (List Char)} {body : List Char} {items : List Literal}

theorem forall₂_pieceCast_iff (h : List.Forall₂ (Padded isBlank) texts pieces)
    (alone : ∀ text ∈ texts, ∃ t : Token, t.Alone text) :
    List.Forall₂ (PieceCast levels) pieces items ↔ List.Forall₂
      (fun text l => ∃ t : Token, t.Alone text ∧ castWithin levels t = .ok l) texts items := by
  induction h generalizing items with
  | nil => rw [List.forall₂_nil_left_iff, List.forall₂_nil_left_iff]
  | cons first _ ih =>
      rw [List.forall_mem_cons] at alone
      simp only [List.forall₂_cons_left_iff, pieceCast_iff first alone.1, ih alone.2]

theorem enclosed_of_forall₂_padded (h : List.Forall₂ (Padded isBlank) texts pieces)
    (alone : ∀ text ∈ texts, ∃ t : Token, t.Alone text) : ∀ piece ∈ pieces, Enclosed piece := by
  induction h with
  | nil => exact List.forall_mem_nil _
  | cons first _ ih =>
      rw [List.forall_mem_cons] at alone
      obtain ⟨t, ht⟩ := alone.1
      exact List.forall_mem_cons.mpr ⟨enclosed_of_padded first ht, ih alone.2⟩

namespace ListBody

variable (h : ListBody texts body) (alone : ∀ text ∈ texts, ∃ t : Token, t.Alone text)
include h alone

/-- The first scan ends at the closing bracket. -/
theorem runs : Runs Nesting.Closes (.outside 1) body (.outside 1) := by
  cases h with
  | empty blank =>
      have enclosed : Enclosed body := .plain fun c hc => isPlain_of_isBlank (blank c hc)
      exact enclosed _ _ (spares_closes (Int.le_refl 1))
  | items _ padded =>
      apply runs_intercalate (spares_closes (Int.le_refl 1)) (by decide)
      exact enclosed_of_forall₂_padded padded alone

theorem cast_iff : BodyCast levels body items ↔ List.Forall₂
    (fun text l => ∃ t : Token, t.Alone text ∧ castWithin levels t = .ok l) texts items := by
  cases h with
  | empty blank =>
      have all : allBlank body = true := List.all_eq_true.mpr blank
      simp [BodyCast, all]
  | @items _ pieces hne padded =>
      have enclosed := enclosed_of_forall₂_padded padded alone
      cases padded with
      | nil => exact absurd rfl hne
      | @cons text piece texts pieces first rest =>
          have visible : allBlank ([','].intercalate (piece :: pieces)) = false := by
            obtain ⟨t, ht⟩ := alone text List.mem_cons_self
            have own := allBlank_eq_false_of_written (writtenAs_trim first ht)
            rw [Bool.eq_false_iff] at own ⊢
            intro blank
            apply own
            rw [allBlank, List.all_eq_true] at blank ⊢
            intro c hc
            exact blank c (Identifier.mem_intercalate [','] List.mem_cons_self hc)
          rw [BodyCast, visible, splitItems_intercalate enclosed,
            forall₂_pieceCast_iff (.cons first rest) alone]
          simp

end ListBody

end

private theorem exists_listBody {body : List Char} {items : List Literal}
    (h : BodyCast levels body items) :
    ∃ texts, ListBody texts body ∧ ∀ text ∈ texts, ∃ t : Token, t.Alone text := by
  rcases h with ⟨blank, _⟩ | ⟨_, each⟩
  · exact ⟨[], .empty (List.all_eq_true.mp blank), List.forall_mem_nil _⟩
  · have whole := intercalate_splitItems .start body
    refine ⟨(splitItems .start body).map (trim isBlank), ?_, ?_⟩
    · have padded : List.Forall₂ (Padded isBlank) ((splitItems .start body).map (trim isBlank))
          (splitItems .start body) :=
        List.forall₂_map_left_iff.mpr (List.forall₂_same.mpr fun piece _ => .trim isBlank piece)
      have list := ListBody.items (by simp [splitItems_ne_nil]) padded
      rwa [whole] at list
    · rw [List.forall_mem_map]
      refine forall_mem_of_forall₂ each ?_
      rintro piece l ⟨t, written, _⟩
      exact ⟨_, written.alone⟩

theorem innerText_brackets (position : Int) (body : List Char) :
    (innerText (.plain .list position ('[' :: (body ++ [']'])))).toList = body := by
  simp [innerText, Token.plain, Token.content]

section

variable {texts : List (List Char)} {body : List Char} {limit depth : Int}

/-- A list is scanned up to its closing bracket, and the cursor stands after it. -/
theorem ListBody.next (h : ListBody texts body) (alone : ∀ text ∈ texts, ∃ t : Token, t.Alone text)
    (position : Int) (afterNumber : Bool) (rest : List Char) :
    (Cursor.mk position ('[' :: (body ++ ']' :: rest)) afterNumber).next =
      .ok (.plain .list position ('[' :: (body ++ [']'])),
        ⟨position + (body.length + 2 : Nat), rest, false⟩) := by
  apply Cursor.next_eq_ok_iff.mpr
  rw [Scan.skipBlanks_eq_self (stops_cons rfl _)]
  refine ⟨_, Token.read_brackets (h.runs alone) position afterNumber rest, ?_⟩
  have split : '[' :: (body ++ ']' :: rest) = '[' :: (body ++ [']']) ++ rest := by simp
  have width : ('[' :: (body ++ [']'])).length = body.length + 2 := by simp
  rw [Cursor.advance, split, List.drop_left, width]
  rfl

/-- A list is cast if each text in it is, one level deeper. -/
theorem ListBody.castToken_iff (h : ListBody texts body)
    (alone : ∀ text ∈ texts, ∃ t : Token, t.Alone text) (room : depth < limit) (position : Int) :
    castToken (.ok limit) depth (.plain .list position ('[' :: (body ++ [']']))) = .ok l ↔
      ∃ items, l = list items ∧ List.Forall₂ (fun text item => ∃ t : Token, t.Alone text ∧
        castToken (.ok limit) (depth + 1) t = .ok item) texts items := by
  have levels : (limit - depth).toNat = (limit - (depth + 1)).toNat + 1 := by omega
  simp only [castToken_eq_castWithin, levels]
  rw [castList_eq_ok_iff castWithin_moved rfl, innerText_brackets]
  simp only [h.cast_iff alone]

/-- A list that is scanned and cast has a body of texts of literals. -/
theorem exists_listBody_of_next {c d : Cursor} (next : c.next = .ok (t, d)) (hk : t.kind = .list)
    (cast : castToken (.ok limit) depth t = .ok l) :
    ∃ texts body, t.content.toList = '[' :: (body ++ [']']) ∧ ListBody texts body ∧
      ∀ text ∈ texts, ∃ u : Token, u.Alone text := by
  rw [castToken_eq_castWithin] at cast
  cases levels : (limit - depth).toNat with
  | zero =>
      rw [levels, castWithin, if_pos hk] at cast
      cases cast
  | succ n =>
      rw [levels, castList_eq_ok_iff castWithin_moved hk] at cast
      obtain ⟨items, rfl, each⟩ := cast
      obtain ⟨width, read, _⟩ := Cursor.next_eq_ok_iff.mp next
      obtain ⟨text, rest, _, _, written⟩ := Token.writtenAs_of_read read (by rw [hk]; rfl)
      obtain ⟨body, whole⟩ := written.exists_body hk
      rw [whole, innerText_brackets] at each
      obtain ⟨texts, list, alone⟩ := exists_listBody each
      refine ⟨texts, body, ?_, list, alone⟩
      rw [whole]
      exact String.toList_ofList

end

/-- The token of a list literal ends at the bracket that closes it, and casting it casts each text
    in it one level deeper. Every list that is read and cast is of this form. -/
theorem list_read_exactly :
    (∀ texts body, ListBody texts body → (∀ text ∈ texts, ∃ t : Token, t.Alone text) →
      (∀ position afterNumber rest,
        (Cursor.mk position ('[' :: (body ++ ']' :: rest)) afterNumber).next =
          .ok (.plain .list position ('[' :: (body ++ [']'])),
            ⟨position + (body.length + 2 : Nat), rest, false⟩)) ∧
      ∀ limit depth position l, depth < limit →
        (castToken (.ok limit) depth (.plain .list position ('[' :: (body ++ [']']))) = .ok l ↔
          ∃ items, l = list items ∧ List.Forall₂
            (fun text item => ∃ t : Token, t.Alone text ∧
              castToken (.ok limit) (depth + 1) t = .ok item) texts items)) ∧
    ∀ (c d : Cursor) t limit depth l, c.next = .ok (t, d) → t.kind = .list →
      castToken (.ok limit) depth t = .ok l →
      ∃ texts body, t.content.toList = '[' :: (body ++ [']']) ∧ ListBody texts body ∧
        ∀ text ∈ texts, ∃ u : Token, u.Alone text := by
  constructor
  · intro texts body h alone
    constructor
    · exact h.next alone
    · intro limit depth position l room
      exact h.castToken_iff alone room position
  · intro c d t limit depth l next hk cast
    exact exists_listBody_of_next next hk cast

/-- A quoted bracket with a comma and an escaped quote, and a list with an empty list in it. -/
theorem list_read_exactly_nested :
    ∃ texts body,
      (Cursor.mk 4 ['[', ' ', '\x27', ']', ',', '\x5c', '\x27', '\x27', ',', '[', '[', ']', ']',
        '\t', ']', ']'] true).next = .ok (.plain .list 4 ('[' :: (body ++ [']'])), ⟨19, [']'], false⟩) ∧
      castToken (.ok 3) 0 (.plain .list 4 ('[' :: (body ++ [']']))) =
        .ok (list [text "],'", list [list []]]) ∧
      ListBody texts body := by
  have quoted : Token.Alone ⟨.quoted, some "],'", 0, none⟩
      ['\x27', ']', ',', '\x5c', '\x27', '\x27'] := ⟨rfl, 6, by cbv⟩
  have nested : Token.Alone (.plain .list 0 ['[', '[', ']', ']']) ['[', '[', ']', ']'] :=
    ⟨rfl, 4, by cbv⟩
  have body : ListBody [['\x27', ']', ',', '\x5c', '\x27', '\x27'], ['[', '[', ']', ']']]
      ([','].intercalate
        [[' ', '\x27', ']', ',', '\x5c', '\x27', '\x27'], ['[', '[', ']', ']', '\t']]) :=
    .items (List.cons_ne_nil _ _)
      (.cons ⟨[' '], [], rfl, List.all_eq_true.mp rfl, List.forall_mem_nil _⟩
        (.cons ⟨[], ['\t'], rfl, List.forall_mem_nil _, List.all_eq_true.mp rfl⟩ .nil))
  obtain ⟨read, cast⟩ := list_read_exactly.1 _ _ body
    (List.forall_mem_cons.mpr ⟨⟨_, quoted⟩, List.forall_mem_singleton.mpr ⟨_, nested⟩⟩)
  have value := (cast 3 0 4 _ (by decide)).mpr
    ⟨_, rfl, .cons ⟨_, quoted, rfl⟩ (.cons ⟨_, nested, by cbv⟩ .nil)⟩
  obtain ⟨texts, found, content, list, _⟩ :=
    list_read_exactly.2 _ _ _ 3 0 _ (read 4 true [']']) rfl value
  have same := content.symm.trans String.toList_ofList
  refine ⟨texts, found, ?_, ?_, list⟩
  · rw [same]
    exact read 4 true [']']
  · rw [same]
    exact value

end RecordFilter.Literal
