import RecordFilter.Proofs.Literal.List
import RecordFilter.Proofs.Token.Boundary

/-! # Literals written otherwise

A literal may be written with other blanks in its lists and with its keywords in another letter
case. It is cast to the same value, and it begins with the same character but for its case.
-/

namespace RecordFilter.Literal

open Text

/-- The same literal with other blanks around the brackets, commas and items of its lists and with
    its booleans and nulls in another letter case. -/
inductive Respelled : List Char → List Char → Prop where
  | same {text} : Respelled text text
  | keyword {word word'} : (TokenKind.ofWord (String.ofList word)).isLiteral = true →
      SameLetters word word' → Respelled word word'
  | list {texts texts' body body'} : ListBody texts body →
      (∀ text ∈ texts, ∃ t : Token, t.WrittenAs text) → List.Forall₂ Respelled texts texts' →
      ListBody texts' body' → Respelled ('[' :: (body ++ [']'])) ('[' :: (body' ++ [']']))

theorem Respelled.head_eq {text text' : List Char} (h : Respelled text text') :
    text.head?.map Char.toLower = text'.head?.map Char.toLower := by
  cases h with
  | same => rfl
  | keyword _ letters => exact letters.head_eq
  | list => rfl

section

variable {levels : Nat} {t : Token} {l : Literal}

private theorem castScalar_keyword {kind : TokenKind} {word word' : List Char} {position : Int}
    (literal : kind.isLiteral = true) (isWord : kind.isWord = true)
    (letters : SameLetters word word') (h : castScalar (.plain kind position word) = .ok l) :
    castScalar (.plain kind position word') = .ok l := by
  have content (cs : List Char) (kind : TokenKind) :
      (Token.plain kind position cs).content = String.ofList cs := rfl
  have kinds : kind = .boolean ∨ kind = .null := by
    revert literal isWord
    cases kind <;> simp [TokenKind.isLiteral, TokenKind.isWord]
  rcases kinds with rfl | rfl
  · simp only [castScalar, Token.kind_plain, content, ← letters.lower_eq] at h ⊢
    exact h
  · exact h

private theorem exists_written_keyword {word word' : List Char}
    (literal : (TokenKind.ofWord (String.ofList word)).isLiteral = true)
    (letters : SameLetters word word') (ht : t.WrittenAs word) (cast : castWithin levels t = .ok l) :
    ∃ u : Token, u.WrittenAs word' ∧ u.kind = t.kind ∧ u.cast = t.cast ∧
      castWithin levels u = .ok l := by
  have kinds := TokenKind.ofWord_congr letters
  have isWord := TokenKind.isWord_ofWord (String.ofList word)
  have same := ht.moved_eq (@Token.writtenAs_keyword word 0 literal)
  have written := @Token.writtenAs_keyword word' 0 (kinds ▸ literal)
  rw [← kinds] at written
  -- Which keyword it is does not matter, only that it is the same one.
  generalize TokenKind.ofWord (String.ofList word) = kind at literal isWord same written
  have scalar : kind ≠ .list := by
    rintro rfl
    cases isWord
  have value := castWithin_moved cast 0
  rw [same, Token.moved_plain, castWithin_eq_castScalar scalar] at value
  refine ⟨.plain kind 0 word', written, (congrArg Token.kind same).symm,
    (congrArg Token.cast same).symm, ?_⟩
  rw [castWithin_eq_castScalar scalar]
  exact castScalar_keyword literal isWord letters value

end

/-- A literal that is written otherwise is cast as it was. -/
theorem Respelled.exists_written {levels : Nat} {text text' : List Char} {t : Token} {l : Literal}
    (h : Respelled text text') (ht : t.WrittenAs text) (cast : castWithin levels t = .ok l) :
    ∃ u : Token, u.WrittenAs text' ∧ u.kind = t.kind ∧ u.cast = t.cast ∧
      castWithin levels u = .ok l := by
  cases h with
  | same => exact ⟨t, ht, rfl, rfl, cast⟩
  | keyword literal letters => exact exists_written_keyword literal letters ht cast
  | @list texts texts' body body' own written each own' =>
      have alone : ∀ text ∈ texts, ∃ u : Token, u.Alone text := by
        intro text ht
        obtain ⟨u, hu⟩ := written text ht
        exact ⟨_, hu.alone⟩
      have same : t.moved 0 = .plain .list 0 ('[' :: (body ++ [']'])) :=
        ht.moved_eq (@Token.WrittenAs.list 0 body (own.runs alone))
      have value := castWithin_moved cast 0
      rw [same] at value
      cases levels with
      | zero => cases value
      | succ levels =>
          rw [castList_eq_ok_iff castWithin_moved rfl, innerText_brackets] at value
          obtain ⟨items, rfl, members⟩ := value
          rw [own.cast_iff alone] at members
          have cast' : List.Forall₂ (fun text l => ∃ u : Token, u.Alone text ∧
              castWithin levels u = .ok l) texts' items := by
            have both := (List.forall₂_and_left texts items).mpr ⟨written, members⟩
            refine forall₂_of_common each both ?_
            rintro text text' item other ⟨⟨u, hu⟩, v, scanned, inside⟩
            rw [scanned.eq_moved hu] at inside
            obtain ⟨w, hw, _, _, again⟩ := Respelled.exists_written other (hu.moved 0) inside
            exact ⟨w.moved 0, hw.alone, castWithin_moved again 0⟩
          have alone' : ∀ text ∈ texts', ∃ u : Token, u.Alone text :=
            forall_mem_of_forall₂ cast' fun text l ⟨u, hu, _⟩ => ⟨u, hu⟩
          refine ⟨.plain .list 0 ('[' :: (body' ++ [']'])), .list (own'.runs alone'), ?_, ?_, ?_⟩
          · exact (congrArg Token.kind same).symm
          · exact (congrArg Token.cast same).symm
          · rw [castList_eq_ok_iff castWithin_moved rfl, innerText_brackets]
            exact ⟨items, rfl, (own'.cast_iff alone').mpr cast'⟩
termination_by levels

end RecordFilter.Literal
