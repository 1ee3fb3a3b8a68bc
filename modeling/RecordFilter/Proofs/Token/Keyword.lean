import Mathlib
import RecordFilter.Proofs.Token.Rendering

/-! # Keywords in any letter case

A keyword is a keyword in every letter case. It is made of letters only, so it is read as a word up
to the first character that is not one of a word; right behind a number a connective is read
whatever follows it.
-/

namespace RecordFilter

namespace Text

/-- The texts differ at most in the case of ASCII letters. -/
def SameLetters (cs ds : List Char) : Prop := cs.map Char.toLower = ds.map Char.toLower

/-- Lower case changes the 26 capital letters and nothing else. -/
theorem toLower_cases (c : Char) :
    c.toLower = c ∨ ∃ n < 26, c = Char.ofNat (65 + n) ∧ c.toLower = Char.ofNat (97 + n) := by
  by_cases capital : 65 ≤ c.toNat ∧ c.toNat ≤ 90
  · right
    obtain ⟨n, hn⟩ := Nat.exists_eq_add_of_le capital.1
    have few : n < 26 := by omega
    have whole : c = Char.ofNat (65 + n) := by rw [← hn, Char.ofNat_toNat]
    refine ⟨n, few, whole, ?_⟩
    rw [whole]
    interval_cases n <;> rfl
  · left
    rw [Char.toLower, dif_neg]
    rintro ⟨low, high⟩
    exact capital ⟨low, high⟩

/-- What tells no capital letter from the small one tells no two cases of a text apart. -/
theorem apply_toLower {α : Type} {f : Char → α}
    (h : ∀ n < 26, f (Char.ofNat (97 + n)) = f (Char.ofNat (65 + n))) (c : Char) :
    f c.toLower = f c := by
  rcases toLower_cases c with same | ⟨n, few, capital, small⟩
  · rw [same]
  · rw [small, h n few, ← capital]

theorem isLetter_toLower (c : Char) : isLetter c.toLower = isLetter c :=
  apply_toLower (by decide) c

/-- Only a letter is changed. -/
theorem eq_toLower_of_not_isLetter {c : Char} (h : isLetter c.toLower = false) : c = c.toLower := by
  rcases toLower_cases c with same | ⟨n, few, _, small⟩
  · exact same.symm
  · have letters : ∀ n < 26, isLetter (Char.ofNat (97 + n)) = true := by decide
    rw [small, letters n few] at h
    cases h

namespace SameLetters

variable {cs ds : List Char}

theorem symm (h : SameLetters cs ds) : SameLetters ds cs := Eq.symm h

private theorem length_eq (h : SameLetters cs ds) : cs.length = ds.length := by
  have lengths := congrArg List.length h
  rwa [List.length_map, List.length_map] at lengths

theorem head_eq (h : SameLetters cs ds) :
    cs.head?.map Char.toLower = ds.head?.map Char.toLower := by
  rw [← List.head?_map, ← List.head?_map, h]

theorem lower_eq (h : SameLetters cs ds) : lower (String.ofList cs) = lower (String.ofList ds) := by
  rw [lower, lower, String.toList_ofList, String.toList_ofList, h]

/-- Text without letters has no other case. -/
theorem eq_of_not_isLetter (h : SameLetters cs ds) (hd : ∀ d ∈ ds, isLetter d = false) :
    cs = ds := by
  induction cs generalizing ds with
  | nil =>
      cases ds with
      | nil => rfl
      | cons => cases h
  | cons c cs ih =>
      cases ds with
      | nil => cases h
      | cons d ds =>
          obtain ⟨first, rest⟩ := List.cons.inj h
          rw [List.forall_mem_cons] at hd
          have kept : isLetter d.toLower = false := by rw [isLetter_toLower, hd.1]
          have hc := eq_toLower_of_not_isLetter (first ▸ kept)
          rw [ih rest hd.2, hc, first, ← eq_toLower_of_not_isLetter kept]

end SameLetters

end Text

open Text

namespace TokenKind

theorem ofWord_congr {cs ds : List Char} (h : SameLetters cs ds) :
    ofWord (String.ofList cs) = ofWord (String.ofList ds) := by
  rw [ofWord, ofWord, h.lower_eq]

theorem mem_keywords_of_ofWord {word : String} (h : ofWord word ≠ identifier) :
    (lower word, ofWord word) ∈ keywords := by
  unfold ofWord at h ⊢
  cases found : keywords.lookup (lower word) with
  | none =>
      rw [found] at h
      exact absurd rfl h
  | some kind =>
      obtain ⟨before, after, split, _⟩ := List.lookup_eq_some_iff.mp found
      rw [split]
      exact List.mem_append_right _ List.mem_cons_self

/-- A keyword is made of letters. -/
theorem letters_of_ofWord {cs : List Char} (h : ofWord (String.ofList cs) ≠ identifier) :
    cs ≠ [] ∧ ∀ c ∈ cs, isLetter c = true := by
  have letters : ∀ entry ∈ keywords,
      entry.1.toList ≠ [] ∧ entry.1.toList.all isLetter = true := by decide
  have own := letters _ (mem_keywords_of_ofWord h)
  rw [lower, String.toList_ofList, String.toList_ofList, ne_eq, List.map_eq_nil_iff] at own
  refine ⟨own.1, fun c hc => ?_⟩
  rw [← isLetter_toLower]
  exact List.all_eq_true.mp own.2 _ (List.mem_map_of_mem hc)

end TokenKind

namespace Token

section

variable {cs : List Char} {position : Int}

theorem startsWord_of_isLetter {c : Char} (h : isLetter c = true) : startsWord c = true := by
  simp only [startsWord, h, Bool.true_or]

/-- A keyword is a word. -/
theorem spans_keyword (h : TokenKind.ofWord (String.ofList cs) ≠ .identifier) :
    (plain (.ofWord (String.ofList cs)) position cs).Spans cs := by
  obtain ⟨hne, letters⟩ := TokenKind.letters_of_ofWord h
  obtain ⟨c, cs, rfl⟩ := List.exists_cons_of_ne_nil hne
  rw [List.forall_mem_cons] at letters
  have after : ∀ d ∈ cs, isWordChar d = true := fun d hd => isWordChar_of_isLetter (letters.2 d hd)
  refine .word (startsWord_of_isLetter letters.1) ?_ after
  rintro rfl
  cases letters.1

theorem writtenAs_keyword (h : (TokenKind.ofWord (String.ofList cs)).isLiteral = true) :
    (plain (.ofWord (String.ofList cs)) position cs).WrittenAs cs := by
  have keyword : TokenKind.ofWord (String.ofList cs) ≠ .identifier := by
    intro hk
    rw [hk] at h
    cases h
  obtain ⟨hne, letters⟩ := TokenKind.letters_of_ofWord keyword
  obtain ⟨c, cs, rfl⟩ := List.exists_cons_of_ne_nil hne
  rw [List.forall_mem_cons] at letters
  exact .word (startsWord_of_isLetter letters.1)
    (fun d hd => isWordChar_of_isLetter (letters.2 d hd)) rfl h

end

/-- A connective is its keyword in some letter case. -/
theorem sameLetters_of_connective {cs : List Char}
    (h : (TokenKind.ofWord (String.ofList cs)).connective? ≠ none) :
    SameLetters cs ['a', 'n', 'd'] ∨ SameLetters cs ['o', 'r'] := by
  have each : ∀ entry ∈ TokenKind.keywords, entry.2.connective? ≠ none →
      entry.1.toList = ['a', 'n', 'd'] ∨ entry.1.toList = ['o', 'r'] := by decide
  have keyword : TokenKind.ofWord (String.ofList cs) ≠ .identifier := by
    intro hk
    rw [hk] at h
    exact h rfl
  have own := each _ (TokenKind.mem_keywords_of_ofWord keyword) h
  rwa [lower, String.toList_ofList, String.toList_ofList] at own

/-- Right behind a number a connective is cut off from whatever word characters follow it. -/
theorem wordLength_connective {cs : List Char}
    (h : SameLetters cs ['a', 'n', 'd'] ∨ SameLetters cs ['o', 'r']) (more : List Char) :
    wordLength true (cs ++ more) = cs.length := by
  have letters {keyword : List Char} (same : SameLetters cs keyword) :
      (cs ++ more).map Char.toLower = keyword.map Char.toLower ++ more.map Char.toLower := by
    rw [List.map_append, same]
  rcases h with h | h
  · have length : cs.length = 3 := h.length_eq
    rw [wordLength, letters h]
    cases more <;> simp [length]
  · have length : cs.length = 2 := h.length_eq
    rw [wordLength, letters h]
    cases more <;> simp [length]

/-- A connective is read right behind a number, whatever follows it. -/
theorem read_connective {cs : List Char}
    (h : (TokenKind.ofWord (String.ofList cs)).connective? ≠ none) (position : Int)
    (rest : List Char) :
    read position true (cs ++ rest) =
      .ok (plain (.ofWord (String.ofList cs)) position cs, cs.length) := by
  have same := sameLetters_of_connective h
  have keyword : TokenKind.ofWord (String.ofList cs) ≠ .identifier := by
    intro hk
    rw [hk] at h
    exact h rfl
  obtain ⟨hne, letters⟩ := TokenKind.letters_of_ofWord keyword
  have word : (cs ++ rest).takeWhile isWordChar = cs ++ rest.takeWhile isWordChar :=
    List.takeWhile_append_of_pos fun d hd => isWordChar_of_isLetter (letters d hd)
  have width := wordLength_connective same (rest.takeWhile isWordChar)
  obtain ⟨c, cs, rfl⟩ := List.exists_cons_of_ne_nil hne
  rw [List.forall_mem_cons] at letters
  have first := startsWord_of_isLetter letters.1
  have number : takeNumber? (c :: (cs ++ rest)) = none := by
    rw [takeNumber?_eq_none_iff first]
    rintro rfl
    cases letters.1
  rw [List.cons_append] at word ⊢
  rw [read_eq_readWord first number]
  simp only [readWord, word, width, List.take_left]

end Token
end RecordFilter
