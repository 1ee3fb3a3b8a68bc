import RecordFilter.Literal.Cast
import RecordFilter.Proofs.Text.Pieces
import RecordFilter.Proofs.Text.Rounds
import RecordFilter.Proofs.Token.Written

/-! # Both loops in step

The scanner cuts a list literal out of a text where its brackets balance for the first time. What
stands between the brackets is gone through once more for its commas. Round for round the two loops
are then at the same character and know the same of it, but for the one bracket that only the first
of them sees. So the second never closes more than it has opened, and it ends outside quotes, with
nothing hidden behind the end.
-/

namespace RecordFilter

open Text

namespace Text

section

variable {body rest : List Char} {s t : Status}

theorem Nesting.shift_inj {s t : Nesting} {n : Int} : s.shift n = t.shift n ↔ s = t := by
  obtain ⟨depth, mode⟩ := s
  obtain ⟨depth', mode'⟩ := t
  simp only [shift, Nesting.mk.injEq, Int.add_left_inj]

theorem Status.inBrackets_inj : s.inBrackets = t.inBrackets ↔ s = t := by
  obtain ⟨index, depth, quoted⟩ := s
  obtain ⟨index', depth', quoted'⟩ := t
  simp only [inBrackets, Status.mk.injEq, Int.add_left_inj, Nat.add_right_cancel_iff]

theorem stands_inBrackets_iff (within : s.index ≤ body.length) :
    s.inBrackets.Stands ('[' :: (body ++ rest)) ↔ s.Stands body := by
  rw [Status.Stands, Status.inBrackets, after_take_bracket rest within, Status.Stands]
  exact Nesting.shift_inj (t := s.nesting)

variable (runs : Runs Nesting.Closes (.outside 1) body (.outside 1))
include runs

theorem visits_commaRound_iff :
    Visits (commaRound body) s ↔ s.Stands body ∧ s.index ≤ body.length :=
  (follows_commaRound (after_body runs)).visits_iff

/-- Behind the opening bracket the loop for the closing one is where the other loop is. -/
theorem visits_bracketRound_iff : Visits (bracketRound ('[' :: (body ++ ']' :: rest))) t ↔
    t = .start ∨ ∃ s, Visits (commaRound body) s ∧ t = s.inBrackets := by
  rw [(follows_bracketRound runs rest).visits_iff]
  constructor
  · rintro ⟨stands, within⟩
    obtain ⟨index, depth, quoted⟩ := t
    cases index with
    | zero => exact .inl (stands.eq (t := .start) rfl rfl)
    | succ n =>
        have behind : Status.mk (n + 1) depth quoted = Status.inBrackets ⟨n, depth - 1, quoted⟩ := by
          rw [Status.inBrackets, Int.sub_add_cancel]
        have inner : n ≤ body.length := Nat.le_of_succ_le_succ within
        rw [behind, stands_inBrackets_iff inner] at stands
        exact .inr ⟨_, (visits_commaRound_iff runs).mpr ⟨stands, inner⟩, behind⟩
  · rintro (rfl | ⟨s, visits, rfl⟩)
    · exact ⟨rfl, Nat.zero_le _⟩
    · obtain ⟨stands, within⟩ := (visits_commaRound_iff runs).mp visits
      exact ⟨(stands_inBrackets_iff within).mpr stands, Nat.succ_le_succ within⟩

/-- A round of one loop is a round of the other. -/
theorem goesOn_iff (visits : Visits (commaRound body) s) : commaRound body s = .goesOn t ↔
    bracketRound ('[' :: (body ++ ']' :: rest)) s.inBrackets = .goesOn t.inBrackets := by
  have inner := follows_commaRound (after_body runs)
  have outer := follows_bracketRound runs rest
  obtain ⟨stands, within⟩ := inner.visits_iff.mp visits
  have shifted : s.inBrackets.Stands ('[' :: (body ++ ']' :: rest)) :=
    (stands_inBrackets_iff within).mpr stands
  rcases Nat.eq_or_lt_of_le within with ended | before
  · -- Both loops are at the closing bracket and go no further.
    obtain rfl := stands.eq inner.outside ended
    exact iff_of_false (inner.stops t) (outer.stops _)
  · obtain ⟨c, hc⟩ := inner.exists_char before
    have behind : ('[' :: (body ++ ']' :: rest))[s.inBrackets.index]? = some c := by
      rw [Status.inBrackets, List.getElem?_cons_succ, List.getElem?_append_left before, hc]
    rw [inner.reads s c stands before hc, outer.reads _ c shifted (Nat.succ_lt_succ before) behind,
      Status.read_inBrackets, Round.goesOn.injEq, Round.goesOn.injEq, Status.inBrackets_inj]

/-- In no part at the start of the body are more brackets closed than opened. -/
theorem depth_after_take_nonneg (n : Nat) : 0 ≤ (Nesting.start.after (body.take n)).depth := by
  have deep := runs.one_le_depth (Int.le_refl 1) n
  have shifted : (Nesting.outside 1).after (body.take n) =
      (Nesting.start.after (body.take n)).shift 1 :=
    Nesting.start.after_shift 1 (body.take n)
  rw [shifted, Nesting.shift] at deep
  exact Int.le_of_add_le_add_right deep

private theorem depth_nonneg_of_visits (visits : Visits (commaRound body) s) : 0 ≤ s.depth := by
  obtain ⟨stands, _⟩ := (visits_commaRound_iff runs).mp visits
  have deep := depth_after_take_nonneg runs s.index
  rwa [stands] at deep

/-- The commas outside quotes and brackets are those that the loop meets there. -/
theorem divides_iff_visits {before after : List Char} (whole : body = before ++ ',' :: after) :
    Divides (splitItems .start body) before after ↔
      Visits (commaRound body) ⟨before.length, 0, false⟩ := by
  rw [← (piecesOf_splitItems body).comma before after whole, endsOutside_iff,
    visits_commaRound_iff runs, Status.Stands, whole, List.take_left, List.length_append]
  exact (and_iff_left (Nat.le_add_right _ _)).symm

/-- The text stands at the start of the other one, outside quotes there are as many brackets opened
    as closed in it, and no shorter text at that start is so, but for the empty one. -/
structure FirstBalanced (taken cs : List Char) : Prop where
  starts : taken <+: cs
  balanced : EndsOutside taken 0
  first : ∀ shorter, shorter <+: cs → shorter ≠ [] → EndsOutside shorter 0 →
    taken.length ≤ shorter.length

private theorem firstBalanced_brackets :
    FirstBalanced ('[' :: (body ++ [']'])) ('[' :: (body ++ ']' :: rest)) := by
  constructor
  case starts => exact ⟨rest, by simp⟩
  case balanced =>
    have closed : (Nesting.outside 1).after (body ++ [']']) = .outside 0 := by
      rw [Nesting.after_append, runs.after_eq]
      exact step_close 0
    rw [endsOutside_iff]
    exact closed
  case first =>
    intro shorter starts nonempty balanced
    rw [List.prefix_iff_eq_take] at starts
    obtain ⟨n, length⟩ := Nat.exists_eq_add_one.mpr (List.length_pos_iff.mpr nonempty)
    rw [length] at starts
    rcases Nat.lt_or_ge body.length n with longer | within
    · rw [length, List.length_cons, List.length_append, List.length_singleton]
      omega
    · -- Up to here the opening bracket has not been closed.
      rw [endsOutside_iff, starts, after_take_bracket _ within] at balanced
      have depth := congrArg Nesting.depth balanced
      have deep := depth_after_take_nonneg runs n
      simp only [Nesting.shift, Nesting.outside] at depth
      omega

end

/-- The loop for the commas goes through the body as the loop for the closing bracket goes through
    the text, and neither leaves the brackets. -/
structure InStep (text body : List Char) : Prop where
  places : ∀ t, Visits (bracketRound text) t ↔
    t = .start ∨ ∃ s, Visits (commaRound body) s ∧ t = s.inBrackets
  rounds : ∀ s t, Visits (commaRound body) s →
    (commaRound body s = .goesOn t ↔ bracketRound text s.inBrackets = .goesOn t.inBrackets)
  inside : ∀ s, Visits (commaRound body) s → 0 ≤ s.depth ∧ s.index ≤ body.length
  ends : Visits (commaRound body) ⟨body.length, 0, false⟩ ∧
    commaRound body ⟨body.length, 0, false⟩ = .over
  closes : bracketRound text ⟨body.length + 1, 1, false⟩ = .closed (body.length + 2)

private theorem inStep_brackets {body rest : List Char}
    (runs : Runs Nesting.Closes (.outside 1) body (.outside 1)) :
    InStep ('[' :: (body ++ ']' :: rest)) body := by
  constructor
  case places => exact fun t => visits_bracketRound_iff runs
  case rounds => exact fun s t visits => goesOn_iff runs visits
  case inside =>
    intro s visits
    exact ⟨depth_nonneg_of_visits runs visits, ((visits_commaRound_iff runs).mp visits).2⟩
  case ends =>
    constructor
    · rw [visits_commaRound_iff runs, Status.Stands, List.take_length]
      exact ⟨after_body runs, Nat.le_refl _⟩
    · rw [commaRound, List.getElem?_eq_none (Nat.le_refl _)]
  case closes => exact bracketRound_close body rest

end Text

private theorem Token.WrittenAs.exists_runs {t : Token} {cs : List Char} (h : t.WrittenAs cs)
    (hk : t.kind = .list) : t.content.toList = cs ∧ ∃ body, cs = '[' :: (body ++ [']']) ∧
      Runs Nesting.Closes (.outside 1) body (.outside 1) := by
  cases h with
  | number => cases hk
  | quoted => cases hk
  | cast => cases hk
  | @word _ c cs kind _ _ word _ =>
      have words := TokenKind.isWord_ofWord (String.ofList (c :: cs))
      rw [kind_plain] at hk
      rw [word, hk] at words
      cases words
  | list runs => exact ⟨String.toList_ofList, _, rfl, runs⟩

namespace Literal

/-- A list literal ends where its brackets balance for the first time. Between its brackets both
    loops are in step, and the items are divided at the commas that the second loop meets outside of
    quotes and brackets. -/
theorem list_loops_in_step {c d : Cursor} {t : Token} (next : c.next = .ok (t, d))
    (hk : t.kind = .list) : ∃ body, t.content.toList = '[' :: (body ++ [']']) ∧
      (innerText t).toList = body ∧ c.skipBlanks.rest = t.content.toList ++ d.rest ∧
      FirstBalanced t.content.toList c.skipBlanks.rest ∧ InStep c.skipBlanks.rest body ∧
      ∀ before after, body = before ++ ',' :: after →
        (Divides (splitItems .start body) before after ↔
          Visits (commaRound body) ⟨before.length, 0, false⟩) := by
  obtain ⟨width, read, rfl⟩ := Cursor.next_eq_ok_iff.mp next
  obtain ⟨text, rest, whole, rfl, written⟩ := Token.writtenAs_of_read read (by rw [hk]; rfl)
  obtain ⟨content, body, rfl, runs⟩ := written.exists_runs hk
  have behind : c.skipBlanks.rest = '[' :: (body ++ ']' :: rest) := by
    rw [whole]
    simp
  have inner : (innerText t).toList = body := by
    rw [innerText, content, String.toList_ofList]
    simp
  refine ⟨body, content, inner, ?_, ?_, ?_, fun before after => divides_iff_visits runs⟩
  · rw [content, Cursor.advance, whole, List.drop_left]
  · rw [content, behind]
    exact firstBalanced_brackets runs
  · rw [behind]
    exact inStep_brackets runs

/-- A bracket behind a hidden quote, a list in the list, and one bracket too many behind it. -/
theorem list_loops_in_step_hidden : ∃ d t,
    (Cursor.start 0 " ['\\']', [1]]]").next = .ok (t, d) ∧ t.kind = .list ∧
    FirstBalanced t.content.toList "['\\']', [1]]]".toList ∧
    InStep "['\\']', [1]]]".toList "'\\']', [1]".toList ∧
    Divides (splitItems .start "'\\']', [1]".toList) "'\\']'".toList " [1]".toList := by
  have next : (Cursor.start 0 " ['\\']', [1]]]").next =
      .ok (.plain .list 1 "['\\']', [1]]".toList, ⟨13, [']'], false⟩) := by
    cbv
  obtain ⟨body, _, inner, _, first, inStep, divides⟩ := list_loops_in_step next rfl
  obtain rfl : body = "'\\']', [1]".toList := by
    rw [← inner]
    cbv
  have visits : Visits (commaRound "'\\']', [1]".toList) ⟨5, 0, false⟩ :=
    .next (.next (.next (.next .start rfl) rfl) rfl) rfl
  exact ⟨_, _, next, rfl, first, inStep, (divides _ _ rfl).mpr visits⟩

end Literal
end RecordFilter
