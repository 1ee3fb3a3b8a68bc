import Mathlib
import RecordFilter.Predicate.Print
import RecordFilter.Proofs.Grammar.Spelling
import RecordFilter.Proofs.Literal.RoundTrip
import RecordFilter.Proofs.Predicate.AtOffsets
import RecordFilter.Proofs.Query.Parse

/-! # Writing a level and reading it again

A level that can be spelled has a text, and the text is read as the level. What is read from a query
can be spelled, so writing it loses nothing, and writing it once more gives the same text.
-/

namespace RecordFilter

section

variable {xs ys : List Char} {node : Node} {level : List Predicate}

theorem Node.queryText_condition {c : Condition}
    (h : c.literal.queryText = .ok (String.ofList xs)) :
    (Node.condition c).queryText =
      .ok (String.ofList (c.identifier.toList ++ ' ' :: (c.comparison.text.toList ++ ' ' :: xs))) := by
  rw [Node.queryText, h, ok_bind]
  apply congrArg Except.ok
  apply String.toList_injective
  simp only [String.toList_append, String.toList_ofList, List.append_assoc]
  rfl

theorem Node.queryText_group (h : serialize level = .ok (String.ofList xs)) :
    (Node.group level).queryText = .ok (String.ofList ('(' :: (xs ++ [')']))) := by
  obtain ⟨texts, written, joined⟩ := bind_eq_ok_iff.mp h
  rw [Node.queryText, written, ok_bind, pure_eq_ok_iff.mp joined]
  apply congrArg Except.ok
  apply String.toList_injective
  simp only [String.toList_append, String.toList_ofList]
  rfl

theorem serialize_last (h : node.queryText = .ok (String.ofList xs)) :
    serialize [.linked node none] = .ok (String.ofList xs) := by
  rw [serialize, queryTexts, Predicate.queryText, h]
  exact congrArg Except.ok String.intercalate_singleton

theorem serialize_more (hn : node.queryText = .ok (String.ofList xs)) (c : Connective)
    (hne : level ≠ []) (hr : serialize level = .ok (String.ofList ys)) :
    serialize (.linked node (some c) :: level) =
      .ok (String.ofList (xs ++ ' ' :: (c.text.toList ++ ' ' :: ys))) := by
  obtain ⟨texts, written, joined⟩ := bind_eq_ok_iff.mp hr
  have nonempty : texts ≠ [] := by
    cases level with
    | nil => exact absurd rfl hne
    | cons p rest =>
        rw [queryTexts] at written
        obtain ⟨first, _, more⟩ := bind_eq_ok_iff.mp written
        obtain ⟨others, _, whole⟩ := bind_eq_ok_iff.mp more
        rw [← pure_eq_ok_iff.mp whole]
        exact List.cons_ne_nil _ _
  rw [serialize, queryTexts, Predicate.queryText, hn, ok_bind, written]
  apply congrArg Except.ok
  rw [String.intercalate_cons_of_ne_nil nonempty, pure_eq_ok_iff.mp joined]
  apply String.toList_injective
  simp only [withLink, String.toList_append, String.toList_ofList, List.append_assoc]
  rfl

end

section

variable {limit : Nat}

mutual

private theorem Node.Chained.exists_text {node : Node} (h : node.Chained)
    (conditions : ∀ c ∈ node.conditions, c.Spellable)
    (lists : ∀ c ∈ node.conditions, c.literal.listDepth ≤ limit) :
    ∃ cs, node.queryText = .ok (String.ofList cs) ∧ Grammar.DerivesNode limit cs node := by
  cases h with
  | condition c =>
      have spellable := conditions c (List.mem_singleton.mpr rfl)
      obtain ⟨cs, text, reads⟩ :=
        spellable.literal.exists_queryText (lists c (List.mem_singleton.mpr rfl))
      exact ⟨_, Node.queryText_condition text, Grammar.derivesNode_condition spellable reads⟩
  | group hm =>
      obtain ⟨cs, text, derives⟩ := hm.exists_text conditions lists
      exact ⟨_, Node.queryText_group text, Grammar.derivesNode_group derives⟩

theorem Chained.exists_text {level : List Predicate} (h : Chained level)
    (conditions : ∀ c ∈ conditionsOf level, c.Spellable)
    (lists : ∀ c ∈ conditionsOf level, c.literal.listDepth ≤ limit) :
    ∃ cs, serialize level = .ok (String.ofList cs) ∧ Grammar.Derives limit cs level := by
  cases h with
  | last hn =>
      rw [conditionsOf, List.forall_mem_append] at conditions lists
      obtain ⟨cs, text, derives⟩ := hn.exists_text conditions.1 lists.1
      exact ⟨cs, serialize_last text, Grammar.derives_last derives⟩
  | more hn hr =>
      rw [conditionsOf, List.forall_mem_append] at conditions lists
      obtain ⟨xs, nodeText, nodeDerives⟩ := hn.exists_text conditions.1 lists.1
      obtain ⟨ys, levelText, levelDerives⟩ := hr.exists_text conditions.2 lists.2
      exact ⟨_, serialize_more nodeText _ hr.ne_nil levelText,
        Grammar.derives_more nodeDerives _ levelDerives⟩

end

namespace Spellable

variable {level : List Predicate}

theorem exists_text (h : Spellable limit level) : ∃ text, serialize level = .ok text := by
  obtain ⟨cs, written, _⟩ := h.chained.exists_text h.conditions h.lists
  exact ⟨_, written⟩

/-- The text of a level that can be spelled is read as the level. -/
theorem parseWithin_eq (h : Spellable limit level) {text} (ht : serialize level = .ok text) :
    parseWithin limit text = .ok level := by
  obtain ⟨cs, written, derives⟩ := h.chained.exists_text h.conditions h.lists
  -- The text stands alone, so its derivation is the one at the start of a text.
  obtain ⟨e, spells, run, depth⟩ := derives 0
  rw [ht] at written
  have same : text.toList = cs := by
    rw [Except.ok.inj written, String.toList_ofList]
  rw [← same] at spells
  refine parseWithin_eq_ok_iff.mpr ⟨e.stream, ?_, run, h.validate_eq⟩
  rw [StreamItem.ofText, spells.ofText]
  apply e.ofScan_eq
  rw [depth]
  exact h.groups

end Spellable

end

/-- What a level is read back as: its text has no more of its times than their offsets, so it is the
    level whose times go by these at all times. That one equals the level unless the clock of a time
    shows it twice or leaves it out, and it is the level itself if there are no times of a region.
    -/
theorem parseWithin_serialize {limit level} (h : Spellable limit (levelAtOffsets level)) :
    ∃ text, serialize level = .ok text ∧ parseWithin limit text = .ok (levelAtOffsets level) ∧
      (sameLevels (levelAtOffsets level) level = true ↔
        ∀ z ∈ timesOf (conditionsOf level), z.zone.isSettled = true) ∧
      ((∀ z ∈ timesOf (conditionsOf level), z.zone.isFixed = true) →
        levelAtOffsets level = level) := by
  obtain ⟨text, written⟩ := h.exists_text
  have back := h.parseWithin_eq written
  rw [serialize_levelAtOffsets] at written
  exact ⟨text, written, back, sameLevels_levelAtOffsets_iff h.chained h.conditions,
    levelAtOffsets_eq⟩

/-- A keyword as a field, a quote in text, and a list in a group. -/
def keywordOrGroup (z : ZonedDateTime) : List Predicate :=
  [.linked (.condition ⟨"in", .notContains, .text "it's"⟩) (some .or),
   .linked (.group [.linked (.condition ⟨"a.b", .memberOf, .list [.null, .datetime z]⟩) none]) none]

theorem spellable_keywordOrGroup {z : ZonedDateTime} (minutes : z.offset.IsWholeMinutes) :
    Spellable 1 (levelAtOffsets (keywordOrGroup z)) := by
  have keyword : Condition.Spellable ⟨"in", .notContains, .text "it's"⟩ :=
    ⟨by decide, Identifier.reservedSuffix?_eq_none_iff.mp (by decide), .text _⟩
  have names : ∀ piece ∈ Identifier.pieces "a.b", Identifier.isName piece = true := by decide
  have unreserved : ¬ Identifier.IsReserved "a.b" :=
    Identifier.reservedSuffix?_eq_none_iff.mp (by decide)
  have path : Condition.Spellable ⟨"a.b", .memberOf, .list [.null, .datetime z.atOffset]⟩ := by
    refine ⟨names, unreserved, .list _ ?_⟩
    exact List.forall_mem_cons.mpr ⟨.null, List.forall_mem_singleton.mpr (.datetime _ rfl minutes)⟩
  exact {
    chained := .more (.condition _) (.last (.group (.last (.condition _))))
    conditions := List.forall_mem_cons.mpr ⟨keyword, List.forall_mem_singleton.mpr path⟩
    groups := Nat.le_refl 1
    lists := List.forall_mem_cons.mpr ⟨Nat.zero_le 1, List.forall_mem_singleton.mpr (Nat.le_refl 1)⟩
  }

theorem parseWithin_serialize_keywordOrGroup :
    Spellable 1 (levelAtOffsets (keywordOrGroup .summerNoon)) ∧
      ∃ text, serialize (keywordOrGroup .summerNoon) = .ok text ∧
        parseWithin 1 text = .ok (levelAtOffsets (keywordOrGroup .summerNoon)) ∧
        sameLevels (levelAtOffsets (keywordOrGroup .summerNoon)) (keywordOrGroup .summerNoon) =
          true := by
  have spellable : Spellable 1 (levelAtOffsets (keywordOrGroup .summerNoon)) :=
    spellable_keywordOrGroup ⟨120, rfl⟩
  obtain ⟨text, written, back, equal, _⟩ := parseWithin_serialize spellable
  have settled : ZonedDateTime.summerNoon.zone.isSettled = true := beq_self_eq_true _
  exact ⟨spellable, text, written, back, equal.mpr (List.forall_mem_singleton.mpr settled)⟩

/-- A date that is a time, and a time that the clock of its region shows twice: the text of the one
    is refused, and that of the other is read as a time that equals no time of the region. -/
theorem not_parseWithin_serialize :
    (serialize [.linked (.condition ⟨"x", .equal, .misdated
        ⟨⟨2024, 1, 1, by decide⟩, 0, 0, 0, 0, by decide⟩ none⟩) none] =
          .ok "x == '2024-01-01T00:00:00'::DATE" ∧
      ∀ level, parseWithin 1 "x == '2024-01-01T00:00:00'::DATE" ≠ .ok level) ∧
    (ZonedDateTime.repeatedHour.offset.IsWholeMinutes ∧
      ∃ text level, serialize (keywordOrGroup .repeatedHour) = .ok text ∧
        parseWithin 1 text = .ok level ∧
        sameLevels level (keywordOrGroup .repeatedHour) = false) := by
  refine ⟨⟨by decide +kernel, ?_⟩, ⟨120, rfl⟩, ?_⟩
  · have refused : parseWithin 1 "x == '2024-01-01T00:00:00'::DATE" =
        .error (.cast (.badDate "2024-01-01T00:00:00") (some 5)) := by
      cbv
    intro level read
    rw [refused] at read
    cases read
  · have spellable : Spellable 1 (levelAtOffsets (keywordOrGroup .repeatedHour)) :=
      spellable_keywordOrGroup ⟨120, rfl⟩
    obtain ⟨text, written⟩ := spellable.exists_text
    refine ⟨text, _, serialize_levelAtOffsets _ ▸ written, spellable.parseWithin_eq written, ?_⟩
    decide +kernel

/-- Whatever is read is written without loss, and what is written stays the same from then on. -/
theorem serialize_parseWithin {limit text level} (h : parseWithin limit text = .ok level) :
    ∃ written, serialize level = .ok written ∧ parseWithin limit written = .ok level ∧
      (parseWithin limit written >>= serialize) = .ok written := by
  have spellable := spellable_of_parseWithin h
  obtain ⟨written, out⟩ := spellable.exists_text
  have back := spellable.parseWithin_eq out
  refine ⟨written, out, back, ?_⟩
  rw [back]
  exact out

theorem serialize_parseWithin_tight : ∃ level,
    parseWithin 1 "(IN In[01])" = .ok level ∧
    ∃ written, serialize level = .ok written ∧ parseWithin 1 written = .ok level ∧
      (parseWithin 1 written >>= serialize) = .ok written := by
  have h : parseWithin 1 "(IN In[01])" = .ok
      [.linked (.group [.linked (.condition ⟨"IN", .memberOf,
        .list [.number ⟨.int 1, rfl⟩]⟩) none]) none] := by
    cbv
  exact ⟨_, h, serialize_parseWithin h⟩

end RecordFilter
