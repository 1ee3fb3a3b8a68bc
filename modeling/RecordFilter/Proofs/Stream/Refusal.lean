import RecordFilter.Proofs.Token.Extent
import RecordFilter.Stream.Reader

/-! # What a reader refuses

A reader refuses a token where the token stands, or where the `not` before it or the parenthesis
around it stands. It has taken both of these before, so a query is refused somewhere in its text.
-/

namespace RecordFilter

namespace Reader

variable {low high : Int}

/-- The parentheses that are open and the `not` that waits for its `contains` stand between these
    two positions. -/
structure Inside (low high : Int) (r : Reader) : Prop where
  negation : ∀ identifier position, r.expecting = .afterNot identifier position →
    low ≤ position ∧ position ≤ high
  outer : ∀ group ∈ r.outer, low ≤ group.position ∧ group.position ≤ high

private theorem inside_start : start.Inside low high :=
  ⟨nofun, List.forall_mem_nil _⟩

section Step

variable {r : Reader} {t : Token}

theorem located_fail {α : Type} {P : α → Prop} (fault : QueryFault) {position : Int}
    (h : low ≤ position ∧ position ≤ high) : Located low high P (fail fault position) :=
  .error (.query fault h.1 h.2)

private theorem located_beginItem (h : r.Inside low high)
    (ht : low ≤ t.position ∧ t.position ≤ high) :
    Located low high (Inside low high) (r.beginItem t) := by
  unfold beginItem
  split
  · exact .ok ⟨nofun, List.forall_mem_cons.mpr ⟨ht, h.outer⟩⟩
  · split
    · split
      · exact located_fail _ ht
      · exact .ok ⟨nofun, h.outer⟩
    · exact located_fail _ ht

private theorem located_takeOperator (h : r.Inside low high) (identifier : String)
    (ht : low ≤ t.position ∧ t.position ≤ high) :
    Located low high (Inside low high) (r.takeOperator identifier t) := by
  unfold takeOperator
  split
  · exact .ok ⟨nofun, h.outer⟩
  · split
    · refine .ok ⟨?_, h.outer⟩
      rintro _ _ ⟨⟩
      exact ht
    · split
      · exact located_fail _ ht
      · exact located_fail _ ht

private theorem located_takeContains (h : r.Inside low high) (identifier : String) {position : Int}
    (hn : low ≤ position ∧ position ≤ high) (ht : low ≤ t.position ∧ t.position ≤ high) :
    Located low high (Inside low high) (r.takeContains identifier position t) := by
  unfold takeContains
  split
  · exact .ok ⟨nofun, h.outer⟩
  · split
    · exact located_fail _ hn
    · exact located_fail _ ht

private theorem located_takeLiteral (h : r.Inside low high) (identifier : String)
    (operator : Comparison)
    (ht : low ≤ t.position ∧ t.position ≤ high) :
    Located low high (Inside low high) (r.takeLiteral identifier operator t) := by
  unfold takeLiteral
  split
  · exact .ok ⟨nofun, h.outer⟩
  · exact located_fail _ ht

private theorem located_takeLink (h : r.Inside low high)
    (ht : low ≤ t.position ∧ t.position ≤ high) :
    Located low high (Inside low high) (r.takeLink t) := by
  unfold takeLink
  split
  · exact .ok ⟨nofun, h.outer⟩
  · split
    · split
      · exact located_fail _ ht
      · exact located_fail _ ht
    · next group outer ho =>
        have around := h.outer
        rw [ho, List.forall_mem_cons] at around
        split
        · exact .ok ⟨nofun, around.2⟩
        · exact located_fail _ around.1

/-- Every token that is taken keeps the reader inside. -/
theorem located_step (limit : Int) (h : r.Inside low high)
    (ht : low ≤ t.position ∧ t.position ≤ high) :
    Located low high (Inside low high) (r.step limit t) := by
  unfold step
  split
  · exact located_beginItem h ht
  · exact located_beginItem h ht
  · split
    · exact located_fail _ ht
    · split
      · exact located_fail _ ht
      · exact located_beginItem h ht
  · exact located_takeOperator h _ ht
  · next he => exact located_takeContains h _ (h.negation _ _ he) ht
  · exact located_takeLiteral h _ _ ht
  · exact located_takeLink h ht

private theorem located_finish (limit : Int) (h : r.Inside low high) {position : Int}
    (hp : low ≤ position ∧ position ≤ high) :
    Located low high (fun _ => True) (r.finish limit position) := by
  unfold finish
  split
  case h_3 =>
    split
    · exact located_fail _ hp
    · exact located_fail _ hp
  case h_7 =>
    split
    · exact .ok trivial
    · next group _ ho => exact located_fail _ (h.outer group (ho ▸ List.mem_cons_self))
  all_goals exact located_fail _ hp

end Step

end Reader

theorem StreamItem.located_ofScan (limit : Int) {low high : Int} {s : Scan}
    (h : s.Inside low high) : Located low high (fun _ => True) (ofScan limit s) := by
  have position {t : Token} (ht : t ∈ s.tokens) : low ≤ t.position ∧ t.position ≤ high := by
    obtain ⟨first, last⟩ := h.tokens t ht
    exact ⟨first, by omega⟩
  have taken : Located low high (Reader.Inside low high)
      (s.tokens.foldlM (Reader.step limit) Reader.start) :=
    Located.foldlM Reader.inside_start fun r hr t ht => Reader.located_step limit hr (position ht)
  refine taken.bind fun r hr => ?_
  have ending := h.ending
  cases he : s.ending with
  | finish p =>
      rw [he] at ending
      exact Reader.located_finish limit hr ending
  | failed failure =>
      rw [he] at ending
      exact .error ending

end RecordFilter
