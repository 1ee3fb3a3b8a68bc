import Mathlib
import RecordFilter.Proofs.Grammar.Recognition
import RecordFilter.Proofs.Grammar.Viable
import RecordFilter.Proofs.Result

/-! # The first token that cannot stand

A reader refuses a token as soon as no query begins with it and what comes before, and not sooner.
The failure points at that token, but for two that point back: at the parenthesis of a group that is
not closed, and at a `not` that is not followed by `contains`.
-/

namespace RecordFilter

namespace Reader

variable {limit : Int} {r r' : Reader} {t : Token} {failure : Failure}

/-- The positions of the parentheses that are open after one more token. -/
def nest (opened : List Int) (t : Token) : List Int :=
  match t.kind with
  | .openParen => t.position :: opened
  | .closeParen => opened.tail
  | _ => opened

/-- The positions of the parentheses that some tokens leave open, the innermost first. -/
def openPositions (ts : List Token) : List Int := ts.foldl nest []

/-- Tokens that are told from both parentheses open and close nothing. -/
theorem nest_of_told {α : Type} {f : TokenKind → α} {a : α} (h : f t.kind = a)
    (ho : f .openParen ≠ a) (hc : f .closeParen ≠ a) (opened : List Int) :
    nest opened t = opened := by
  unfold nest
  split
  · next hk => exact absurd (hk ▸ h) ho
  · next hk => exact absurd (hk ▸ h) hc
  · rfl

private theorem length_foldl_nest (opened : List Int) (ts : List Token) :
    (ts.foldl nest opened).length ≤ opened.length + ts.countP (·.kind = .openParen) := by
  induction ts generalizing opened with
  | nil => simp
  | cons t ts ih =>
      have first : (nest opened t).length ≤
          opened.length + if t.kind = .openParen then 1 else 0 := by
        unfold nest
        split
        · next hk => simp [hk]
        · simp
          omega
        · simp
      have others := ih (nest opened t)
      simp only [List.foldl_cons, List.countP_cons, decide_eq_true_eq]
      omega

private theorem positions_beginItem (h : r.beginItem t = .ok r') :
    r'.outer.map OpenGroup.position = nest (r.outer.map OpenGroup.position) t := by
  unfold beginItem at h
  split at h
  · next hk =>
      cases h
      simp [nest, hk]
  · split at h
    · next word =>
        split at h
        · cases h
        · cases h
          exact (nest_of_told word nofun nofun _).symm
    · cases h

private theorem positions_takeLink (h : r.takeLink t = .ok r') :
    r'.outer.map OpenGroup.position = nest (r.outer.map OpenGroup.position) t := by
  unfold takeLink at h
  split at h
  · next c spells =>
      cases h
      exact (nest_of_told spells nofun nofun _).symm
  · split at h
    · split at h <;> cases h
    · next group outer ho =>
        split at h
        · next hk =>
            cases h
            simp [nest, hk, ho]
        · cases h

/-- A reader keeps the positions of the open parentheses, token by token. -/
theorem positions_step (h : r.step limit t = .ok r') :
    r'.outer.map OpenGroup.position = nest (r.outer.map OpenGroup.position) t := by
  unfold step at h
  split at h
  · exact positions_beginItem h
  · exact positions_beginItem h
  · split at h
    · cases h
    · split at h
      · cases h
      · exact positions_beginItem h
  · unfold takeOperator at h
    split at h
    · next c spells =>
        cases h
        exact (nest_of_told spells nofun nofun _).symm
    · split at h
      · next hk =>
          cases h
          simp [nest, hk]
      · split at h <;> cases h
  · unfold takeContains at h
    split at h
    · next hk =>
        cases h
        simp [nest, hk]
    · split at h <;> cases h
  · unfold takeLiteral at h
    split at h
    · next literal =>
        cases h
        exact (nest_of_told literal nofun nofun _).symm
    · cases h
  · exact positions_takeLink h

private theorem positions_foldlM {ts : List Token} (h : ts.foldlM (step limit) r = .ok r') :
    r'.outer.map OpenGroup.position = ts.foldl nest (r.outer.map OpenGroup.position) := by
  induction ts generalizing r with
  | nil =>
      cases h
      rfl
  | cons t ts ih =>
      rw [List.foldlM_cons] at h
      obtain ⟨next, first, others⟩ := bind_eq_ok_iff.mp h
      rw [ih others, positions_step first, List.foldl_cons]

/-- What a failure after the tokens `before` points at when `t` cannot follow them. -/
inductive Blames (limit : Int) (before : List Token) (t : Token) : Failure → Prop where
  | token {fault} : fault ≠ .unmatchedOpen → fault ≠ .unsupportedNotIn →
      Blames limit before t (.query fault (some t.position))
  /-- The group is the innermost that is open, and it could have been closed. -/
  | opening {position others} : openPositions before = position :: others →
      (∀ closing : Token, closing.kind = .closeParen → Viable limit (before ++ [closing])) →
      Blames limit before t (.query .unmatchedOpen (some position))
  | negation {others n} : before = others ++ [n] → n.kind = .not → t.kind = .memberOf →
      Blames limit before t (.query .unsupportedNotIn (some n.position))

section

variable {before : List Token}

theorem Blames.of_fail {α : Type} {fault : QueryFault}
    (h : (fail fault t.position : Except Failure α) = .error failure)
    (open_fault : fault ≠ .unmatchedOpen) (in_fault : fault ≠ .unsupportedNotIn) :
    Blames limit before t failure := by
  cases h
  exact .token open_fault in_fault

private theorem blames_beginItem (h : r.beginItem t = .error failure) :
    Blames limit before t failure := by
  unfold beginItem at h
  split at h
  · cases h
  · split at h
    · split at h
      · exact .of_fail h nofun nofun
      · cases h
    · exact .of_fail h nofun nofun

private theorem blames_takeOperator {identifier : String}
    (h : r.takeOperator identifier t = .error failure) :
    Blames limit before t failure := by
  unfold takeOperator at h
  split at h
  · cases h
  · split at h
    · cases h
    · split at h
      · exact .of_fail h nofun nofun
      · exact .of_fail h nofun nofun

private theorem blames_takeContains {identifier : String} {others : List Token} {n : Token}
    (last : before = others ++ [n]) (hn : n.kind = .not)
    (h : r.takeContains identifier n.position t = .error failure) :
    Blames limit before t failure := by
  unfold takeContains at h
  split at h
  · cases h
  · split at h
    · next hk =>
        cases h
        exact .negation last hn hk
    · exact .of_fail h nofun nofun

private theorem blames_takeLiteral {identifier : String} {operator : Comparison}
    (h : r.takeLiteral identifier operator t = .error failure) : Blames limit before t failure := by
  unfold takeLiteral at h
  split at h
  · cases h
  · exact .of_fail h nofun nofun

private theorem blames_takeLink
    (opened : ∀ group outer, r.outer = group :: outer →
      Blames limit before t (.query .unmatchedOpen (some group.position)))
    (h : r.takeLink t = .error failure) : Blames limit before t failure := by
  unfold takeLink at h
  split at h
  · cases h
  · split at h
    · split at h
      · exact .of_fail h nofun nofun
      · exact .of_fail h nofun nofun
    · next group outer ho =>
        split at h
        · cases h
        · cases h
          exact opened group outer ho

/-- The tokens that have brought a reader where it is, in a text that opens fewer groups than are
    allowed. -/
structure Took (limit : Int) (r : Reader) (before : List Token) : Prop where
  reached : Grammar.Reached limit.toNat r before
  positions : r.outer.map OpenGroup.position = openPositions before
  room : (r.outer.length : Int) ≤ limit

private theorem Took.viable (h : Took limit r before) : Viable limit before := by
  apply h.reached.viable
  have room := h.room
  omega

/-- Where a level can end, the group that it stands in can be closed. -/
theorem Took.blames_opening (h : Took limit r before) (link : r.expecting = .link) {group outer}
    (ho : r.outer = group :: outer) :
    Blames limit before t (.query .unmatchedOpen (some group.position)) := by
  obtain ⟨expecting, items, _⟩ := r
  cases link
  cases ho
  refine .opening h.positions.symm fun closing hk => ?_
  have step : Reader.step limit ⟨.link, items, group :: outer⟩ closing =
      .ok ⟨.link, group.before ++ [.group items (some group.position)], outer⟩ :=
    Grammar.step_closeParen ⟨closing, hk⟩
  have reached := h.reached.step (fun word => by rw [hk] at word; cases word) step
  apply reached.viable
  have room := h.room
  simp only [List.length_cons] at room ⊢
  omega

private theorem Took.blames_step (h : Took limit r before)
    (failed : r.step limit t = .error failure) :
    Blames limit before t failure := by
  obtain ⟨expecting, items, outer⟩ := r
  have opening := h.blames_opening (t := t)
  obtain ⟨@⟨around, current, _, begun⟩, _, room⟩ := h
  cases begun with
  | start | item => exact blames_beginItem failed
  | opened =>
      have shallow : isTooDeep limit ⟨.opened, [], outer⟩ = false := by
        rw [isTooDeep, decide_eq_false_iff_not]
        exact Int.not_lt.mpr room
      simp only [step, shallow] at failed
      split at failed
      · exact .of_fail failed (by decide) (by decide)
      · exact blames_beginItem failed
  | operator => exact blames_takeOperator failed
  | afterNot lead f n =>
      have last : around ++ (lead.tokens ++ [f.token, n.1]) =
          around ++ (lead.tokens ++ [f.token]) ++ [n.1] := by simp
      exact blames_takeContains last n.2 failed
  | literal => exact blames_takeLiteral failed
  | link e => exact blames_takeLink (fun group outer ho => opening rfl ho) failed

private theorem Took.blames_finish (h : Took limit r before) {position : Int}
    (failed : r.finish limit position = .error failure) :
    Blames limit before (.finish position) failure := by
  have here {fault : QueryFault} (open_fault : fault ≠ .unmatchedOpen)
      (in_fault : fault ≠ .unsupportedNotIn) :
      Blames limit before (.finish position) (.query fault (some position)) :=
    .token (t := .finish position) open_fault in_fault
  unfold finish at failed
  split at failed
  case h_3 => split at failed <;> cases failed <;> exact here nofun nofun
  case h_7 link =>
    split at failed
    · cases failed
    · next group outer ho =>
        cases failed
        exact h.blames_opening link ho
  all_goals
    cases failed
    exact here nofun nofun

/-- No reader takes the end of a text as a token of its own. -/
theorem kind_ne_finish_of_step (h : r.step limit t = .ok r') : t.kind ≠ .finish := by
  intro hk
  have not_item : r.beginItem t ≠ .ok r' := by simp [beginItem, hk, TokenKind.isWord, fail]
  unfold step at h
  split at h
  · exact not_item h
  · exact not_item h
  · split at h
    · cases h
    · split at h
      · cases h
      · exact not_item h
  · simp [takeOperator, hk, TokenKind.comparison?, TokenKind.isWord, fail] at h
  · simp [takeContains, hk, fail] at h
  · simp [takeLiteral, hk, TokenKind.isLiteral, fail] at h
  · simp only [takeLink, hk, TokenKind.connective?] at h
    split at h <;> simp [fail] at h

end

/-- If some query begins with these tokens and one more, a reader that has taken them takes the one
    more, as a token or as the end. -/
theorem taken_of_viable {before : List Token} (h : Viable limit (before ++ [t]))
    (taken : before.foldlM (step limit) start = .ok r) :
    (∃ r', r.step limit t = .ok r') ∨
      ∃ position items, t = .finish position ∧ r.finish limit position = .ok items := by
  obtain ⟨_, ⟨tokens, position, items, rfl, accepted⟩, begins⟩ := h
  obtain ⟨last, all, ended⟩ := bind_eq_ok_iff.mp accepted
  rcases List.prefix_concat_iff.mp begins with whole | ⟨more, rfl⟩
  · obtain ⟨rfl, same⟩ := List.append_inj' whole rfl
    cases same
    rw [taken] at all
    cases all
    exact .inr ⟨position, items, rfl, ended⟩
  · rw [List.append_assoc, List.foldlM_append, taken, ok_bind, List.singleton_append,
      List.foldlM_cons] at all
    obtain ⟨next, first, _⟩ := bind_eq_ok_iff.mp all
    exact .inl ⟨next, first⟩

end Reader

open Reader

variable {limit : Int} {text : String} {tokens : List Token} {position : Int}

private theorem took_of_foldlM (scan : Scan.ofText 0 text = ⟨tokens, .finish position⟩)
    (room : (tokens.countP (·.kind = .openParen) : Int) < limit) {before after : List Token}
    (whole : tokens = before ++ after) {r : Reader}
    (taken : before.foldlM (step limit) start = .ok r) : Took limit r before := by
  subst whole
  have words : ∀ t ∈ before, t.kind.isWord = true → '\n' ∉ t.content.toList := by
    intro t ht hk
    have mem : t ∈ (Scan.ofText 0 text).tokens := by
      rw [scan]
      exact List.mem_append_left _ ht
    exact (Scan.isWordToken_of_mem mem hk).newline_not_mem
  have positions : r.outer.map OpenGroup.position = openPositions before := positions_foldlM taken
  refine ⟨(Grammar.reached_start limit.toNat).foldlM words taken, positions, ?_⟩
  have few := length_foldl_nest [] before
  rw [← openPositions, ← positions, List.length_map, List.length_nil] at few
  rw [List.countP_append] at room
  omega

/-- A text whose tokens can be told, and that does not open as many groups as are allowed, is
    refused at the first token that no query continues with after those before it; the end counts as
    a token. All tokens before it have been taken. -/
theorem StreamItem.ofText_first_offence {failure : Failure}
    (scan : Scan.ofText 0 text = ⟨tokens, .finish position⟩)
    (room : (tokens.countP (·.kind = .openParen) : Int) < limit)
    (refused : StreamItem.ofText limit text = .error failure) :
    ∃ before t after, tokens ++ [Token.finish position] = before ++ t :: after ∧
      IsLeast {k | ¬ Viable limit ((tokens ++ [Token.finish position]).take (k + 1))} before.length ∧
      (∃ r, before.foldlM (step limit) start = .ok r) ∧ Blames limit before t failure := by
  rw [ofText, scan] at refused
  have parts : tokens.foldlM (step limit) start = .error failure ∨
      ∃ r, tokens.foldlM (step limit) start = .ok r ∧ r.finish limit position = .error failure :=
    bind_eq_error_iff.mp refused
  rcases parts with stopped | ⟨r, taken, ended⟩
  · obtain ⟨before, t, after, r, rfl, taken, failed⟩ := exists_of_foldlM_error stopped
    have took := took_of_foldlM scan room rfl taken
    have not_viable : ¬ Viable limit (before ++ [t]) := by
      intro viable
      rcases taken_of_viable viable taken with ⟨r', step⟩ | ⟨p, items, rfl, _⟩
      · rw [step] at failed
        cases failed
      · have mem : Token.finish p ∈ (Scan.ofText 0 text).tokens := by
          rw [scan]
          exact List.mem_append_right _ List.mem_cons_self
        exact Scan.forall_tokens (P := fun t => t.kind ≠ .finish) (fun _ hk => hk) _ _ mem rfl
    refine ⟨before, t, after ++ [.finish position], by simp, ?_, ⟨r, taken⟩, took.blames_step failed⟩
    rw [List.append_assoc]
    exact took.viable.isLeast not_viable
  · have took := took_of_foldlM scan room (List.append_nil tokens).symm taken
    have not_viable : ¬ Viable limit (tokens ++ [Token.finish position]) := by
      intro viable
      rcases taken_of_viable viable taken with ⟨r', step⟩ | ⟨p, items, same, found⟩
      · exact kind_ne_finish_of_step step rfl
      · cases same
        rw [found] at ended
        cases ended
    exact ⟨tokens, .finish position, [], rfl, took.viable.isLeast not_viable, ⟨r, taken⟩,
      took.blames_finish ended⟩

/-- The second field name stands where the group has to be closed or linked onward. -/
theorem StreamItem.ofText_first_offence_unclosed : ∃ tokens,
    Scan.ofText 0 "(a == 1 b" = ⟨tokens, .finish 9⟩ ∧
    (tokens.countP (·.kind = .openParen) : Int) < 2 ∧
    StreamItem.ofText 2 "(a == 1 b" = .error (.query .unmatchedOpen (some 0)) ∧
    ∃ before t after, tokens ++ [Token.finish 9] = before ++ t :: after ∧
      IsLeast {k | ¬ Viable 2 ((tokens ++ [Token.finish 9]).take (k + 1))} before.length ∧
      (∃ r, before.foldlM (step 2) start = .ok r) ∧
      Blames 2 before t (.query .unmatchedOpen (some 0)) := by
  have scan : Scan.ofText 0 "(a == 1 b" = ⟨[⟨.openParen, some "(", 0, none⟩,
      ⟨.identifier, some "a", 1, none⟩, ⟨.equal, some "==", 3, none⟩, ⟨.number, some "1", 6, none⟩,
      ⟨.identifier, some "b", 8, none⟩], .finish 9⟩ := by
    cbv
  have refused : StreamItem.ofText 2 "(a == 1 b" = .error (.query .unmatchedOpen (some 0)) := by
    cbv
  have room : (([⟨.openParen, some "(", 0, none⟩, ⟨.identifier, some "a", 1, none⟩,
      ⟨.equal, some "==", 3, none⟩, ⟨.number, some "1", 6, none⟩,
      ⟨.identifier, some "b", 8, none⟩] : List Token).countP (·.kind = .openParen) : Int) < 2 := by
    decide
  exact ⟨_, scan, room, refused, StreamItem.ofText_first_offence scan room refused⟩

end RecordFilter
