import RecordFilter.Proofs.Text.Balanced
import RecordFilter.Proofs.Text.Outside

/-! # Two loops over a list literal

A list literal can be gone through by index, in rounds. One loop looks for the bracket that closes
the list, another for the commas in the text between the brackets, and each has rules of its own. In
quotes both pass over a backslash together with the character behind it, but only the first makes
sure that there is one. A loop follows the text if its rounds tell where the next character stands.
It then visits all places but the hidden characters, with the brackets that are open there, and no
others.
-/

namespace RecordFilter.Text

/-- Where a loop is and what it knows. -/
structure Status where
  index : Nat
  /-- Brackets opened and not closed. -/
  depth : Int
  quoted : Bool
  deriving DecidableEq

/-- What comes of one round. -/
inductive Round where
  | goesOn (s : Status)
  /-- The list is closed, and so many characters belong to it. -/
  | closed (width : Nat)
  /-- There is no character left. -/
  | over
  deriving DecidableEq

/-- A round of the loop for the closing bracket. A backslash takes a character with it if there is
    one. -/
def bracketRound (text : List Char) (s : Status) : Round :=
  match text[s.index]? with
  | none => .over
  | some c =>
    if s.quoted then
      if c = backslash ∧ s.index + 1 < text.length then .goesOn ⟨s.index + 2, s.depth, true⟩
      else if c = quoteMark then .goesOn ⟨s.index + 1, s.depth, false⟩
      else .goesOn ⟨s.index + 1, s.depth, true⟩
    else if c = quoteMark then .goesOn ⟨s.index + 1, s.depth, true⟩
    else if c = '[' then .goesOn ⟨s.index + 1, s.depth + 1, false⟩
    else if c = ']' then
      if s.depth - 1 = 0 then .closed (s.index + 1) else .goesOn ⟨s.index + 1, s.depth - 1, false⟩
    else .goesOn ⟨s.index + 1, s.depth, false⟩

/-- A round of the loop for the commas. A backslash takes a character with it even where the text
    ends. -/
def commaRound (text : List Char) (s : Status) : Round :=
  match text[s.index]? with
  | none => .over
  | some c =>
    if s.quoted then
      if c = backslash then .goesOn ⟨s.index + 2, s.depth, true⟩
      else if c = quoteMark then .goesOn ⟨s.index + 1, s.depth, false⟩
      else .goesOn ⟨s.index + 1, s.depth, true⟩
    else if c = quoteMark then .goesOn ⟨s.index + 1, s.depth, true⟩
    else if c = '[' then .goesOn ⟨s.index + 1, s.depth + 1, false⟩
    else if c = ']' then .goesOn ⟨s.index + 1, s.depth - 1, false⟩
    else .goesOn ⟨s.index + 1, s.depth, false⟩

namespace Status

def start : Status := ⟨0, 0, false⟩

/-- The same place counted from one bracket further out. -/
def inBrackets (s : Status) : Status := ⟨s.index + 1, s.depth + 1, s.quoted⟩

/-- What the status tells of the character at its index. -/
def nesting (s : Status) : Nesting := ⟨s.depth, if s.quoted then .inside else .outside⟩

/-- The character at the index stands as the status tells. -/
def Stands (text : List Char) (s : Status) : Prop :=
  Nesting.start.after (text.take s.index) = s.nesting

/-- The status behind the character at the index, and behind the one that it hides, if it does. -/
def read (s : Status) (c : Char) : Status :=
  let behind := s.nesting.step c
  match behind.mode with
  | .outside => ⟨s.index + 1, behind.depth, false⟩
  | .inside => ⟨s.index + 1, behind.depth, true⟩
  | .escaped => ⟨s.index + 2, behind.depth, true⟩

variable {text : List Char} {s t : Status} {c : Char}

section

variable {i : Nat} {before depth : Int} {quoted : Bool}

private theorem goesOn_outside (h : (Status.nesting ⟨i, before, quoted⟩).step c = .outside depth) :
    Round.goesOn ⟨i + 1, depth, false⟩ = .goesOn (read ⟨i, before, quoted⟩ c) := by
  rw [read, h]
  rfl

private theorem goesOn_inside (h : (Status.nesting ⟨i, before, quoted⟩).step c = .inside depth) :
    Round.goesOn ⟨i + 1, depth, true⟩ = .goesOn (read ⟨i, before, quoted⟩ c) := by
  rw [read, h]
  rfl

end

theorem read_of_escaped (h : (s.nesting.step c).mode = .escaped) :
    s.read c = ⟨s.index + 2, (s.nesting.step c).depth, true⟩ := by
  simp only [read, h]

theorem read_of_shown (h : (s.nesting.step c).mode ≠ .escaped) :
    (s.read c).index = s.index + 1 ∧ (s.read c).nesting = s.nesting.step c := by
  unfold read
  cases state : s.nesting.step c with
  | mk depth mode =>
      cases mode with
      | outside => exact ⟨rfl, rfl⟩
      | inside => exact ⟨rfl, rfl⟩
      | escaped =>
          rw [state] at h
          exact absurd rfl h

theorem read_inBrackets (s : Status) (c : Char) : s.inBrackets.read c = (s.read c).inBrackets := by
  have shifted : s.inBrackets.nesting = s.nesting.shift 1 := rfl
  rw [read, shifted, Nesting.step_shift, read]
  cases s.nesting.step c with
  | mk depth mode => cases mode <;> rfl

theorem eq_of_nesting (index : s.index = t.index) (nesting : s.nesting = t.nesting) : s = t := by
  obtain ⟨i, depth, quoted⟩ := s
  obtain ⟨j, depth', quoted'⟩ := t
  cases quoted <;> cases quoted' <;> simp_all [Status.nesting]

theorem Stands.eq (hs : s.Stands text) (ht : t.Stands text) (index : s.index = t.index) :
    s = t := by
  apply eq_of_nesting index
  rw [← hs, ← ht, index]

theorem Stands.after_take (h : s.Stands text) (hc : text[s.index]? = some c) :
    Nesting.start.after (text.take (s.index + 1)) = s.nesting.step c := by
  rw [List.take_add_one, hc, Option.toList_some, Nesting.after_append, h]
  rfl

private theorem mode_nesting_ne_escaped (s : Status) : s.nesting.mode ≠ .escaped := by
  unfold nesting
  split <;> simp

/-- Where no character is hidden there is a status that stands. -/
theorem exists_stands (text : List Char) {n : Nat}
    (h : (Nesting.start.after (text.take n)).mode ≠ .escaped) :
    ∃ u : Status, u.index = n ∧ u.Stands text := by
  cases state : Nesting.start.after (text.take n) with
  | mk depth mode =>
      cases mode with
      | outside => exact ⟨⟨n, depth, false⟩, rfl, state⟩
      | inside => exact ⟨⟨n, depth, true⟩, rfl, state⟩
      | escaped =>
          rw [state] at h
          exact absurd rfl h

end Status

/-- The loop is in this status at some time. -/
inductive Visits (round : Status → Round) : Status → Prop where
  | start : Visits round .start
  | next {s t : Status} : Visits round s → round s = .goesOn t → Visits round t

/-- The loop goes through the text up to the index `stop`, where it stands outside quotes and goes
    no further. Before, a round takes the character at the index and what this hides. -/
structure Follows (text : List Char) (stop : Nat) (last : Int) (round : Status → Round) : Prop where
  stop_le : stop ≤ text.length
  outside : Status.Stands text ⟨stop, last, false⟩
  stops : ∀ t, round ⟨stop, last, false⟩ ≠ .goesOn t
  reads : ∀ s c, s.Stands text → s.index < stop → text[s.index]? = some c →
    round s = .goesOn (s.read c)

theorem Nesting.mode_step_eq_escaped_iff {s : Nesting} {c : Char} :
    (s.step c).mode = .escaped ↔ s.mode = .inside ∧ c = backslash := by
  obtain ⟨depth, mode⟩ := s
  cases mode with
  | outside =>
      simp only [step, reduceCtorEq, false_and, iff_false]
      split
      · simp
      · split
        · simp
        · split <;> simp
  | inside =>
      simp only [step, true_and]
      split
      · next hc => simp [hc]
      · next hc => split <;> simp [hc]
  | escaped => simp [step]

private theorem Nesting.step_of_escaped {s : Nesting} (h : s.mode = .escaped) (c : Char) :
    s.step c = ⟨s.depth, .inside⟩ := by
  rw [step, h]

namespace Follows

variable {text : List Char} {stop : Nat} {last : Int} {round : Status → Round} {s t : Status}
  {c : Char} (h : Follows text stop last round)
include h

theorem exists_char {n : Nat} (hn : n < stop) : ∃ c, text[n]? = some c :=
  ⟨_, List.getElem?_eq_getElem (Nat.lt_of_lt_of_le hn h.stop_le)⟩

/-- What a round takes ends in the text and leads to a place that is not hidden. -/
theorem stands_read (stands : s.Stands text) (before : s.index < stop)
    (hc : text[s.index]? = some c) :
    (s.read c).Stands text ∧ (s.read c).index ≤ stop := by
  have behind := stands.after_take hc
  by_cases hides : (s.nesting.step c).mode = .escaped
  · have further : s.index + 1 ≠ stop := by
      intro here
      have outside := h.outside
      rw [Status.Stands, ← here, behind] at outside
      rw [outside] at hides
      cases hides
    obtain ⟨hidden, hh⟩ := h.exists_char (n := s.index + 1) (by omega)
    rw [Status.read_of_escaped hides]
    refine ⟨?_, by simp only; omega⟩
    rw [Status.Stands, List.take_add_one, hh, Option.toList_some, Nesting.after_append, behind]
    exact Nesting.step_of_escaped hides hidden
  · obtain ⟨index, nesting⟩ := Status.read_of_shown hides
    refine ⟨?_, by omega⟩
    rw [Status.Stands, index, nesting]
    exact behind

/-- What a round does to a status that stands in the text. -/
theorem step (stands : s.Stands text) (within : s.index ≤ stop) (goes : round s = .goesOn t) :
    t.Stands text ∧ t.index ≤ stop := by
  have before : s.index < stop := by
    refine Nat.lt_of_le_of_ne within fun here => ?_
    rw [stands.eq h.outside here] at goes
    exact h.stops t goes
  obtain ⟨c, hc⟩ := h.exists_char before
  rw [h.reads s c stands before hc, Round.goesOn.injEq] at goes
  rw [← goes]
  exact h.stands_read stands before hc

/-- A hidden character has a backslash in quotes in front of it. -/
theorem exists_backslash {n : Nat} (within : n ≤ stop)
    (mode : (Nesting.start.after (text.take n)).mode = .escaped) :
    ∃ (u : Status) (c : Char), u.index + 1 = n ∧ u.Stands text ∧ text[u.index]? = some c ∧
      (u.nesting.step c).mode = .escaped := by
  cases n with
  | zero => cases mode
  | succ n =>
      obtain ⟨c, hc⟩ := h.exists_char (n := n) (by omega)
      rw [List.take_add_one, hc, Option.toList_some, Nesting.after_append] at mode
      have inside := (Nesting.mode_step_eq_escaped_iff.mp mode).1
      obtain ⟨u, rfl, stands⟩ := Status.exists_stands text (n := n) (by simp [inside])
      exact ⟨u, c, rfl, stands, hc, stands ▸ mode⟩

/-- Every place that is not hidden is visited. -/
theorem visits_of_stands (stands : s.Stands text) (within : s.index ≤ stop) : Visits round s := by
  induction hn : s.index using Nat.strongRecOn generalizing s with
  | ind n ih =>
      cases n with
      | zero =>
          have first : Status.Stands text .start := rfl
          rw [stands.eq first hn]
          exact .start
      | succ n =>
          by_cases mode : (Nesting.start.after (text.take n)).mode = .escaped
          · obtain ⟨u, c, before, here, hc, hides⟩ := h.exists_backslash (by omega) mode
            have visited := ih u.index (by omega) here (by omega) rfl
            have later := (h.stands_read here (by omega) hc).1
            have index : s.index = (u.read c).index := by
              rw [Status.read_of_escaped hides]
              simp only
              omega
            rw [stands.eq later index]
            exact .next visited (h.reads u c here (by omega) hc)
          · obtain ⟨u, rfl, here⟩ := Status.exists_stands text mode
            have visited := ih u.index (by omega) here (by omega) rfl
            obtain ⟨c, hc⟩ := h.exists_char (n := u.index) (by omega)
            have state : s.nesting = u.nesting.step c := by
              rw [← stands, hn, here.after_take hc]
            obtain ⟨index, nesting⟩ := Status.read_of_shown (state ▸ s.mode_nesting_ne_escaped)
            rw [Status.eq_of_nesting (hn.trans index.symm) (state.trans nesting.symm)]
            exact .next visited (h.reads u c here (by omega) hc)

theorem visits_iff : Visits round s ↔ s.Stands text ∧ s.index ≤ stop := by
  constructor
  · intro visits
    induction visits with
    | start => exact ⟨rfl, Nat.zero_le _⟩
    | next _ goes ih => exact h.step ih.1 ih.2 goes
  · rintro ⟨stands, within⟩
    exact h.visits_of_stands stands within

end Follows

section

variable {text : List Char} {s : Status} {c : Char}

/-- The loop for the commas reads every character alike, wherever the text ends. -/
theorem commaRound_eq (hc : text[s.index]? = some c) : commaRound text s = .goesOn (s.read c) := by
  obtain ⟨i, depth, quoted⟩ := s
  simp only at hc
  simp only [commaRound, hc]
  cases quoted with
  | true =>
      rw [if_pos rfl]
      split
      · next hb =>
          subst hb
          rfl
      · next hb =>
          split
          · next hq =>
              subst hq
              exact Status.goesOn_outside Nesting.step_inside_quote
          · next hq => exact Status.goesOn_inside (Nesting.step_inside_plain hq hb)
  | false =>
      rw [if_neg Bool.false_ne_true]
      split
      · next hq =>
          subst hq
          exact Status.goesOn_inside Nesting.step_outside_quote
      · next hq =>
          split
          · next ho =>
              subst ho
              exact Status.goesOn_outside (step_open depth)
          · next ho =>
              split
              · next hc =>
                  subst hc
                  exact Status.goesOn_outside Nesting.step_outside_closing
              · next hc => exact Status.goesOn_outside (Nesting.step_outside_other hq ho hc)

/-- With a character left behind a backslash, and away from the bracket that closes the list, the
    rules of the loops come to the same. -/
theorem bracketRound_eq_commaRound (hc : text[s.index]? = some c) (more : s.index + 1 < text.length)
    (still : ¬s.nesting.Closes c) : bracketRound text s = commaRound text s := by
  obtain ⟨i, depth, quoted⟩ := s
  simp only at hc more
  simp only [bracketRound, commaRound, hc, more, and_true]
  cases quoted with
  | true => rfl
  | false =>
      by_cases close : c = ']'
      · have inner : depth - 1 ≠ 0 := by
          intro outermost
          exact still ⟨rfl, close, by simp only [Status.nesting]; omega⟩
        rw [if_neg inner]
      · simp only [if_neg close]

end

/-- The loop for the commas follows a text that ends outside quotes. -/
theorem follows_commaRound {text : List Char} {last : Int}
    (ends : Nesting.start.after text = .outside last) :
    Follows text text.length last (commaRound text) := by
  constructor
  case stop_le => exact Nat.le_refl _
  case outside =>
    rw [Status.Stands, List.take_length]
    exact ends
  case stops =>
    intro t
    rw [commaRound, List.getElem?_eq_none (Nat.le_refl _)]
    simp
  case reads => exact fun s c _ _ hc => commaRound_eq hc

theorem Nesting.after_shift (s : Nesting) (n : Int) (cs : List Char) :
    (s.shift n).after cs = (s.after cs).shift n := by
  induction cs generalizing s with
  | nil => rfl
  | cons c cs ih => rw [after_cons, after_cons, step_shift, ih]

theorem Runs.after_eq {stop : Nesting → Char → Prop} {s t : Nesting} {cs : List Char}
    (h : Runs stop s cs t) : s.after cs = t := by
  induction h with
  | nil => rfl
  | cons _ _ ih => exact ih

private theorem Runs.not_stop {stop : Nesting → Char → Prop} {s t : Nesting} {cs : List Char}
    {n : Nat}
    {c : Char} (h : Runs stop s cs t) (hc : cs[n]? = some c) : ¬stop (s.after (cs.take n)) c := by
  induction h generalizing n with
  | nil => cases hc
  | @cons s d cs t passed _ ih =>
      cases n with
      | zero =>
          cases hc
          exact passed
      | succ n => exact ih hc

theorem Runs.one_le_depth {s t : Nesting} {cs : List Char} (h : Runs Nesting.Closes s cs t)
    (deep : 1 ≤ s.depth) (n : Nat) : 1 ≤ (s.after (cs.take n)).depth := by
  induction h generalizing n with
  | nil =>
      rw [List.take_nil]
      exact deep
  | cons passed _ ih =>
      cases n with
      | zero => exact deep
      | succ n => exact ih (Nesting.one_le_depth_step passed deep) n

variable {body : List Char}

/-- Seen from outside of the brackets everything stands one bracket deeper. -/
theorem after_take_bracket (rest : List Char) {n : Nat} (hn : n ≤ body.length) :
    Nesting.start.after (('[' :: (body ++ rest)).take (n + 1)) =
      (Nesting.start.after (body.take n)).shift 1 := by
  rw [List.take_succ_cons, List.take_append_of_le_length hn, ← Nesting.after_shift]
  rfl

theorem bracketRound_close (body rest : List Char) :
    bracketRound ('[' :: (body ++ ']' :: rest)) ⟨body.length + 1, 1, false⟩ =
      .closed (body.length + 2) := by
  have close : ('[' :: (body ++ ']' :: rest))[body.length + 1]? = some ']' := by simp
  rw [bracketRound, close]
  rfl

section

variable (runs : Runs Nesting.Closes (.outside 1) body (.outside 1))
include runs

theorem after_body : Nesting.start.after body = .outside 0 := by
  have inner : (Nesting.start.shift 1).after body = .outside 1 := runs.after_eq
  rw [Nesting.after_shift] at inner
  cases state : Nesting.start.after body with
  | mk depth mode =>
      rw [state] at inner
      simp only [Nesting.shift, Nesting.outside, Nesting.mk.injEq] at inner ⊢
      exact ⟨by omega, inner.2⟩

private theorem not_closes_of_stands {rest : List Char} {s : Status} {c : Char}
    (stands : s.Stands ('[' :: (body ++ rest))) (within : s.index < body.length + 1)
    (hc : ('[' :: (body ++ rest))[s.index]? = some c) : ¬s.nesting.Closes c := by
  obtain ⟨index, depth, quoted⟩ := s
  cases index with
  | zero =>
      cases hc
      rintro ⟨_, close, _⟩
      exact absurd close (by decide)
  | succ n =>
      have inside : n < body.length := Nat.lt_of_succ_lt_succ within
      rw [List.getElem?_cons_succ, List.getElem?_append_left inside] at hc
      have passed := runs.not_stop hc
      rw [← stands, after_take_bracket rest (Nat.le_of_lt inside), ← Nesting.after_shift]
      exact passed

/-- The loop for the closing bracket goes up to that bracket. -/
theorem follows_bracketRound (rest : List Char) :
    Follows ('[' :: (body ++ ']' :: rest)) (body.length + 1) 1
      (bracketRound ('[' :: (body ++ ']' :: rest))) := by
  have length : ('[' :: (body ++ ']' :: rest)).length = body.length + 2 + rest.length := by
    simp only [List.length_cons, List.length_append]
    omega
  constructor
  case stop_le => omega
  case outside =>
    rw [Status.Stands, List.take_succ_cons, List.take_left]
    exact runs.after_eq
  case stops =>
    intro t
    rw [bracketRound_close]
    simp
  case reads =>
    intro s c stands within hc
    rw [bracketRound_eq_commaRound hc (by omega) (not_closes_of_stands runs stands within hc)]
    exact commaRound_eq hc

end

end RecordFilter.Text
