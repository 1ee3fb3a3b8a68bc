import RecordFilter.Proofs.Stream.Descent

/-! # The descent reads what the reader reads

The reader remembers in its state what the descent has in the routines that wait for an answer. So
the reader, resumed with what such routines have read before, comes to what a routine comes to and
goes on from there. By induction on the tokens that are left this holds of every request, and the
first request is for the whole query.
-/

namespace RecordFilter

namespace Reader

variable {limit : Int} {r : Reader} {p : Lookahead}

/-- What comes of the rest of a scan. -/
def complete (limit : Int) (r : Reader) (s : Scan) : Except Failure (List StreamItem) := do
  let reader ← s.tokens.foldlM (step limit) r
  match s.ending with
  | .finish position => reader.finish limit position
  | .failed failure => .error failure

/-- What comes of the rest of a text whose next token has been looked at. -/
def resume (limit : Int) (r : Reader) (p : Lookahead) : Except Failure (List StreamItem) :=
  if p.token.kind = .finish then r.finish limit p.token.position
  else r.step limit p.token >>= fun r' => r'.complete limit (Scan.ofCursor p.behind)

theorem complete_ofCursor (limit : Int) (r : Reader) (c : Cursor) :
    r.complete limit (Scan.ofCursor c) = Lookahead.ofCursor c >>= r.resume limit := by
  cases next : c.next with
  | error failure =>
      rw [Scan.ofCursor_of_error next, Lookahead.ofCursor, next]
      rfl
  | ok found =>
      obtain ⟨t, d⟩ := found
      have looked : Lookahead.ofCursor c = .ok ⟨t, d⟩ := Lookahead.ofCursor_eq_ok_iff.mpr next
      rw [looked, ok_bind, resume]
      split
      · next last =>
          rw [Scan.ofCursor_of_finish next last]
          rfl
      · next more =>
          rw [Scan.ofCursor_of_next next more, complete, Scan.cons, List.foldlM_cons, bind_assoc]
          rfl

/-- The reader takes the token that has been looked at and looks at the next one. -/
theorem resume_of_ne_finish (h : p.token.kind ≠ .finish) :
    r.resume limit p = r.step limit p.token >>= fun r' => p.advance >>= r'.resume limit := by
  rw [resume, if_neg h]
  exact bind_congr_of_ok fun r' _ => complete_ofCursor limit r' p.behind

/-- The end of the text is refused as a token is, unless the query could end or has not begun. -/
theorem resume_eq (start : r.expecting ≠ .start) (link : r.expecting = .link → r.outer ≠ []) :
    r.resume limit p = r.step limit p.token >>= fun r' => p.advance >>= r'.resume limit := by
  by_cases last : p.token.kind = .finish
  · rw [resume, if_pos last]
    obtain ⟨expecting, items, outer⟩ := r
    cases expecting with
    | start => exact absurd rfl start
    | opened =>
        simp only [finish, step, beginItem, last, isTooDeep]
        by_cases deep : limit < outer.length
        · simp only [deep]
          rfl
        · simp only [deep]
          rfl
    | item => simp only [finish, step, beginItem, last]; rfl
    | operator identifier => simp only [finish, step, takeOperator, last]; rfl
    | afterNot identifier position => simp only [finish, step, takeContains, last]; rfl
    | literal identifier operator => simp only [finish, step, takeLiteral, last]; rfl
    | link =>
        obtain ⟨group, around, rfl⟩ := List.exists_cons_of_ne_nil (link rfl)
        simp only [finish, step, takeLink, last]
        rfl
  · exact resume_of_ne_finish last

variable {items : List StreamItem} {outer : List OpenGroup}

private theorem resume_operator (identifier : String) :
    resume limit ⟨.operator identifier, items, outer⟩ p = (do
      let (operator, q) ← Descent.readOperator p
      resume limit ⟨.literal identifier operator, items, outer⟩ q) := by
  rw [resume_eq (by simp) (by simp)]
  simp only [step, takeOperator, Descent.readOperator]
  cases p.token.kind.comparison? with
  | some operator => simp only [ok_bind, bind_assoc, pure_bind]
  | none =>
      dsimp only
      split
      · rw [ok_bind, bind_assoc]
        refine bind_congr_of_ok fun q _ => ?_
        rw [resume_eq (by simp) (by simp)]
        simp only [step, takeContains]
        split
        · simp only [ok_bind, bind_assoc, pure_bind]
        · split <;> rfl
      · split <;> rfl

private theorem resume_literal (identifier : String) (operator : Comparison) :
    resume limit ⟨.literal identifier operator, items, outer⟩ p = (do
      let (literal, q) ← Descent.readLiteral p
      resume limit ⟨.link, items ++ [.comparison identifier operator literal], outer⟩ q) := by
  rw [resume_eq (by simp) (by simp)]
  simp only [step, takeLiteral, Descent.readLiteral]
  split
  · simp only [ok_bind, bind_assoc, pure_bind]
  · rfl

private theorem resume_comparison (h : p.token.kind ≠ .openParen) :
    resume limit ⟨.item, items, outer⟩ p = (do
      let (item, q) ← Descent.readComparison p
      resume limit ⟨.link, items ++ [item], outer⟩ q) := by
  rw [resume_eq (by simp) (by simp)]
  simp only [step, beginItem, if_neg h, Descent.readComparison]
  split
  · cases Identifier.fault? p.token.content with
    | some fault => rfl
    | none =>
        simp only [ok_bind, bind_assoc, pure_bind]
        refine bind_congr_of_ok fun q _ => ?_
        rw [resume_operator]
        refine bind_congr_of_ok fun found _ => ?_
        obtain ⟨operator, r⟩ := found
        exact resume_literal _ operator
  · rfl

variable {group : OpenGroup}

private theorem resume_opened : resume limit ⟨.opened, [], group :: outer⟩ p =
    if p.token.kind = .closeParen then fail .emptyGroup p.token.position
    else if limit ≤ outer.length then fail (.tooDeep limit) p.token.position
    else resume limit ⟨.item, [], group :: outer⟩ p := by
  have deep : isTooDeep limit ⟨.opened, [], group :: outer⟩ = true ↔ limit ≤ outer.length := by
    rw [isTooDeep, decide_eq_true_eq, List.length_cons]
    omega
  rw [resume_eq (by simp) (by simp), resume_eq (by simp) (by simp)]
  simp only [step, deep]
  split
  · rfl
  · split <;> rfl

/-- A level in a group that has been read up to a token that links nothing. -/
theorem resume_close (h : p.token.kind.connective? = none) :
    resume limit ⟨.link, items, group :: outer⟩ p =
      if p.token.kind = .closeParen then p.advance >>=
        resume limit ⟨.link, group.before ++ [.group items (some group.position)], outer⟩
      else fail .unmatchedOpen group.position := by
  rw [resume_eq (by simp) (fun _ => List.cons_ne_nil _ _)]
  simp only [step, takeLink, h]
  split <;> rfl

/-- A level that has been read up to a connective. -/
theorem resume_connective {connective : Connective}
    (h : p.token.kind.connective? = some connective) : resume limit ⟨.link, items, outer⟩ p =
      p.advance >>= resume limit ⟨.item, items ++ [.connective connective], outer⟩ := by
  have more : p.token.kind ≠ .finish := by
    intro last
    rw [last] at h
    cases h
  rw [resume_of_ne_finish more]
  simp only [step, takeLink, h]
  rfl

end Reader

namespace Descent

open Reader (resume)

variable {limit : Int} {ask : Request → Answer} {p : Lookahead} {front : List StreamItem}
  {outer : List OpenGroup}

/-- The reader when a request is made of it. It has read `front` at this level before the routine
    that asks, and what the request tells. -/
def Request.reader (c : Request) (front : List StreamItem) (outer : List OpenGroup) : Reader :=
  match c.routine with
  | .level => ⟨.item, front, outer⟩
  | .terms before | .items before => ⟨.link, front ++ before, outer⟩

/-- The reader comes to this answer, and goes on behind it. -/
def Request.Continues (limit : Int) (c : Request) (answer : Answer) : Prop :=
  ∀ front outer, outer.length = c.depth → resume limit (c.reader front outer) c.place = (do
    let (items, q) ← answer
    resume limit ⟨.link, front ++ items, outer⟩ q)

/-- The answers to requests with fewer than `n` tokens left are the reader's. -/
abbrev ContinuesBelow (limit : Int) (n : Nat) (ask : Request → Answer) : Prop :=
  Below n fun c => c.Continues limit (ask c) ∧ c.Expected (ask c)

theorem ContinuesBelow.answers {n : Nat} (h : ContinuesBelow limit n ask) : AnswersBelow n ask :=
  h.imp fun _ => And.right

theorem resume_item (below : ContinuesBelow limit p.tokensLeft ask) :
    resume limit ⟨.item, front, outer⟩ p = (do
      let (item, q) ← readItem limit ask outer.length p
      resume limit ⟨.link, front ++ [item], outer⟩ q) := by
  by_cases opening : p.token.kind = .openParen
  · rw [Reader.resume_eq (by simp) (by simp)]
    simp only [Reader.step, Reader.beginItem, readItem, if_pos opening, ok_bind, bind_assoc]
    refine bind_congr_of_ok fun q next => ?_
    have shorter := tokensLeft_lt_of_advance next opening (by decide)
    rw [Reader.resume_opened]
    split
    · rfl
    · split
      · rfl
      · obtain ⟨continues, expected⟩ := below ⟨.level, outer.length + 1, q⟩ shorter
        refine (continues [] (⟨p.token.position, front⟩ :: outer) rfl).trans ?_
        rw [bind_assoc]
        refine bind_congr_of_ok fun found level => ?_
        obtain ⟨items, r⟩ := found
        dsimp only
        rw [List.nil_append, Reader.resume_close (expected items r level).2]
        split
        · simp only [bind_assoc, pure_bind]
        · rfl
  · simp only [readItem, if_neg opening]
    exact Reader.resume_comparison opening

theorem continues_readItems (below : ContinuesBelow limit p.tokensLeft ask) (depth : Nat)
    (before : List StreamItem) :
    Request.Continues limit ⟨.items before, depth, p⟩ (readItems limit ask before depth p) := by
  rintro front outer rfl
  unfold readItems
  split
  · next linked =>
      rw [Request.reader, Reader.resume_connective (by rw [linked]; rfl), bind_assoc]
      refine bind_congr_of_ok fun q next => ?_
      have shorter := tokensLeft_lt_of_advance next linked (by decide)
      rw [resume_item (below.mono shorter.le), bind_assoc]
      refine bind_congr_of_ok fun (item, r) hi => ?_
      have taken := tokensLeft_of_readItem (below.answers.mono shorter.le) hi
      have behind := Nat.lt_trans taken shorter
      have further :=
        (below ⟨.items (before ++ [.connective .and, item]), _, r⟩ behind).1 front outer rfl
      rw [Request.reader] at further
      simpa only [List.append_assoc, List.cons_append, List.nil_append] using further
  · rfl

theorem resume_term (below : ContinuesBelow limit p.tokensLeft ask) :
    resume limit ⟨.item, front, outer⟩ p = (do
      let (term, q) ← readTerm limit ask outer.length p
      resume limit ⟨.link, front ++ term, outer⟩ q) := by
  rw [resume_item below, readTerm, bind_assoc]
  refine bind_congr_of_ok fun (item, q) hi => ?_
  have shorter := tokensLeft_of_readItem below.answers hi
  exact continues_readItems (below.mono shorter.le) _ [item] front outer rfl

theorem continues_readTerms (below : ContinuesBelow limit p.tokensLeft ask) (depth : Nat)
    (before : List StreamItem) :
    Request.Continues limit ⟨.terms before, depth, p⟩ (readTerms limit ask before depth p) := by
  rintro front outer rfl
  unfold readTerms
  split
  · next linked =>
      rw [Request.reader, Reader.resume_connective (by rw [linked]; rfl), bind_assoc]
      refine bind_congr_of_ok fun q next => ?_
      have shorter := tokensLeft_lt_of_advance next linked (by decide)
      rw [resume_term (below.mono shorter.le), bind_assoc]
      refine bind_congr_of_ok fun (term, r) ht => ?_
      have taken := (expected_readTerm (below.answers.mono shorter.le) ht).1
      have behind := Nat.lt_trans taken shorter
      have further :=
        (below ⟨.terms (before ++ .connective .or :: term), _, r⟩ behind).1 front outer rfl
      rw [Request.reader] at further
      simpa only [List.append_assoc, List.cons_append, List.nil_append] using further
  · rfl

private theorem continues_readLevel (below : ContinuesBelow limit p.tokensLeft ask) (depth : Nat) :
    Request.Continues limit ⟨.level, depth, p⟩ (readLevel limit ask depth p) := by
  rintro front outer rfl
  rw [readLevel, Request.reader, resume_term below, bind_assoc]
  refine bind_congr_of_ok fun (term, q) ht => ?_
  have shorter := (expected_readTerm below.answers ht).1
  exact continues_readTerms (below.mono shorter.le) _ term front outer rfl

/-- What one step does for a request, from what it does for those further on. -/
theorem continues_perform {c : Request} (below : ContinuesBelow limit c.place.tokensLeft ask) :
    c.Continues limit (perform limit ask c) := by
  obtain ⟨routine, depth, p⟩ := c
  cases routine with
  | level => exact continues_readLevel below depth
  | terms before => exact continues_readTerms below depth before
  | items before => exact continues_readItems below depth before

/-- The answers of the descent are those of the reader, with all requests taken together. -/
theorem continues_of_solution (hf : Solves (perform limit) ask) (c : Request) :
    c.Continues limit (ask c) := by
  induction hn : c.place.tokensLeft using Nat.strongRecOn generalizing c with
  | ind n ih =>
      rw [hf]
      apply continues_perform
      intro d smaller
      exact ⟨ih _ (hn ▸ smaller) d rfl, (descends limit).expected_of_solution hf d⟩

/-- Read by descent or by the reader, a text has the same stream or the same failure. -/
theorem readQuery_eq_ofText (hf : Solves (perform limit) ask) (text : String) :
    readQuery ask text = StreamItem.ofText limit text := by
  have whole : StreamItem.ofText limit text =
      Lookahead.ofCursor (.start 0 text) >>= Reader.start.resume limit :=
    Reader.complete_ofCursor limit .start _
  rw [whole, readQuery]
  refine bind_congr_of_ok fun p _ => ?_
  split
  · next last =>
      rw [Reader.resume, if_pos last]
      rfl
  · next more =>
      have first : Reader.start.resume limit p = resume limit ⟨.item, [], []⟩ p := by
        rw [Reader.resume_of_ne_finish more, Reader.resume_of_ne_finish more]
        rfl
      rw [first]
      refine Eq.trans ?_ (continues_of_solution hf ⟨.level, 0, p⟩ [] [] rfl).symm
      refine bind_congr_of_ok fun (items, q) level => ?_
      have ended := ((descends limit).expected_of_solution hf _ items q level).2
      dsimp only at ended ⊢
      by_cases last : q.token.kind = .finish
      · rw [Reader.resume, if_pos last, last]
        rfl
      · rw [Reader.resume_of_ne_finish last]
        simp only [Reader.step, Reader.takeLink, ended, if_neg last]
        split <;> rfl

end Descent
end RecordFilter
