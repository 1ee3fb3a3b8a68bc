import RecordFilter.Proofs.Recursion
import RecordFilter.Proofs.Result
import RecordFilter.Proofs.Token.Scan
import RecordFilter.Stream.Reader

/-! # Reading by descent

There is another way to read a stream, with a routine for each rule of the grammar. A routine looks
at one token and takes it when it knows what it is. The loops go round by asking for a further
round, and a parenthesis asks for a level. All of this is asked only after a token has been taken,
so the descent ends, however deep groups may be nested.
-/

namespace RecordFilter

open Reader (fail)

theorem TokenKind.connective?_eq_none {kind : TokenKind} (hand : kind ≠ .and) (hor : kind ≠ .or) :
    kind.connective? = none := by
  unfold connective?
  split
  · exact absurd rfl hand
  · exact absurd rfl hor
  · rfl

/-- The token that is looked at, and the place behind it. -/
structure Lookahead where
  token : Token
  behind : Cursor

namespace Lookahead

/-- Looks at the next token. -/
def ofCursor (c : Cursor) : Except Failure Lookahead := do
  let (token, behind) ← c.next
  return ⟨token, behind⟩

/-- Takes the token and looks at the one behind it. -/
def advance (p : Lookahead) : Except Failure Lookahead := ofCursor p.behind

/-- How many tokens can still be taken. The end of the text is none. -/
def tokensLeft (p : Lookahead) : Nat :=
  if p.token.kind = .finish then 0 else (Scan.ofCursor p.behind).tokens.length + 1

theorem ofCursor_eq_ok_iff {c : Cursor} {p : Lookahead} :
    ofCursor c = .ok p ↔ c.next = .ok (p.token, p.behind) := by
  obtain ⟨token, behind⟩ := p
  rw [ofCursor, bind_eq_ok_iff]
  simp only [pure_eq_ok_iff, Lookahead.mk.injEq, Prod.exists]
  constructor
  · rintro ⟨_, _, next, rfl, rfl⟩
    exact next
  · intro next
    exact ⟨_, _, next, rfl, rfl⟩

/-- One token is taken. -/
theorem tokensLeft_of_advance {p q : Lookahead} (h : p.advance = .ok q)
    (hk : p.token.kind ≠ .finish) : q.tokensLeft + 1 = p.tokensLeft := by
  have next := ofCursor_eq_ok_iff.mp h
  rw [tokensLeft, tokensLeft, if_neg hk]
  split
  · next last => rw [Scan.ofCursor_of_finish next last, List.length_nil]
  · next more => rw [Scan.ofCursor_of_next next more, Scan.cons, List.length_cons]

end Lookahead

namespace Descent

/-- What a routine asks for: a level, or a further round of the loop over the terms of a level or
    over the items of a term, with what has been read before it. -/
inductive Routine where
  | level
  | terms (before : List StreamItem)
  | items (before : List StreamItem)

/-- What is to be read, how many groups are around, and where. -/
structure Request where
  routine : Routine
  depth : Nat
  place : Lookahead

/-- What has been read and the place behind it. -/
abbrev Answer := Except Failure (List StreamItem × Lookahead)

def readOperator (p : Lookahead) : Except Failure (Comparison × Lookahead) :=
  match p.token.kind.comparison? with
  | some operator => do return (operator, ← p.advance)
  | none =>
    if p.token.kind = .not then do
      let q ← p.advance
      if q.token.kind = .contains then return (.notContains, ← q.advance)
      else if q.token.kind = .memberOf then fail .unsupportedNotIn p.token.position
      else fail .expectedContains q.token.position
    else if p.token.kind.isWord then fail (.unknownOperator p.token.content) p.token.position
    else fail (.expectedComparison p.token.kind) p.token.position

def readLiteral (p : Lookahead) : Except Failure (Token × Lookahead) :=
  if p.token.kind.isLiteral then do return (p.token, ← p.advance)
  else fail (.expectedLiteral p.token.kind) p.token.position

def readComparison (p : Lookahead) : Except Failure (StreamItem × Lookahead) :=
  if p.token.kind.isWord then
    match Identifier.fault? p.token.content with
    | some fault => fail (.identifier fault) p.token.position
    | none => do
      let q ← p.advance
      let (operator, r) ← readOperator q
      let (literal, s) ← readLiteral r
      return (.comparison p.token.content operator literal, s)
  else fail (.expectedIdentifier p.token.kind) p.token.position

section

variable (limit : Int) (ask : Request → Answer)

/-- A comparison, or a level in parentheses. -/
def readItem (depth : Nat) (p : Lookahead) : Except Failure (StreamItem × Lookahead) :=
  if p.token.kind = .openParen then do
    let q ← p.advance
    if q.token.kind = .closeParen then fail .emptyGroup q.token.position
    else if limit ≤ depth then fail (.tooDeep limit) q.token.position
    else do
      let (items, r) ← ask ⟨.level, depth + 1, q⟩
      if r.token.kind = .closeParen then
        return (.group items (some p.token.position), ← r.advance)
      else fail .unmatchedOpen p.token.position
  else readComparison p

/-- One round of the loop over the items of a term: goes on behind an `and`. -/
def readItems (before : List StreamItem) (depth : Nat) (p : Lookahead) : Answer :=
  if p.token.kind = .and then do
    let q ← p.advance
    let (item, r) ← readItem limit ask depth q
    ask ⟨.items (before ++ [.connective .and, item]), depth, r⟩
  else .ok (before, p)

def readTerm (depth : Nat) (p : Lookahead) : Answer := do
  let (item, q) ← readItem limit ask depth p
  readItems limit ask [item] depth q

/-- One round of the loop over the terms of a level: goes on behind an `or`. -/
def readTerms (before : List StreamItem) (depth : Nat) (p : Lookahead) : Answer :=
  if p.token.kind = .or then do
    let q ← p.advance
    let (term, r) ← readTerm limit ask depth q
    ask ⟨.terms (before ++ .connective .or :: term), depth, r⟩
  else .ok (before, p)

def readLevel (depth : Nat) (p : Lookahead) : Answer := do
  let (term, q) ← readTerm limit ask depth p
  readTerms limit ask term depth q

/-- The routine that is asked for. -/
def perform (c : Request) : Answer :=
  match c.routine with
  | .level => readLevel limit ask c.depth c.place
  | .terms before => readTerms limit ask before c.depth c.place
  | .items before => readItems limit ask before c.depth c.place

end

/-- Reads a whole query, which is a level with nothing behind it. -/
def readQuery (ask : Request → Answer) (text : String) : Except Failure (List StreamItem) := do
  let p ← Lookahead.ofCursor (.start 0 text)
  if p.token.kind = .finish then fail .emptyQuery p.token.position
  else do
    let (items, q) ← ask ⟨.level, 0, p⟩
    if q.token.kind = .closeParen then fail .unmatchedClose q.token.position
    else if q.token.kind = .finish then return items
    else fail (.trailingToken q.token.content) q.token.position

variable {p q : Lookahead}

theorem tokensLeft_lt_of_advance {kind : TokenKind} (h : p.advance = .ok q)
    (hk : p.token.kind = kind) (more : kind ≠ .finish) : q.tokensLeft < p.tokensLeft := by
  have := Lookahead.tokensLeft_of_advance h (hk ▸ more)
  omega

private theorem tokensLeft_of_readOperator {operator : Comparison}
    (h : readOperator p = .ok (operator, q)) :
    q.tokensLeft < p.tokensLeft := by
  unfold readOperator at h
  split at h
  · next spelled =>
      have more : p.token.kind ≠ .finish := by
        intro last
        rw [last] at spelled
        cases spelled
      obtain ⟨_, next, pair⟩ := bind_eq_ok_iff.mp h
      cases pure_eq_ok_iff.mp pair
      exact tokensLeft_lt_of_advance next rfl more
  · split at h
    · next negated =>
        obtain ⟨second, next, h⟩ := bind_eq_ok_iff.mp h
        have shorter := tokensLeft_lt_of_advance next negated (by decide)
        split at h
        · next contains =>
            obtain ⟨_, next, pair⟩ := bind_eq_ok_iff.mp h
            cases pure_eq_ok_iff.mp pair
            exact Nat.lt_trans (tokensLeft_lt_of_advance next contains (by decide)) shorter
        · split at h <;> cases h
    · split at h <;> cases h

private theorem tokensLeft_of_readLiteral {literal : Token} (h : readLiteral p = .ok (literal, q)) :
    q.tokensLeft < p.tokensLeft := by
  unfold readLiteral at h
  split at h
  · next isLiteral =>
      have more : p.token.kind ≠ .finish := by
        intro last
        rw [last] at isLiteral
        cases isLiteral
      obtain ⟨_, next, pair⟩ := bind_eq_ok_iff.mp h
      cases pure_eq_ok_iff.mp pair
      exact tokensLeft_lt_of_advance next rfl more
  · cases h

private theorem tokensLeft_of_readComparison {item : StreamItem}
    (h : readComparison p = .ok (item, q)) :
    q.tokensLeft < p.tokensLeft := by
  unfold readComparison at h
  split at h
  · next word =>
      split at h
      · cases h
      · have more : p.token.kind ≠ .finish := by
          intro last
          rw [last] at word
          cases word
        obtain ⟨first, next, h⟩ := bind_eq_ok_iff.mp h
        obtain ⟨⟨operator, second⟩, ho, h⟩ := bind_eq_ok_iff.mp h
        obtain ⟨⟨literal, third⟩, hl, pair⟩ := bind_eq_ok_iff.mp h
        cases pure_eq_ok_iff.mp pair
        have := tokensLeft_lt_of_advance next rfl more
        have := tokensLeft_of_readOperator ho
        have := tokensLeft_of_readLiteral hl
        omega
  · cases h

/-- What is to be expected of an answer: it stands no further back than what was asked, and behind
    all connectives that the routine takes. A loop over terms is only entered behind a whole term.
    -/
def Request.Expected (c : Request) (answer : Answer) : Prop :=
  ∀ items q, answer = .ok (items, q) → q.tokensLeft ≤ c.place.tokensLeft ∧
    match c.routine with
    | .level => q.token.kind.connective? = none
    | .terms _ => c.place.token.kind ≠ .and → q.token.kind.connective? = none
    | .items _ => q.token.kind ≠ .and

section

variable {limit : Int} {ask other : Request → Answer} {n depth : Nat}

/-- This holds of all requests with fewer than `n` tokens left. -/
def Below (n : Nat) (P : Request → Prop) : Prop := ∀ c : Request, c.place.tokensLeft < n → P c

theorem Below.mono {m n : Nat} {P : Request → Prop} (h : Below n P) (hm : m ≤ n) : Below m P :=
  fun c hc => h c (Nat.lt_of_lt_of_le hc hm)

theorem Below.imp {n : Nat} {P Q : Request → Prop} (h : Below n P) (each : ∀ c, P c → Q c) :
    Below n Q :=
  fun c hc => each c (h c hc)

/-- Requests with fewer than `n` tokens left are answered as expected. -/
abbrev AnswersBelow (n : Nat) (ask : Request → Answer) : Prop := Below n fun c => c.Expected (ask c)

theorem tokensLeft_of_readItem {item : StreamItem} (expected : AnswersBelow p.tokensLeft ask)
    (h : readItem limit ask depth p = .ok (item, q)) : q.tokensLeft < p.tokensLeft := by
  unfold readItem at h
  split at h
  · next opening =>
      obtain ⟨inner, next, h⟩ := bind_eq_ok_iff.mp h
      have shorter := tokensLeft_lt_of_advance next opening (by decide)
      split at h
      · cases h
      · split at h
        · cases h
        · obtain ⟨⟨items, r⟩, level, h⟩ := bind_eq_ok_iff.mp h
          simp only at h
          split at h
          · next closing =>
              obtain ⟨_, next, pair⟩ := bind_eq_ok_iff.mp h
              cases pure_eq_ok_iff.mp pair
              have : r.tokensLeft ≤ inner.tokensLeft := (expected _ shorter items r level).1
              have := tokensLeft_lt_of_advance next closing (by decide)
              omega
          · cases h
  · exact tokensLeft_of_readComparison h

theorem expected_readItems {before : List StreamItem} (expected : AnswersBelow p.tokensLeft ask) :
    Request.Expected ⟨.items before, depth, p⟩ (readItems limit ask before depth p) := by
  intro items q h
  unfold readItems at h
  split at h
  · next linked =>
      obtain ⟨first, next, h⟩ := bind_eq_ok_iff.mp h
      obtain ⟨⟨item, second⟩, hi, h⟩ := bind_eq_ok_iff.mp h
      have shorter := tokensLeft_lt_of_advance next linked (by decide)
      have behind := Nat.lt_trans (tokensLeft_of_readItem (expected.mono shorter.le) hi) shorter
      obtain ⟨further, stands⟩ := expected _ behind items q h
      exact ⟨Nat.le_trans further behind.le, stands⟩
  · next ended =>
      cases h
      exact ⟨Nat.le_refl _, ended⟩

theorem expected_readTerm {items : List StreamItem} (expected : AnswersBelow p.tokensLeft ask)
    (h : readTerm limit ask depth p = .ok (items, q)) :
    q.tokensLeft < p.tokensLeft ∧ q.token.kind ≠ .and := by
  obtain ⟨⟨item, first⟩, hi, others⟩ := bind_eq_ok_iff.mp h
  have shorter := tokensLeft_of_readItem expected hi
  obtain ⟨further, stands⟩ := expected_readItems (expected.mono shorter.le) items q others
  exact ⟨Nat.lt_of_le_of_lt further shorter, stands⟩

theorem expected_readTerms {before : List StreamItem} (expected : AnswersBelow p.tokensLeft ask) :
    Request.Expected ⟨.terms before, depth, p⟩ (readTerms limit ask before depth p) := by
  intro items q h
  unfold readTerms at h
  split at h
  · next linked =>
      obtain ⟨first, next, h⟩ := bind_eq_ok_iff.mp h
      obtain ⟨⟨term, second⟩, ht, h⟩ := bind_eq_ok_iff.mp h
      have shorter := tokensLeft_lt_of_advance next linked (by decide)
      obtain ⟨taken, ended⟩ := expected_readTerm (expected.mono shorter.le) ht
      have behind := Nat.lt_trans taken shorter
      obtain ⟨further, stands⟩ := expected _ behind items q h
      exact ⟨Nat.le_trans further behind.le, fun _ => stands ended⟩
  · next ended =>
      cases h
      refine ⟨Nat.le_refl _, fun notAnd => ?_⟩
      exact TokenKind.connective?_eq_none notAnd ended

private theorem expected_readLevel (expected : AnswersBelow p.tokensLeft ask) :
    Request.Expected ⟨.level, depth, p⟩ (readLevel limit ask depth p) := by
  intro items q h
  obtain ⟨⟨term, first⟩, ht, others⟩ := bind_eq_ok_iff.mp h
  obtain ⟨shorter, ended⟩ := expected_readTerm expected ht
  obtain ⟨further, stands⟩ := expected_readTerms (expected.mono shorter.le) items q others
  exact ⟨Nat.le_trans further shorter.le, stands ended⟩

/-- Requests with fewer than `n` tokens left have the same answer both times, and an expected one.
    -/
abbrev AgreeBelow (n : Nat) (ask other : Request → Answer) : Prop :=
  Below n fun c => ask c = other c ∧ c.Expected (ask c)

theorem AgreeBelow.answers (h : AgreeBelow n ask other) : AnswersBelow n ask :=
  h.imp fun _ => And.right

theorem readItem_congr (agree : AgreeBelow p.tokensLeft ask other) :
    readItem limit ask depth p = readItem limit other depth p := by
  unfold readItem
  split
  · next opening =>
      refine bind_congr_of_ok fun q next => ?_
      have shorter := tokensLeft_lt_of_advance next opening (by decide)
      rw [(agree ⟨.level, depth + 1, q⟩ shorter).1]
  · rfl

theorem readItems_congr (agree : AgreeBelow p.tokensLeft ask other) (before : List StreamItem) :
    readItems limit ask before depth p = readItems limit other before depth p := by
  unfold readItems
  split
  · next linked =>
      refine bind_congr_of_ok fun q next => ?_
      have shorter := tokensLeft_lt_of_advance next linked (by decide)
      rw [← readItem_congr (agree.mono shorter.le)]
      refine bind_congr_of_ok fun (item, r) hi => ?_
      have taken := tokensLeft_of_readItem (agree.answers.mono shorter.le) hi
      exact (agree _ (Nat.lt_trans taken shorter)).1
  · rfl

theorem readTerm_congr (agree : AgreeBelow p.tokensLeft ask other) :
    readTerm limit ask depth p = readTerm limit other depth p := by
  unfold readTerm
  rw [← readItem_congr agree]
  refine bind_congr_of_ok fun (item, q) hi => ?_
  exact readItems_congr (agree.mono (tokensLeft_of_readItem agree.answers hi).le) [item]

theorem readTerms_congr (agree : AgreeBelow p.tokensLeft ask other) (before : List StreamItem) :
    readTerms limit ask before depth p = readTerms limit other before depth p := by
  unfold readTerms
  split
  · next linked =>
      refine bind_congr_of_ok fun q next => ?_
      have shorter := tokensLeft_lt_of_advance next linked (by decide)
      rw [← readTerm_congr (agree.mono shorter.le)]
      refine bind_congr_of_ok fun (term, r) ht => ?_
      have taken := (expected_readTerm (agree.answers.mono shorter.le) ht).1
      exact (agree _ (Nat.lt_trans taken shorter)).1
  · rfl

theorem readLevel_congr (agree : AgreeBelow p.tokensLeft ask other) :
    readLevel limit ask depth p = readLevel limit other depth p := by
  unfold readLevel
  rw [← readTerm_congr agree]
  refine bind_congr_of_ok fun (term, q) ht => ?_
  exact readTerms_congr (agree.mono (expected_readTerm agree.answers ht).1.le) term

end

/-- The descent ends, whatever the limit is: a routine asks only for what is to be read behind a
    token that it has taken itself. -/
theorem descends (limit : Int) :
    Descends (fun c => c.place.tokensLeft) Request.Expected (perform limit) := by
  constructor
  case asks_smaller =>
    rintro ask other ⟨routine, depth, p⟩ agree
    cases routine with
    | level => exact readLevel_congr agree
    | terms before => exact readTerms_congr agree before
    | items before => exact readItems_congr agree before
  case answers =>
    rintro ask ⟨routine, depth, p⟩ expected
    cases routine with
    | level => exact expected_readLevel expected
    | terms before => exact expected_readTerms expected
    | items before => exact expected_readItems expected

end Descent
end RecordFilter
