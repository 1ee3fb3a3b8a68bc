import RecordFilter.Text.Quoted

/-! # Brackets and quotes

Where a character stands inside a list literal: how many brackets are open before it, and whether
it is inside quoted text, where brackets and commas are only text. A backslash inside quoted text
hides the character after it. -/

namespace RecordFilter.Text

/-- Whether a character is inside quoted text. -/
inductive QuoteMode where
  | outside
  | inside
  | escaped
  deriving DecidableEq

/-- Where the next character stands. -/
structure Nesting where
  /-- Brackets opened and not closed; below zero if more were closed. -/
  depth : Int
  mode : QuoteMode
  deriving DecidableEq

namespace Nesting

def start : Nesting := ⟨0, .outside⟩

/-- Where the character after `c` stands. -/
def step (s : Nesting) (c : Char) : Nesting :=
  match s.mode with
  | .escaped => ⟨s.depth, .inside⟩
  | .inside =>
    if c = backslash then ⟨s.depth, .escaped⟩
    else if c = quoteMark then ⟨s.depth, .outside⟩
    else s
  | .outside =>
    if c = quoteMark then ⟨s.depth, .inside⟩
    else if c = '[' then ⟨s.depth + 1, .outside⟩
    else if c = ']' then ⟨s.depth - 1, .outside⟩
    else s

/-- Where the character after `cs` stands. -/
def after (s : Nesting) (cs : List Char) : Nesting := cs.foldl step s

/-- `c` closes the outermost bracket. -/
def Closes (s : Nesting) (c : Char) : Prop := s.mode = .outside ∧ c = ']' ∧ s.depth = 1

instance (s : Nesting) (c : Char) : Decidable (s.Closes c) :=
  inferInstanceAs (Decidable (_ ∧ _ ∧ _))

/-- `c` is a comma between items of the outermost list. -/
def Separates (s : Nesting) (c : Char) : Prop := s.mode = .outside ∧ c = ',' ∧ s.depth = 0

instance (s : Nesting) (c : Char) : Decidable (s.Separates c) :=
  inferInstanceAs (Decidable (_ ∧ _ ∧ _))

end Nesting

/-- Splits off everything up to the bracket that closes the outermost one, that bracket included;
`none` if nothing closes it. -/
def takeBalanced? (s : Nesting) : List Char → Option (List Char × List Char)
  | [] => none
  | c :: cs =>
    if s.Closes c then some ([c], cs)
    else (takeBalanced? (s.step c) cs).map fun (taken, rest) => (c :: taken, rest)

/-- Puts a character in front of the first piece. -/
def consFirst (c : Char) : List (List Char) → List (List Char)
  | [] => [[c]]
  | piece :: pieces => (c :: piece) :: pieces

/-- The pieces between the commas that separate items. -/
def splitItems (s : Nesting) : List Char → List (List Char)
  | [] => [[]]
  | c :: cs =>
    if s.Separates c then [] :: splitItems (s.step c) cs
    else consFirst c (splitItems (s.step c) cs)

/-- Nothing is lost: what is taken and what is left make up the text. -/
theorem takeBalanced?_eq_append {s : Nesting} {cs taken rest : List Char}
    (h : takeBalanced? s cs = some (taken, rest)) : cs = taken ++ rest := by
  induction cs generalizing s taken with
  | nil => simp [takeBalanced?] at h
  | cons c cs ih =>
    rw [takeBalanced?] at h
    split at h
    · simp only [Option.some.injEq, Prod.mk.injEq] at h
      obtain ⟨rfl, rfl⟩ := h
      rfl
    · obtain ⟨⟨t, r⟩, hr, he⟩ := Option.map_eq_some_iff.1 h
      simp only [Prod.mk.injEq] at he
      obtain ⟨rfl, rfl⟩ := he
      rw [ih hr]
      rfl

theorem taken_ne_nil_of_takeBalanced? {s : Nesting} {cs taken rest : List Char}
    (h : takeBalanced? s cs = some (taken, rest)) : taken ≠ [] := by
  cases cs with
  | nil => simp [takeBalanced?] at h
  | cons c cs =>
    rw [takeBalanced?] at h
    split at h
    · simp only [Option.some.injEq, Prod.mk.injEq] at h
      simp [← h.1]
    · obtain ⟨⟨t, r⟩, _, he⟩ := Option.map_eq_some_iff.1 h
      simp only [Prod.mk.injEq] at he
      simp [← he.1]

end RecordFilter.Text
