import RecordFilter.Text.Digit
import RecordFilter.Text.Nesting
import RecordFilter.Token.Basic

/-! # Scanning query text

Blanks separate tokens and mean nothing else. A token goes as far as it can, with one exception: in
a word that directly follows a number, `and` or `or` at the start is a token of its own, so `1andb`
reads as `1 and b`. Every step takes at least one character off the text, so scanning ends. -/

namespace RecordFilter

namespace Token

open Text

def takeMinus : List Char → List Char × List Char
  | '-' :: cs => (['-'], cs)
  | cs => ([], cs)

def takeSign : List Char → List Char × List Char
  | '-' :: cs => (['-'], cs)
  | '+' :: cs => (['+'], cs)
  | cs => ([], cs)

/-- Splits off digits with an optional point: digits stand before the point or right after it. -/
def takeMantissa? (cs : List Char) : Option (List Char × List Char) :=
  let (whole, afterWhole) := takeDigits cs
  match afterWhole with
  | '.' :: more =>
    let (fraction, rest) := takeDigits more
    if whole = [] ∧ fraction = [] then none else some (whole ++ '.' :: fraction, rest)
  | _ => if whole = [] then none else some (whole, afterWhole)

/-- Splits off an exponent; without a digit there is none. -/
def takeExponent : List Char → List Char × List Char
  | [] => ([], [])
  | c :: cs =>
    if c = 'e' ∨ c = 'E' then
      let (sign, afterSign) := takeSign cs
      let (digits, rest) := takeDigits afterSign
      if digits = [] then ([], c :: cs) else (c :: sign ++ digits, rest)
    else ([], c :: cs)

def takeNumber? (cs : List Char) : Option (List Char × List Char) :=
  let (minus, unsigned) := takeMinus cs
  (takeMantissa? unsigned).map fun (mantissa, afterMantissa) =>
    let (exponent, rest) := takeExponent afterMantissa
    (minus ++ mantissa ++ exponent, rest)

/-- Words are made of ASCII letters, digits, underscores and dots. -/
def isWordChar (c : Char) : Bool := isLetter c || isDigit c || c == '_' || c == '.'

/-- A word starts with any of its characters but a digit. -/
def startsWord (c : Char) : Bool := isLetter c || c == '_' || c == '.'

/-- How much of a word is one token: of a word right after a number only the `and` or `or` that it
starts with, if more follows. -/
def wordLength (afterNumber : Bool) (word : List Char) : Nat :=
  let lower := word.map Char.toLower
  if afterNumber ∧ lower.take 3 = ['a', 'n', 'd'] ∧ 3 < word.length then 3
  else if afterNumber ∧ lower.take 2 = ['o', 'r'] ∧ 2 < word.length then 2
  else word.length

/-- The word token at the start of a text, and its width. -/
def readWord (position : Int) (afterNumber : Bool) (cs : List Char) : Token × Nat :=
  let word := cs.takeWhile isWordChar
  let width := wordLength afterNumber word
  let text := word.take width
  (plain (.ofWord (String.ofList text)) position text, width)

def fail {α : Type} (fault : LexicalFault) (position : Int) : Except Failure α :=
  .error (.query (.lexical fault) (some position))

/-- Reads quoted text, whose opening quote stands at `position`; `cs` begins after it. -/
def readQuoted (position : Int) (cs : List Char) : Except Failure (Token × Nat) :=
  match unquote? cs with
  | none => fail .openQuote position
  | some (content, width) =>
    let text := some (String.ofList content)
    match cs.drop width with
    | ':' :: ':' :: more =>
      let name := more.takeWhile isLetter
      if name = [] then fail .missingCastName (position + 1 + width)
      else .ok (⟨.quoted, text, position, some (String.ofList name)⟩, 1 + width + 2 + name.length)
    | _ => .ok (⟨.quoted, text, position, none⟩, 1 + width)

/-- Reads the list literal at the start of a text. -/
def readList (position : Int) (cs : List Char) : Except Failure (Token × Nat) :=
  match takeBalanced? .start cs with
  | none => fail .openList position
  | some (taken, _) => .ok (plain .list position taken, taken.length)

/-- Reads the operator or the parenthesis that `c` begins; `cs` is what follows. -/
def readSymbol (position : Int) (c : Char) (cs : List Char) : Except Failure (Token × Nat) :=
  match c, cs with
  | '=', '=' :: _ => .ok (plain .equal position ['=', '='], 2)
  | '=', _ => fail .loneEquals position
  | '!', '=' :: _ => .ok (plain .notEqual position ['!', '='], 2)
  | '!', _ => fail .loneExclamation position
  | '<', '=' :: _ => .ok (plain .lessOrEqual position ['<', '='], 2)
  | '<', _ => .ok (plain .less position ['<'], 1)
  | '>', '=' :: _ => .ok (plain .greaterOrEqual position ['>', '='], 2)
  | '>', _ => .ok (plain .greater position ['>'], 1)
  | '(', _ => .ok (plain .openParen position ['('], 1)
  | ')', _ => .ok (plain .closeParen position [')'], 1)
  | c, _ => fail (.invalidCharacter c) position

/-- Reads the token at the start of a text that starts with no blank, and gives its width: how many
characters it takes. -/
def read (position : Int) (afterNumber : Bool) (cs : List Char) : Except Failure (Token × Nat) :=
  match takeNumber? cs with
  | some (number, _) => .ok (plain .number position number, number.length)
  | none =>
    match cs with
    | [] => .ok (finish position, 0)
    | c :: more =>
      if c = quoteMark then readQuoted position more
      else if c = '[' then readList position (c :: more)
      else if startsWord c then .ok (readWord position afterNumber (c :: more))
      else readSymbol position c more

theorem takeMantissa?_ne_nil {cs taken rest : List Char}
    (h : takeMantissa? cs = some (taken, rest)) : taken ≠ [] := by
  simp only [takeMantissa?] at h
  split at h
  · split at h
    · simp at h
    · simp only [Option.some.injEq, Prod.mk.injEq] at h
      simp [← h.1]
  · split at h
    · simp at h
    · next hne =>
      simp only [Option.some.injEq, Prod.mk.injEq] at h
      rw [← h.1]
      exact hne

theorem takeNumber?_ne_nil {cs taken rest : List Char}
    (h : takeNumber? cs = some (taken, rest)) : taken ≠ [] := by
  simp only [takeNumber?] at h
  obtain ⟨⟨mantissa, more⟩, hm, he⟩ := Option.map_eq_some_iff.1 h
  simp only [Prod.mk.injEq] at he
  have := takeMantissa?_ne_nil hm
  simp [← he.1, this]

theorem takeNumber?_nil : takeNumber? [] = none := rfl

private theorem wordLength_pos (afterNumber : Bool) {word : List Char} (h : word ≠ []) :
    0 < wordLength afterNumber word := by
  simp only [wordLength]
  split
  · omega
  · split
    · omega
    · exact List.length_pos_iff.2 h

theorem isWordChar_of_startsWord {c : Char} (h : startsWord c = true) : isWordChar c = true := by
  simp only [startsWord, Bool.or_eq_true] at h
  simp only [isWordChar, Bool.or_eq_true]
  rcases h with (h | h) | h <;> simp [h]

theorem width_readWord_pos (position : Int) (afterNumber : Bool) {c : Char} (cs : List Char)
    (h : startsWord c = true) : 0 < (readWord position afterNumber (c :: cs)).2 :=
  wordLength_pos afterNumber (by simp [isWordChar_of_startsWord h])

private theorem width_readQuoted_pos {position : Int} {cs : List Char} {t : Token} {width : Nat}
    (h : readQuoted position cs = .ok (t, width)) : 0 < width := by
  simp only [readQuoted] at h
  split at h
  · simp [fail] at h
  · split at h
    · split at h
      · simp [fail] at h
      · simp only [Except.ok.injEq, Prod.mk.injEq] at h
        omega
    · simp only [Except.ok.injEq, Prod.mk.injEq] at h
      omega

private theorem width_readList_pos {position : Int} {cs : List Char} {t : Token} {width : Nat}
    (h : readList position cs = .ok (t, width)) : 0 < width := by
  simp only [readList] at h
  split at h
  · simp [fail] at h
  · next taken rest hb =>
    simp only [Except.ok.injEq, Prod.mk.injEq] at h
    rw [← h.2]
    exact List.length_pos_iff.2 (taken_ne_nil_of_takeBalanced? hb)

private theorem width_readSymbol_pos {position : Int} {c : Char} {cs : List Char} {t : Token}
    {width : Nat}
    (h : readSymbol position c cs = .ok (t, width)) : 0 < width := by
  rw [readSymbol.eq_def] at h
  split at h <;> simp only [fail, Except.ok.injEq, Prod.mk.injEq, reduceCtorEq] at h <;> omega

/-- Every token but the end of the text takes at least one character. -/
theorem width_read_pos {position : Int} {afterNumber : Bool} {cs : List Char} {t : Token}
    {width : Nat} (h : read position afterNumber cs = .ok (t, width)) (hk : t.kind ≠ .finish) :
    0 < width ∧ cs ≠ [] := by
  simp only [read] at h
  split at h
  · next number rest hn =>
    simp only [Except.ok.injEq, Prod.mk.injEq] at h
    refine ⟨?_, ?_⟩
    · rw [← h.2]
      exact List.length_pos_iff.2 (takeNumber?_ne_nil hn)
    · rintro rfl
      simp [takeNumber?_nil] at hn
  · split at h
    · simp only [Except.ok.injEq, Prod.mk.injEq] at h
      exact absurd (by rw [← h.1]; rfl) hk
    · refine ⟨?_, by simp⟩
      split at h
      · exact width_readQuoted_pos h
      · split at h
        · exact width_readList_pos h
        · split at h
          · next c more _ _ _ hs =>
            have hw := width_readWord_pos position afterNumber more hs
            simp only [Except.ok.injEq] at h
            rw [h] at hw
            exact hw
          · exact width_readSymbol_pos h

end Token

/-- A place in query text. -/
structure Cursor where
  position : Int
  rest : List Char
  /-- Whether the character before belongs to a number. -/
  afterNumber : Bool

namespace Cursor

open Text

/-- The start of a text that begins at `position`. -/
def start (position : Int) (text : String) : Cursor := ⟨position, text.toList, false⟩

def advance (c : Cursor) (width : Nat) (afterNumber : Bool) : Cursor :=
  ⟨c.position + width, c.rest.drop width, afterNumber⟩

def skipBlanks (c : Cursor) : Cursor :=
  let blanks := (c.rest.takeWhile isBlank).length
  c.advance blanks (c.afterNumber && blanks == 0)

def next (c : Cursor) : Except Failure (Token × Cursor) := do
  let here := c.skipBlanks
  let (token, width) ← Token.read here.position here.afterNumber here.rest
  return (token, here.advance width (token.kind == .number))

private theorem length_rest_advance (c : Cursor) (width : Nat) (afterNumber : Bool) :
    (c.advance width afterNumber).rest.length = c.rest.length - width :=
  List.length_drop

/-- Every token but the end leaves less text. -/
theorem length_rest_of_next {c d : Cursor} {t : Token} (h : c.next = .ok (t, d))
    (hk : t.kind ≠ .finish) : d.rest.length < c.rest.length := by
  simp only [next, bind, Except.bind] at h
  split at h
  · simp at h
  · next r hr =>
    obtain ⟨token, width⟩ := r
    simp only [pure, Except.pure, Except.ok.injEq, Prod.mk.injEq] at h
    obtain ⟨rfl, rfl⟩ := h
    obtain ⟨hpos, hne⟩ := Token.width_read_pos hr hk
    have hl := List.length_pos_iff.2 hne
    have hb : c.skipBlanks.rest.length ≤ c.rest.length := by
      simp only [skipBlanks, length_rest_advance]
      omega
    rw [length_rest_advance]
    omega

end Cursor

inductive Ending where
  | finish (position : Int)
  /-- Where no further token can be read. -/
  | failed (failure : Failure)
  deriving DecidableEq

/-- The tokens of a text in order, and why there is no further one. -/
structure Scan where
  tokens : List Token
  ending : Ending
  deriving DecidableEq

namespace Scan

def cons (t : Token) (s : Scan) : Scan := ⟨t :: s.tokens, s.ending⟩

/-- All tokens from a place on. -/
def ofCursor (c : Cursor) : Scan :=
  match _h : c.next with
  | .error failure => ⟨[], .failed failure⟩
  | .ok (token, d) =>
    if _hk : token.kind = .finish then ⟨[], .finish token.position⟩ else .cons token (ofCursor d)
termination_by c.rest.length
decreasing_by exact Cursor.length_rest_of_next _h _hk

/-- All tokens of a text that begins at `position`. -/
def ofText (position : Int) (text : String) : Scan := ofCursor (.start position text)

end Scan
end RecordFilter
