/-! # Quoted text

Text between single quotes. A quote or a backslash inside is written with a backslash before it;
a backslash before any other character stands for itself. -/

namespace RecordFilter.Text

def quoteMark : Char := '\x27'

def backslash : Char := '\x5c'

/-- `cs` with a backslash before each quote and each backslash. -/
def escape : List Char → List Char
  | [] => []
  | c :: cs =>
    if c = backslash ∨ c = quoteMark then backslash :: c :: escape cs else c :: escape cs

def quote (text : String) : String :=
  String.ofList (quoteMark :: escape text.toList ++ [quoteMark])

/-- The contents up to the closing quote, and how many characters there are up to that quote, the
quote included; `none` if no quote closes. -/
def unquote? : List Char → Option (List Char × Nat)
  | [] => none
  | [c] => if c = quoteMark then some ([], 1) else none
  | c :: d :: cs =>
    if c = quoteMark then some ([], 1)
    else if c = backslash ∧ (d = backslash ∨ d = quoteMark) then
      (unquote? cs).map fun (text, width) => (d :: text, width + 2)
    else (unquote? (d :: cs)).map fun (text, width) => (c :: text, width + 1)

theorem unquote?_cons_quoteMark (cs : List Char) : unquote? (quoteMark :: cs) = some ([], 1) := by
  cases cs <;> simp [unquote?]

private theorem unquote?_cons_of_ne {c : Char} (hq : c ≠ quoteMark) (hb : c ≠ backslash)
    (cs : List Char) :
    unquote? (c :: cs) = (unquote? cs).map fun (text, width) => (c :: text, width + 1) := by
  cases cs with
  | nil => simp [unquote?, hq]
  | cons d cs => simp [unquote?, hq, hb]

theorem unquote?_backslash_cons {c : Char} (h : c = backslash ∨ c = quoteMark) (cs : List Char) :
    unquote? (backslash :: c :: cs) =
      (unquote? cs).map fun (text, width) => (c :: text, width + 2) := by
  have hq : backslash ≠ quoteMark := by decide
  rw [unquote?, if_neg hq, if_pos ⟨rfl, h⟩]

/-- Quoted text reads back as it was, whatever follows its closing quote. -/
theorem unquote?_escape_append (text rest : List Char) :
    unquote? (escape text ++ quoteMark :: rest) = some (text, (escape text).length + 1) := by
  induction text with
  | nil => simp [escape, unquote?_cons_quoteMark]
  | cons c cs ih =>
    by_cases h : c = backslash ∨ c = quoteMark
    · rw [escape, if_pos h, List.cons_append, List.cons_append, unquote?_backslash_cons h, ih]
      simp
    · obtain ⟨hb, hq⟩ := not_or.1 h
      rw [escape, if_neg h, List.cons_append, unquote?_cons_of_ne hq hb, ih]
      simp

end RecordFilter.Text
