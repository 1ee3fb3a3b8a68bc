import RecordFilter.Numeric.Numeral

/-! # Whole numbers in settings

Text spells a whole number with digits, single underscores between them, and a sign in front. Zeros
in front do not count, nor do the underscores among them, and a fraction of zeros may follow. -/

namespace RecordFilter

open Text

namespace WholeText

/-- Blanks that may surround the number. The four ASCII separator controls are not among them. -/
def isOuterBlank (c : Char) : Bool := isBlank c && !(0x1C ≤ c.toNat && c.toNat ≤ 0x1F)

/-- A character that may begin the part of a number that counts: a digit other than zero, or a
minus. -/
def beginsNumber (c : Char) : Bool := c == '-' || ('1' ≤ c && c ≤ '9')

/-- Drops what follows a leading zero up to where the number begins. If nothing begins before the
point or the end of the text, the last character before it stays. -/
def afterZeros? (last : Char) : List Char → Option (List Char)
  | [] => some [last]
  | c :: cs =>
    if c = '0' ∨ c = '_' then afterZeros? c cs
    else if c = '.' then some (last :: c :: cs)
    else if beginsNumber c then some (c :: cs)
    else none

def withoutZeros? : List Char → Option (List Char)
  | [] => none
  | c :: cs =>
    if c = '0' then afterZeros? c cs
    else if beginsNumber c then some (c :: cs)
    else none

/-- Drops a plus, which no other sign may follow. -/
def withoutPlus? : List Char → Option (List Char)
  | '+' :: '-' :: _ => none
  | '+' :: cs => some cs
  | cs => some cs

/-- Drops a point with at least one zero and nothing else behind it. -/
def withoutFraction (cs : List Char) : List Char :=
  let (whole, rest) := (cs.takeWhile (· != '.'), cs.dropWhile (· != '.'))
  if rest.length > 1 ∧ (rest.drop 1).all (· == '0') then whole else cs

/-- Whether two underscores stand side by side. -/
def hasDoubleUnderscore : List Char → Bool
  | c :: d :: cs => (c == '_' && d == '_') || hasDoubleUnderscore (d :: cs)
  | _ => false

/-- Drops the underscores, if each stands between two characters that stay. -/
def withoutUnderscores (cs : List Char) : List Char :=
  if cs.head? = some '_' ∨ cs.getLast? = some '_' ∨ hasDoubleUnderscore cs then cs
  else cs.filter (· != '_')

/-- The whole number of a run of digits with or without a minus in front. -/
def ofDigits? : List Char → Option Int
  | '-' :: cs => (Numeral.allDigits? cs).map fun digits => -(natOfDigits digits : Int)
  | cs => (Numeral.allDigits? cs).map fun digits => (natOfDigits digits : Int)

def toInt? (s : String) : Option Int := do
  let unsigned ← withoutPlus? (trim isOuterBlank s.toList)
  let counted ← withoutZeros? unsigned
  ofDigits? (withoutUnderscores (withoutFraction counted))

end WholeText
end RecordFilter
