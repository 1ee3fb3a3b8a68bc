import RecordFilter.Numeric.Binary64
import RecordFilter.Numeric.Decimal

/-! # Reading numbers

Number text is an optional sign, digits, an optional fraction and an optional exponent. Blanks
around it are ignored, digits of any script count as their ASCII digits, and single underscores may
separate digits. -/

namespace RecordFilter

/-- A number as it was written: `coefficient * 10 ^ exponent`, negated if `negative` says so. -/
structure Numeral where
  negative : Bool
  coefficient : Nat
  exponent : Int
  deriving DecidableEq

namespace Numeral

open Text

/-- Blanks that may surround a number in ASCII text. The four ASCII separator controls are not
among them. -/
def isAsciiBlank (c : Char) : Bool := (9 ≤ c.toNat && c.toNat ≤ 13) || c == ' '

/-- The ASCII form of a character of a number: ASCII stays, other blanks become spaces, digits of
other scripts become ASCII digits, and nothing else can stand in a number. -/
def toAscii? (c : Char) : Option Char :=
  if c.toNat < 128 then some c
  else if isBlank c then some ' '
  else (anyDigitValue? c).map digitChar

/-- Drops the underscores that stand between two digits; any other underscore is refused. The
argument `previous` is the character before. -/
def dropSeparators? (previous : Char) : List Char → Option (List Char)
  | [] => if previous = '_' then none else some []
  | c :: cs =>
    if c = '_' then
      if isDigit previous then dropSeparators? c cs else none
    else if previous = '_' ∧ ¬isDigit c then none
    else (dropSeparators? c cs).map (c :: ·)

/-- The characters that count: ASCII forms, without the blanks around and the separators inside. -/
def normalize? (text : String) : Option (List Char) := do
  let ascii ← text.toList.mapM toAscii?
  dropSeparators? ' ' (trim isAsciiBlank ascii)

/-- Takes one sign off; the flag says whether it was a minus. -/
def takeSign : List Char → Bool × List Char
  | '-' :: cs => (true, cs)
  | '+' :: cs => (false, cs)
  | cs => (false, cs)

/-- Splits off a point and the digits after it; without a point there are none. -/
def takeFraction : List Char → List Char × List Char
  | '.' :: cs => takeDigits cs
  | cs => ([], cs)

/-- Digits up to the end, at least one. -/
def allDigits? (cs : List Char) : Option (List Char) :=
  if cs ≠ [] ∧ cs.all isDigit then some cs else none

/-- The exponent that follows a mantissa up to the end of the text; nothing spells zero. -/
def exponent? : List Char → Option Int
  | [] => some 0
  | c :: cs =>
    if c = 'e' ∨ c = 'E' then
      let (negative, digits) := takeSign cs
      (allDigits? digits).map fun ds =>
        if negative then -(natOfDigits ds : Int) else (natOfDigits ds : Int)
    else none

/-- Reads a number that may have a fraction and an exponent. At least one digit stands before the
exponent. -/
def ofChars? (cs : List Char) : Option Numeral :=
  let (negative, unsigned) := takeSign cs
  let (whole, afterWhole) := takeDigits unsigned
  let (fraction, afterFraction) := takeFraction afterWhole
  if whole = [] ∧ fraction = [] then none
  else (exponent? afterFraction).map fun e =>
    ⟨negative, natOfDigits (whole ++ fraction), e - fraction.length⟩

def magnitude (n : Numeral) : Rat := (n.coefficient : Rat) * (10 : Rat) ^ n.exponent

/-- How many digits stand before the point when the first of them is not zero. -/
def leadingPlace (n : Numeral) : Int := digitCount n.coefficient + n.exponent

/-- The nearest floating point value. Magnitudes of `10 ^ 400` and above are infinite and those
below `10 ^ (-400)` are zero, which saves computing their powers. -/
def toBinary64 (n : Numeral) : Binary64 :=
  if n.coefficient = 0 ∨ n.leadingPlace < -400 then .zero n.negative
  else if 400 < n.leadingPlace then .infinite n.negative
  else .ofMagnitude n.negative n.magnitude

/-- The most digits that a whole number may be written with. -/
def digitLimit : Nat := 4300

/-- Reads a whole number of at most `digitLimit` digits, leading zeros counted. -/
def toInt? (text : String) : Option Int := do
  let cs ← normalize? text
  let (negative, unsigned) := takeSign cs
  let digits ← allDigits? unsigned
  guard (digits.length ≤ digitLimit)
  return if negative then -(natOfDigits digits : Int) else (natOfDigits digits : Int)

/-- Reads a floating point value, rounding to the nearest. -/
def toBinary64? (text : String) : Option Binary64 := do
  let cs ← normalize? text
  let n ← ofChars? cs
  return n.toBinary64

end Numeral

namespace Binary64

/-- Reads what `Binary64.text` writes: a number, `nan`, `inf` or `-inf`. -/
def ofText? (text : String) : Option Binary64 :=
  if text = "nan" then some .nan
  else if text = "inf" then some (.infinite false)
  else if text = "-inf" then some (.infinite true)
  else Numeral.toBinary64? text

end Binary64

namespace Decimal

/-- Reads the digits after `NaN`; none spell zero. -/
def payload? (cs : List Char) : Option Nat :=
  if cs.all Text.isDigit then some (Text.natOfDigits cs) else none

/-- Reads an unsigned decimal, with its letters in lower case. -/
def ofUnsigned? (negative : Bool) (cs : List Char) : Option Decimal :=
  match cs with
  | 's' :: 'n' :: 'a' :: 'n' :: payload => (payload? payload).map (.nan negative true)
  | 'n' :: 'a' :: 'n' :: payload => (payload? payload).map (.nan negative false)
  | _ =>
    if cs = "inf".toList ∨ cs = "infinity".toList then some (.infinite negative)
    else if cs.head?.any (fun c => c == '+' || c == '-') then none
    else (Numeral.ofChars? cs).map fun n => .finite negative n.coefficient n.exponent

/-- Reads what `Decimal.text` writes, with letters in any case. -/
def ofText? (text : String) : Option Decimal :=
  let (negative, unsigned) := Numeral.takeSign (text.toList.map Char.toLower)
  ofUnsigned? negative unsigned

end Decimal
end RecordFilter
