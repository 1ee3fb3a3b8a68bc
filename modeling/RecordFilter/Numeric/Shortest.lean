import RecordFilter.Numeric.Numeral

/-! # The shortest text of a floating point value

A finite value is written with the fewest digits that read back as it; of several such texts the
nearest is taken. Between `10 ^ (-4)` and `10 ^ 16` the point is positional and a fraction is always
written. -/

namespace RecordFilter.Binary64

open Text

/-- Digits `coefficient` in the place `10 ^ place`. -/
structure Digits where
  coefficient : Nat
  place : Int
  deriving DecidableEq

namespace Digits

/-- The number that the digits spell, with a sign. -/
def numeral (d : Digits) (negative : Bool) : Numeral := ⟨negative, d.coefficient, d.place⟩

/-- Whether the digits read back as `x`. -/
def ReadsAs (d : Digits) (x : Binary64) (negative : Bool) : Prop :=
  (d.numeral negative).toBinary64 = x

instance (d : Digits) (x : Binary64) (negative : Bool) : Decidable (d.ReadsAs x negative) :=
  inferInstanceAs (Decidable (_ = _))

end Digits

def distance (d : Digits) (r : Rat) : Rat :=
  let gap := (d.numeral false).magnitude - r
  if gap < 0 then -gap else gap

/-- The place of the first digit of a positive magnitude: `10 ^ (p - 1) ≤ num / den < 10 ^ p`. -/
def firstPlace (num den : Nat) : Int :=
  let guess : Int := (digitCount num : Int) - (digitCount den : Int)
  if den * Nat.pow 10 guess.toNat ≤ num * Nat.pow 10 (-guess).toNat then guess + 1 else guess

/-- The digits down to `place` nearest to the magnitude `r` of `x` from below and from above that
read back as `x`; of two the nearer, and of two as near the even one. -/
def nearestAt? (x : Binary64) (negative : Bool) (r : Rat) (place : Int) : Option Digits :=
  let below := (r * (10 : Rat) ^ (-place)).floor.toNat
  let lower : Digits := ⟨below, place⟩
  let upper : Digits := ⟨below + 1, place⟩
  if lower.ReadsAs x negative then
    if upper.ReadsAs x negative then
      if distance lower r < distance upper r then some lower
      else if distance upper r < distance lower r then some upper
      else if below % 2 = 0 then some lower else some upper
    else some lower
  else if upper.ReadsAs x negative then some upper
  else none

/-- The digits of `mantissa * 2 ^ exponent` in full. -/
def exactDigits (mantissa : Nat) (exponent : Int) : Digits :=
  if exponent < 0 then ⟨mantissa * Nat.pow 5 exponent.natAbs, exponent⟩
  else ⟨mantissa * Nat.pow 2 exponent.natAbs, 0⟩

/-- The fewest digits that read back as the finite value with these parts. Seventeen always suffice;
the full digits stand at the end, so that what is found reads back in any case. -/
def shortestDigits (x : Binary64) (negative : Bool) (mantissa : Nat) (exponent : Int) : Digits :=
  let r := scaled mantissa exponent
  let first := firstPlace r.num.toNat r.den
  let found := (List.range 17).findSome? fun (i : Nat) => nearestAt? x negative r (first - 1 - i)
  found.getD (exactDigits mantissa exponent)

/-- An exponent has a sign and at least two digits. -/
def exponentText (e : Int) : List Char :=
  (if e < 0 then '-' else '+') :: paddedDigits 2 e.natAbs

/-- Digits without the zeros at their end. -/
def significant (digits : List Char) : List Char := trimEnd (· == '0') digits

/-- Digits with the point after the first `whole` of them, zeros filling what is missing on either
side, and a fraction of at least one digit. -/
def positional (whole : Int) (digits : List Char) : List Char :=
  if whole ≤ 0 then '0' :: '.' :: List.replicate (-whole).toNat '0' ++ digits
  else if whole < digits.length then digits.take whole.toNat ++ '.' :: digits.drop whole.toNat
  else digits ++ List.replicate (whole.toNat - digits.length) '0' ++ ['.', '0']

/-- One digit before the point, the others behind it, and the exponent of the first digit. -/
def scientific (whole : Int) (digits : List Char) : List Char :=
  digits.take 1 ++ (if digits.length ≤ 1 then [] else '.' :: digits.drop 1)
    ++ 'e' :: exponentText (whole - 1)

/-- The text of digits: positional if the first digit stands between the fourth place behind the
point and the sixteenth before it. -/
def layout (d : Digits) : List Char :=
  let all := digitsOf d.coefficient
  let whole : Int := all.length + d.place
  let digits := significant all
  if -4 < whole ∧ whole ≤ 16 then positional whole digits else scientific whole digits

/-- The text of a value: a finite one reads back as itself. -/
def text : Binary64 → String
  | .nan => "nan"
  | .infinite negative => if negative then "-inf" else "inf"
  | .finite negative m e h =>
    if m = 0 then (if negative then "-0.0" else "0.0")
    else
      let digits := shortestDigits (.finite negative m e h) negative m e
      String.ofList (Decimal.signText negative ++ layout digits)

end RecordFilter.Binary64
