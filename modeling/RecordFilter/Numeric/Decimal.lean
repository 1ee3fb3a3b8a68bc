import RecordFilter.Numeric.Magnitude
import RecordFilter.Text.Digit

/-! # Decimal floating point

A finite decimal keeps its coefficient and exponent apart, so `1.0` and `1.00` are different
decimals of one value. -/

namespace RecordFilter

/-- A decimal number of any precision. -/
inductive Decimal where
  /-- The value `coefficient * 10 ^ exponent`, negated if `negative` says so. -/
  | finite (negative : Bool) (coefficient : Nat) (exponent : Int)
  | infinite (negative : Bool)
  /-- Not a number. A signaling one may not be compared for equality. -/
  | nan (negative signaling : Bool) (payload : Nat)
  deriving DecidableEq

namespace Decimal

def isFinite : Decimal → Bool
  | .finite .. => true
  | _ => false

def magnitude : Decimal → Magnitude
  | .finite negative c e => .signed negative ⟨c, e⟩
  | .infinite negative => .infinite negative
  | .nan _ signaling _ => if signaling then .signaling else .nan

def signText (negative : Bool) : List Char := if negative then ['-'] else []

/-- Digits with a point after the first `whole` of them; zeros fill the places that are missing on
the left. -/
def pointAfter (whole : Int) (digits : List Char) : List Char :=
  if whole ≤ 0 then '0' :: '.' :: List.replicate (-whole).toNat '0' ++ digits
  else if whole < digits.length then
    digits.take whole.toNat ++ '.' :: digits.drop whole.toNat
  else digits

/-- A signed whole number with its sign always written. -/
def exponentText (e : Int) : List Char :=
  (if e < 0 then '-' else '+') :: Text.digitsOf e.natAbs

/-- The digits of a magnitude. The point is positional while the exponent is not above zero and the
first digit is at most six places behind the point; otherwise one digit stands before the point and
the exponent follows after `E`. -/
def magnitudeText (c : Nat) (e : Int) : List Char :=
  let digits := Text.digitsOf c
  let first : Int := e + digits.length
  if e ≤ 0 ∧ -6 < first then pointAfter first digits
  else pointAfter 1 digits ++ 'E' :: exponentText (first - 1)

/-- A payload is written only if it is not zero. -/
def payloadText (n : Nat) : List Char := if n = 0 then [] else Text.digitsOf n

/-- The text of a decimal, from which it can be read again without loss. -/
def text : Decimal → String
  | .finite negative c e => String.ofList (signText negative ++ magnitudeText c e)
  | .infinite negative => String.ofList (signText negative ++ "Infinity".toList)
  | .nan negative signaling payload =>
    String.ofList (signText negative ++ (if signaling then ['s'] else []) ++ "NaN".toList
      ++ payloadText payload)

end Decimal
end RecordFilter
