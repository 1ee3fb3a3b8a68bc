import RecordFilter.Failure
import RecordFilter.Numeric.Shortest

/-! # Numbers of all kinds

Whole numbers, floating point values, decimals and fractions compare by the exact number that they
stand for, whatever their kind. -/

namespace RecordFilter

inductive Number where
  | int (n : Int)
  | float (x : Binary64)
  | decimal (d : Decimal)
  | fraction (r : Rat)
  deriving DecidableEq

namespace Number

def magnitude : Number → Magnitude
  | int n => .ofRat n
  | float x => x.magnitude
  | decimal d => d.magnitude
  | fraction r => .ofRat r

def toBinary64 : Number → Binary64
  | int n => .ofMagnitude (n < 0) n.natAbs
  | float x => x
  | decimal (.finite negative c e) => Numeral.toBinary64 ⟨negative, c, e⟩
  | decimal (.infinite negative) => .infinite negative
  | decimal (.nan ..) => .nan
  | fraction r => .ofMagnitude (r < 0) (if r < 0 then -r else r)

def isFinite : Number → Bool
  | int _ | fraction _ => true
  | float x => x.isFinite
  | decimal d => d.isFinite

/-- How two numbers are ordered, if both stand somewhere on the line. -/
def order? (a b : Number) : Option Ordering := a.magnitude.order? b.magnitude

/-- Whether two numbers stand for the same. A signaling decimal refuses the question. -/
def equal (a b : Number) : Except Failure Bool :=
  if a.magnitude = .signaling ∨ b.magnitude = .signaling then .error .signalingNaN
  else .ok (a.order? b == some .eq)

/-- The digits of a whole number; more than `Numeral.digitLimit` of them are not written. -/
def intText (n : Int) : Except Failure String :=
  if n.natAbs < Nat.pow 10 Numeral.digitLimit then
    .ok (String.ofList (Decimal.signText (n < 0) ++ Text.digitsOf n.natAbs))
  else .error .tooManyDigits

def queryText : Number → Except Failure String
  | int n => intText n
  | float x => .ok x.text
  | decimal d => .ok d.text
  | fraction r => do
    let numerator ← intText r.num
    let denominator ← intText r.den
    return "Fraction(" ++ numerator ++ ", " ++ denominator ++ ")"

def shown : Number → Except Failure String
  | decimal d => .ok ("Decimal('" ++ d.text ++ "')")
  | n => n.queryText

/-- The text of a number where it is part of a text: a fraction is written with a stroke, and
without a denominator of one. -/
def plain : Number → Except Failure String
  | fraction r => do
    let numerator ← intText r.num
    if r.den = 1 then return numerator else return numerator ++ "/" ++ (← intText r.den)
  | n => n.queryText

def typeName : Number → String
  | int _ => "int"
  | float _ => "float"
  | decimal _ => "Decimal"
  | fraction _ => "Fraction"

/-- Whether a number counts as true: all but zero do. -/
def isTruthy (n : Number) : Bool := !n.magnitude.isZero

end Number

/-- A number that stands for a real number. -/
structure FiniteNumber where
  number : Number
  isFinite : number.isFinite = true
  deriving DecidableEq

namespace FiniteNumber

/-- The number as a finite one. Infinities and `nan` are refused, and so is a fraction beyond every
floating point value. -/
def ofNumber (n : Number) : Except Failure FiniteNumber :=
  match n with
  | .fraction r =>
    if r ≤ -Binary64.overflowBound ∨ Binary64.overflowBound ≤ r then .error .fractionTooLarge
    else .ok ⟨.fraction r, rfl⟩
  | n =>
    if h : n.isFinite = true then .ok ⟨n, h⟩
    else do .error (.cast (.notFinite (← n.shown)) none)

end FiniteNumber
end RecordFilter
