import RecordFilter.Numeric.Magnitude

/-! # Binary floating point of 64 bits

A finite value is a sign, a mantissa below `2^53` and an exponent, held in the one form that the
format stores; `ofMagnitude` rounds an exact magnitude to the nearest of them, ties to the even
mantissa, and overflows to infinity. All arithmetic is exact. -/

namespace RecordFilter

/-- The one form in which a finite value is held: the exponent is the least that the format has, or
the mantissa fills all its 53 bits. -/
def Canonical (mantissa : Nat) (exponent : Int) : Prop :=
  mantissa < Nat.pow 2 53 ∧ -1074 ≤ exponent ∧ exponent ≤ 971 ∧
    (Nat.pow 2 52 ≤ mantissa ∨ exponent = -1074)

instance (mantissa : Nat) (exponent : Int) : Decidable (Canonical mantissa exponent) :=
  inferInstanceAs (Decidable (_ ∧ _ ∧ _ ∧ (_ ∨ _)))

/-- A floating point value of 64 bits. Zero has a sign; what is not a number has no parts. -/
inductive Binary64 where
  | nan
  | infinite (negative : Bool)
  /-- The value `mantissa * 2 ^ exponent`, negated if `negative` says so. -/
  | finite (negative : Bool) (mantissa : Nat) (exponent : Int)
      (canonical : Canonical mantissa exponent)
  deriving DecidableEq

namespace Binary64

def zero (negative : Bool) : Binary64 := .finite negative 0 (-1074) (by decide)

def isFinite : Binary64 → Bool
  | .finite .. => true
  | _ => false

/-- `m * 2 ^ e` as an exact number. -/
def scaled (m : Nat) (e : Int) : Rat := (m : Rat) * (2 : Rat) ^ e

def magnitude : Binary64 → Magnitude
  | .nan => .nan
  | .infinite negative => .infinite negative
  | .finite negative m e _ => .signed negative (.ofRat (scaled m e))

/-- `num / den` to the nearest whole number, a half to the even neighbour. -/
def roundHalfEven (num den : Nat) : Nat :=
  let floor := num / den
  let twice := 2 * (num % den)
  if twice < den then floor
  else if den < twice then floor + 1
  else floor + floor % 2

/-- The exponent `e` with `2 ^ e ≤ num / den < 2 ^ (e + 1)`, for positive parts. -/
def log2Ratio (num den : Nat) : Int :=
  let guess : Int := (num.log2 : Int) - (den.log2 : Int)
  if den * Nat.pow 2 guess.toNat ≤ num * Nat.pow 2 (-guess).toNat then guess else guess - 1

/-- The exponent of the last bit that the format keeps of a positive magnitude. -/
def lastPlace (num den : Nat) : Int := max (-1074) (log2Ratio num den - 52)

/-- `num / den` in units of `2 ^ e`, to the nearest whole number. -/
def inUnits (num den : Nat) (e : Int) : Nat :=
  roundHalfEven (num * Nat.pow 2 (-e).toNat) (den * Nat.pow 2 e.toNat)

/-- The value `m * 2 ^ e` if the format can hold it in this form, and infinity if not. -/
def ofParts (negative : Bool) (m : Nat) (e : Int) : Binary64 :=
  if h : Canonical m e then .finite negative m e h else .infinite negative

/-- The nearest value to a magnitude, with a sign. A mantissa that rounds up to `2^53` is held with
the next exponent; a magnitude that needs a larger exponent than the format has is infinite. -/
def ofMagnitude (negative : Bool) (r : Rat) : Binary64 :=
  let num := r.num.toNat
  if num = 0 then zero negative
  else
    let e := lastPlace num r.den
    let m := inUnits num r.den e
    if m = Nat.pow 2 53 then ofParts negative (Nat.pow 2 52) (e + 1) else ofParts negative m e

/-- The magnitude from which on every number rounds to infinity. -/
def overflowBound : Rat := (2 : Rat) ^ (1024 : Int) - (2 : Rat) ^ (970 : Int)

end Binary64
end RecordFilter
