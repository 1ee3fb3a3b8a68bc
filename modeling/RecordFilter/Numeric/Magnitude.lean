import RecordFilter.Numeric.Scaled

/-! # What numbers stand for

The real line with both infinities, and two values that stand nowhere on it. Numbers of every kind
are compared here. -/

namespace RecordFilter

/-- What a number stands for. -/
inductive Magnitude where
  | minusInfinity
  | real (a : Scaled)
  | infinity
  | nan
  /-- Not a number, and not to be compared for equality. -/
  | signaling
  deriving DecidableEq

namespace Magnitude

def infinite (negative : Bool) : Magnitude := if negative then minusInfinity else infinity

/-- A real number of this size with a sign. -/
def signed (negative : Bool) (a : Scaled) : Magnitude := .real (if negative then a.negate else a)

def ofRat (r : Rat) : Magnitude := .real (.ofRat r)

def isZero : Magnitude → Bool
  | real a => a.isZero
  | _ => false

/-- The order of the extended line; what is not a number stands nowhere in it. -/
def order? : Magnitude → Magnitude → Option Ordering
  | nan, _ | signaling, _ | _, nan | _, signaling => none
  | minusInfinity, minusInfinity | infinity, infinity => some .eq
  | minusInfinity, _ | _, infinity => some .lt
  | infinity, _ | _, minusInfinity => some .gt
  | real a, real b => some (a.order b)

end Magnitude
end RecordFilter
