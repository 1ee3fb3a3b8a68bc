import RecordFilter.Value.Shown

/-! # Literals from values

Which values can be literals, and the plain value of each literal. A value that is a literal already
is taken as it is. -/

namespace RecordFilter

namespace Literal

/-- The literal of a number, which has to be a number and finite. -/
def ofNumber : Value → Except Failure Literal
  | .number n => do return number (← FiniteNumber.ofNumber n)
  | v => do .error (.cast (.notNumber (← v.shown)) none)

/-- The date literal of a day, or of a time, which is a day as well. -/
def ofDay? : Value → Option Literal
  | .date d => some (date d)
  | .datetime clock zone => some (misdated clock zone)
  | _ => none

/-- The literal of a wall clock, which has to have an offset. -/
def ofClock (clock : WallClock) : Option TimeZone → Except Failure Literal
  | some zone => .ok (datetime ⟨clock, zone⟩)
  | none => .error (.cast (.missingOffset (clock.text none)) none)

/-- The literal of a time, which has to be one. -/
def ofTime : Value → Except Failure Literal
  | .datetime clock zone => ofClock clock zone
  | _ => .error .missingAttribute

/-- An item of a list literal that is made of whatever values there are. -/
def ofItem : Value → Literal
  | .literal l => l
  | v => foreign v

/-- The list literal that holds these values as they are. -/
def ofItems (items : List Value) : Literal := list (items.map ofItem)

mutual

/-- The literal of a plain value. A clock without a zone is taken as universal time; lists and
tuples become list literals. -/
def ofValue : Value → Except Failure Literal
  | .literal l => .ok l
  | .null => .ok null
  | .bool b => .ok (bool b)
  | .number n => do return number (← FiniteNumber.ofNumber n)
  | .text s => .ok (text s)
  | .datetime clock zone => .ok (datetime (.ofClock clock zone))
  | .date d => .ok (date d)
  | .list items => do return list (← ofValues items)
  | .tuple items => do return list (← ofValues items)
  | .complex .. => .error (.cast (.unsupportedType "complex") none)
  | .set _ => .error (.cast (.unsupportedType "set") none)
  | .bytes _ => .error (.cast (.unsupportedType "bytes") none)
  | .dict _ => .error (.cast (.unsupportedType "dict") none)
  | .object kind _ => .error (.cast (.unsupportedType kind) none)

/-- The literals of plain values; the first that fails decides. -/
def ofValues : List Value → Except Failure (List Literal)
  | [] => .ok []
  | v :: rest => do
    let first ← ofValue v
    return first :: (← ofValues rest)

end

mutual

def toValue : Literal → Except Failure Value
  | null => .ok .null
  | bool b => .ok (.bool b)
  | number n => .ok (.number n.number)
  | text s => .ok (.text s)
  | date d => .ok (.date d)
  | misdated clock zone => .ok (.datetime clock zone)
  | datetime z => .ok (.datetime z.clock (some z.zone))
  | list items => do return .list (← toValues items)
  | blank => .error .noValue
  | foreign v => .error (v.callFailure "to_python")

/-- The plain values of literals; the first that fails decides. -/
def toValues : List Literal → Except Failure (List Value)
  | [] => .ok []
  | l :: rest => do
    let first ← toValue l
    return first :: (← toValues rest)

end

end Literal
end RecordFilter
