import RecordFilter.Literal.Basic

/-! # Matching and ordering

A literal matches a value of its own kind that equals it, and orders numbers, dates and times. What
cannot be matched is no match, and what cannot be ordered has no order; only signaling decimals and
foreign items make a question fail. -/

namespace RecordFilter

namespace Literal

mutual

/-- Whether a value is of the literal's kind and equals it. Lists match item by item, in order, and
the first item that does not match ends the comparison. -/
def matchValue : Literal → Value → Except Failure Bool
  | null, v => .ok (v matches .null)
  | bool b, v => .ok (match v with | .bool c => c == b | _ => false)
  | number n, v => match v with | .number m => m.equal n.number | _ => .ok false
  | text s, v => .ok (match v with | .text t => t == s | _ => false)
  | date d, v => .ok (match v with | .date e => e == d | _ => false)
  | misdated .., _ => .ok false
  | datetime z, v =>
    .ok (match v with
      | .datetime clock zone => (ZonedDateTime.ofClock clock zone).same z
      | _ => false)
  | list items, v =>
    match v.items? with
    | some values => if values.length = items.length then matchValues items values else .ok false
    | none => .ok false
  | blank, _ => .ok false
  | foreign f, _ => .error (f.callFailure "matches")

def matchValues : List Literal → List Value → Except Failure Bool
  | [], _ | _, [] => .ok true
  | l :: literals, v :: values => do
    if ← matchValue l v then matchValues literals values else return false

end

/-- Whether a value matches one of the literals; the first match ends the search. -/
def matchAny : List Literal → Value → Except Failure Bool
  | [], _ => .ok false
  | l :: rest, v => do
    if ← l.matchValue v then return true else matchAny rest v

/-- How a value is ordered against a literal, if it is. A date orders the days of times too. -/
def order? : Literal → Value → Except Failure (Option Ordering)
  | number n, v => .ok (match v with | .number m => m.order? n.number | _ => none)
  | date d, v =>
    .ok (match v with
      | .date e => some (e.order d)
      | .datetime clock _ => some (clock.date.order d)
      | _ => none)
  | datetime z, v =>
    .ok (match v with
      | .datetime clock zone => (ZonedDateTime.ofClock clock zone).order? z
      | _ => none)
  | foreign f, _ => .error (f.callFailure "compare")
  | _, _ => .ok none

end Literal
end RecordFilter
