import RecordFilter.Literal.Basic

/-! # Attributes

What objects, fractions and literals have besides what they stand for. Values of the other kinds
have no attributes that a query or a tree could ask for. -/

namespace RecordFilter

namespace Value

/-- A method, which is a value without attributes. -/
def method : Value := object "method" []

end Value

def fractionMethods : List String :=
  ["_add", "_sub", "_mul", "_div", "_floordiv", "_divmod", "_mod", "_richcmp",
   "_operator_fallbacks", "as_integer_ratio", "conjugate", "from_decimal", "from_float",
   "limit_denominator"]

/-- An attribute of a fraction. As a number it has a real part, itself, and an imaginary one. -/
def fractionAttribute? (r : Rat) (name : String) : Option Value :=
  if name = "numerator" ∨ name = "_numerator" then some (.number (.int r.num))
  else if name = "denominator" ∨ name = "_denominator" then some (.number (.int r.den))
  else if name = "real" then some (.number (.fraction r))
  else if name = "imag" then some (.number (.int 0))
  else if name = "_abc_impl" then some (.object "_abc_data" [])
  else if fractionMethods.contains name then some .method
  else none

namespace Literal

/-- The value that was put into a list literal, or the literal. -/
def toItem : Literal → Value
  | foreign v => v
  | l => .literal l

/-- Reads an attribute of a literal. The value of a list literal is made when it is asked for, which
can fail. -/
def readAttribute (l : Literal) (name : String) : Except Failure Value :=
  if name = "is_temporal" then .ok (.bool l.isTemporal)
  else if ["matches", "compare", "to_python"].contains name then .ok .method
  else
    match l, name with
    | blank, _ | foreign _, _ => .error .missingAttribute
    | list items, "items" => .ok (.tuple (items.map toItem))
    | list _, "has_member" => .ok .method
    | l, "value" => l.toValue
    | _, _ => .error .missingAttribute

end Literal

namespace Value

def readAttribute (name : String) : Value → Except Failure Value
  | number (.fraction r) =>
    match fractionAttribute? r name with
    | some v => .ok v
    | none => .error .missingAttribute
  | literal l => l.readAttribute name
  | v => v.givenAttribute name

end Value
end RecordFilter
