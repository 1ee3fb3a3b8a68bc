import RecordFilter.Predicate.Basic
import RecordFilter.Value.Same

/-! # Equal trees

Trees are equal if they have the same shape, identifiers, comparisons and links, and equal
literals. -/

namespace RecordFilter

def Condition.same (c d : Condition) : Bool :=
  c.identifier == d.identifier && c.comparison == d.comparison && c.literal.same d.literal

mutual

def Node.same : Node → Node → Bool
  | .condition c, n => match n with | .condition d => c.same d | _ => false
  | .group ps, n => match n with | .group qs => sameLevels ps qs | _ => false
  | .foreign v, n => match n with | .foreign w => v.same w | _ => false

def Predicate.same : Predicate → Predicate → Bool
  | .linked n link, q => match q with | .linked m link' => n.same m && link == link' | _ => false
  | .foreign v, q => match q with | .foreign w => v.same w | _ => false

def sameLevels : List Predicate → List Predicate → Bool
  | [], qs => qs.isEmpty
  | _ :: _, [] => false
  | p :: ps, q :: qs => p.same q && sameLevels ps qs

end
end RecordFilter
