import RecordFilter.Operator

/-! # Folding results

The results of a level are cut into runs after each result that is not linked by `and`. A run holds
if all its results do, and the level holds if one of its runs does, so `and` binds more tightly than
`or`. -/

namespace RecordFilter

/-- How far the fold of a level has come: whether each of the runs behind it has held, whether the
run that it is in has held so far, and whether that run has begun. -/
structure Folding where
  runs : List Bool
  running : Bool
  pending : Bool

namespace Folding

def start : Folding := ⟨[], true, false⟩

/-- Takes one more result with its link. -/
def take (f : Folding) (link : Option Connective) (result : Bool) : Folding :=
  let running := f.running && result
  if link = none ∨ link = some .or then ⟨f.runs ++ [running], true, false⟩
  else ⟨f.runs, running, true⟩

/-- Whether a run holds, when no more results come. -/
def holds (f : Folding) : Bool :=
  let runs := if f.pending then f.runs ++ [f.running] else f.runs
  runs.any id

/-- Goes on through what yields the links and results of a level. Each is pulled when all before it
have been taken. -/
def through {m : Type → Type} [Monad m] (f : Folding) : List (m (Option Connective × Bool)) → m Bool
  | [] => return f.holds
  | next :: rest => do
    let (link, result) ← next
    (f.take link result).through rest

end Folding

/-- Whether a level holds, given its links and results. An empty level does not. -/
def foldResults (results : List (Option Connective × Bool)) : Bool :=
  Id.run (Folding.start.through (results.map pure))

end RecordFilter
