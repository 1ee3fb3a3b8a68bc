import RecordFilter.Failure

/-! # Operations on a state

What an operation has done to its state stays done, also if it fails afterwards. -/

namespace RecordFilter

/-- An operation that can fail and keeps a state, which outlives its failures. -/
abbrev Stateful (σ : Type) := ExceptT Failure (StateM σ)

namespace Stateful

variable {σ α : Type}

/-- What comes of an operation, and the state after it. -/
def runFrom (x : Stateful σ α) (s : σ) : Except Failure α × σ := x.run.run s

/-- What comes of an operation on a state that nothing else is done with. -/
def resultFrom (x : Stateful σ α) (s : σ) : Except Failure α := (x.runFrom s).1

end Stateful
end RecordFilter
