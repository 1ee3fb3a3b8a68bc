import RecordFilter.Proofs.Result
import RecordFilter.Record.Attribute

/-! # What values refuse

A value can refuse to be asked for an attribute or to be put into words. Whatever the failure is
then, it is none that a query that does not parse has, so nobody takes it for bad syntax or a bad
literal.
-/

namespace RecordFilter

/-- The operation does not fail as a parse does. -/
def NoParseFailure {α : Type} (x : Except Failure α) : Prop :=
  ∀ failure, x = .error failure → failure.isParseFailure = false

namespace NoParseFailure

variable {α β : Type}

theorem ok (a : α) : NoParseFailure (.ok a : Except Failure α) := by
  intro failure failed
  cases failed

theorem error {failure : Failure} (h : failure.isParseFailure = false) :
    NoParseFailure (.error failure : Except Failure α) := by
  intro other failed
  cases failed
  exact h

theorem bind {x : Except Failure α} {f : α → Except Failure β} (hx : NoParseFailure x)
    (hf : ∀ a, NoParseFailure (f a)) : NoParseFailure (x >>= f) := by
  intro failure failed
  rcases bind_eq_error_iff.mp failed with first | ⟨a, _, second⟩
  · exact hx failure first
  · exact hf a failure second

end NoParseFailure

namespace Value

theorem noParseFailure_givenAttribute (name : String) (v : Value) :
    NoParseFailure (v.givenAttribute name) := by
  unfold givenAttribute
  split
  · split
    · exact .ok _
    · next fault _ => cases fault <;> exact .error rfl
    · exact .error rfl
  · exact .error rfl

private theorem isParseFailure_callFailure (name : String) (v : Value) :
    (v.callFailure name).isParseFailure = false := by
  unfold callFailure
  split
  · rfl
  · next failure failed => exact noParseFailure_givenAttribute name v failure failed

end Value

namespace Literal

mutual

private theorem noParseFailure_toValue (l : Literal) : NoParseFailure l.toValue := by
  cases l with
  | list items =>
      rw [toValue]
      exact (noParseFailure_toValues items).bind fun values => .ok _
  | blank => exact .error rfl
  | foreign v => exact .error (v.isParseFailure_callFailure "to_python")
  | _ => exact .ok _

private theorem noParseFailure_toValues (items : List Literal) :
    NoParseFailure (toValues items) := by
  cases items with
  | nil => exact .ok _
  | cons l rest =>
      rw [toValues]
      exact (noParseFailure_toValue l).bind fun first =>
        (noParseFailure_toValues rest).bind fun others => .ok _

end

private theorem noParseFailure_readAttribute (l : Literal) (name : String) :
    NoParseFailure (l.readAttribute name) := by
  unfold readAttribute
  split
  · exact .ok _
  · split
    · exact .ok _
    · split
      · exact .error rfl
      · exact .error rfl
      · exact .ok _
      · exact .ok _
      · exact noParseFailure_toValue _
      · exact .error rfl

end Literal

namespace Number

theorem noParseFailure_intText (n : Int) : NoParseFailure (intText n) := by
  unfold intText
  split
  · exact .ok _
  · exact .error rfl

theorem noParseFailure_queryText (n : Number) : NoParseFailure n.queryText := by
  cases n with
  | int n => exact noParseFailure_intText n
  | fraction r =>
      exact (noParseFailure_intText _).bind fun _ => (noParseFailure_intText _).bind fun _ => .ok _
  | _ => exact .ok _

theorem noParseFailure_shown (n : Number) : NoParseFailure n.shown := by
  unfold shown
  split
  · exact .ok _
  · exact noParseFailure_queryText n

private theorem noParseFailure_plain (n : Number) : NoParseFailure n.plain := by
  unfold plain
  split
  · refine (noParseFailure_intText _).bind fun _ => ?_
    split
    · exact .ok _
    · exact (noParseFailure_intText _).bind fun _ => .ok _
  · exact noParseFailure_queryText n

end Number

mutual

private theorem Value.noParseFailure_shown (v : Value) : NoParseFailure v.shown := by
  cases v with
  | number n => exact n.noParseFailure_shown
  | list items => exact (noParseFailure_shownItems items).bind fun _ => .ok _
  | tuple items => exact (noParseFailure_shownItems items).bind fun _ => .ok _
  | set members => exact (noParseFailure_shownItems members).bind fun _ => .ok _
  | dict entries => exact (noParseFailure_shownEntries entries).bind fun _ => .ok _
  | literal l => exact l.noParseFailure_shown
  | _ => exact .ok _

private theorem noParseFailure_shownItems (items : List Value) :
    NoParseFailure (shownItems items) := by
  cases items with
  | nil => exact .ok _
  | cons v rest =>
      exact v.noParseFailure_shown.bind fun _ => (noParseFailure_shownItems rest).bind fun _ => .ok _

private theorem noParseFailure_shownEntries (entries : List (String × Value)) :
    NoParseFailure (shownEntries entries) := by
  match entries with
  | [] => exact .ok _
  | (key, v) :: rest =>
      exact v.noParseFailure_shown.bind fun _ => (noParseFailure_shownEntries rest).bind fun _ => .ok _

private theorem Literal.noParseFailure_shown (l : Literal) : NoParseFailure l.shown := by
  cases l with
  | number n => exact n.number.noParseFailure_shown.bind fun _ => .ok _
  | list items => exact (noParseFailure_shownLiterals items).bind fun _ => .ok _
  | foreign v => exact v.noParseFailure_shown
  | _ => exact .ok _

private theorem noParseFailure_shownLiterals (items : List Literal) :
    NoParseFailure (shownLiterals items) := by
  cases items with
  | nil => exact .ok _
  | cons l rest =>
      exact l.noParseFailure_shown.bind fun _ => (noParseFailure_shownLiterals rest).bind fun _ => .ok _

end

namespace Value

theorem noParseFailure_readAttribute (name : String) (v : Value) :
    NoParseFailure (v.readAttribute name) := by
  unfold readAttribute
  split
  · split
    · exact .ok _
    · exact .error rfl
  · exact Literal.noParseFailure_readAttribute _ name
  · exact noParseFailure_givenAttribute name _

theorem noParseFailure_plain (v : Value) : NoParseFailure v.plain := by
  unfold plain
  split
  · exact .ok _
  · exact Number.noParseFailure_plain _
  · exact .ok _
  · exact .ok _
  · exact noParseFailure_shown _

end Value

end RecordFilter
