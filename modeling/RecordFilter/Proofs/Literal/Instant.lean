import Mathlib
import RecordFilter.Literal.Cast
import RecordFilter.Proofs.Calendar.WrittenTime
import RecordFilter.Proofs.Predicate.Interchange
import RecordFilter.Proofs.Predicate.Order

/-! # Times are ordered by their instants

The instant of a written time is what its clock counts, less the offset that is written behind it.
Two times are ordered by the sign of the difference of their instants. The counts are whole numbers
without a bound, so the offset may well lead out of the years that the calendar has.
-/

namespace RecordFilter

namespace ZonedDateTime

/-- The time as a value that a record can hold. -/
def value (z : ZonedDateTime) : Value := .datetime z.clock (some z.zone)

/-- Clock and offset are both moved ahead by a number of microseconds. -/
structure Moved (shift : Int) (z z' : ZonedDateTime) : Prop where
  clock : ∀ i j : Nat, z.clock.Counted i → z'.clock.Counted j → (j : Int) = i + shift
  fixed : z'.zone.isFixed = true
  offset : z'.offset.microseconds = z.offset.microseconds + shift

end ZonedDateTime

/-- The instant of a written time whose clock counts so many microseconds. -/
def WrittenTime.instant (w : WrittenTime) (count : Nat) : Int := count - 1000000 * w.offset.seconds

/-- The text has the form of the written time, which names `z`, whose clock counts `count`. -/
structure ReadsTime (text : String) (w : WrittenTime) (z : ZonedDateTime) (count : Nat) : Prop where
  form : text.toList = w.chars
  named : w.Names z
  counted : z.clock.Counted count

theorem ReadsTime.instant_eq {text : String} {w : WrittenTime} {z : ZonedDateTime} {count : Nat}
    (h : ReadsTime text w z count) : z.instant = w.instant count := by
  rw [ZonedDateTime.instant, WrittenTime.instant, WallClock.counted_iff.mp h.counted, h.named.offset]

private theorem ZonedDateTime.Moved.instant_eq {shift : Int} {z z' : ZonedDateTime}
    (h : z.Moved shift z') : z'.instant = z.instant := by
  have clock := h.clock _ _ (WallClock.counted_iff.mpr rfl) (WallClock.counted_iff.mpr rfl)
  rw [ZonedDateTime.instant, ZonedDateTime.instant, clock, h.offset]
  omega

/-- How two instants are ordered is the sign of their difference. -/
theorem compare_sub_zero (i j : Int) : compare (i - j) 0 = compare i j := by
  have less : i - j < 0 ↔ i < j := by omega
  have greater : 0 < i - j ↔ j < i := by omega
  simp only [Int.compare_eq_ite_lt, less, greater]

private theorem compare_natCast (i j : Nat) : compare (i : Int) (j : Int) = compare i j := by
  simp only [Int.compare_eq_ite_lt, Nat.compare_eq_ite_lt, Int.ofNat_lt]

private theorem exists_of_castDateTime {text : String} {position : Option Int} {l : Literal}
    (h : Literal.castDateTime text position = .ok l) :
    ∃ w z count, l = .datetime z ∧ ReadsTime text w z count := by
  unfold Literal.castDateTime at h
  split at h
  · next z found =>
      cases h
      obtain ⟨w, form, named⟩ := ZonedDateTime.read_eq_iff.mp found
      exact ⟨w, z, z.clock.microseconds, rfl, form, named, WallClock.counted_iff.mpr rfl⟩
  · cases h
  · cases h

/-- Times that are ordered alike against a time compare alike with it. -/
theorem Comparison.holds_of_order?_eq {z : ZonedDateTime} {clock clock' : WallClock}
    {zone zone' : Option TimeZone}
    (h : (ZonedDateTime.ofClock clock zone).order? z = (ZonedDateTime.ofClock clock' zone').order? z)
    (op : Comparison) :
    op.holds (.datetime clock zone) (.datetime z) =
      op.holds (.datetime clock' zone') (.datetime z) := by
  have order : (Literal.datetime z).order? (.datetime clock zone) =
      (Literal.datetime z).order? (.datetime clock' zone') := congrArg Except.ok h
  cases op with
  | equal | notEqual => simp only [holds, equals, Literal.isTemporal, if_true, order]
  | greater | greaterOrEqual | less | lessOrEqual => simp only [holds, ordered, order]
  | memberOf | contains | notContains => rfl

namespace Literal

variable {y z : ZonedDateTime}

theorem order?_value (hy : y.zone.isFixed = true) (hz : z.zone.isFixed = true) :
    (datetime y).order? z.value = .ok (some (compare z.instant y.instant)) :=
  congrArg Except.ok (ZonedDateTime.order?_of_isFixed (TimeZone.isSettled_of_isFixed hz) hy)

/-- At equal offsets times are ordered by what their clocks show. -/
theorem order?_of_offset_eq (hy : y.zone.isFixed = true) (hz : z.zone.isFixed = true)
    (h : y.offset.microseconds = z.offset.microseconds) :
    (datetime y).order? z.value = .ok (some (compare z.clock.parts y.clock.parts)) := by
  have difference : z.instant - y.instant = (z.clock.microseconds : Int) - y.clock.microseconds := by
    rw [ZonedDateTime.instant, ZonedDateTime.instant, h]
    omega
  rw [order?_value hy hz, ← compare_sub_zero, difference, compare_sub_zero, compare_natCast,
    WallClock.compare_microseconds]

/-- Texts that are cast to times are ordered by the instants that stand in them. -/
theorem datetime_order_of_texts {a b : String} {p q : Option Int} {l m : Literal}
    (first : castDateTime a p = .ok l) (second : castDateTime b q = .ok m) :
    ∃ (y z : ZonedDateTime) (v w : WrittenTime) (i j : Nat),
      (l = datetime y ∧ ReadsTime a v y i) ∧ (m = datetime z ∧ ReadsTime b w z j) ∧
      l.order? z.value = .ok (some (compare (w.instant j - v.instant i) 0)) ∧
      (∀ op ∈ Comparison.relational, op.holds z.value l =
        .ok (op.accepts (some (compare (w.instant j - v.instant i) 0)))) ∧
      (v.offset.seconds = w.offset.seconds →
        l.order? z.value = .ok (some (compare w.parts v.parts))) ∧
      (∀ shift z', z.Moved shift z' → ∀ op : Comparison,
        op.holds z'.value l = op.holds z.value l ∧
        ∀ u, op.holds u (datetime z') = op.holds u m) ∧
      ∀ clock, ∀ op : Comparison,
        op.holds (.datetime clock none) l = op.holds (.datetime clock (some .utc)) l := by
  obtain ⟨v, y, i, rfl, readsFirst⟩ := exists_of_castDateTime first
  obtain ⟨w, z, j, rfl, readsSecond⟩ := exists_of_castDateTime second
  have hy := readsFirst.named.fixed
  have hz := readsSecond.named.fixed
  have order : (datetime y).order? z.value = .ok (some (compare (w.instant j - v.instant i) 0)) := by
    rw [compare_sub_zero, ← readsFirst.instant_eq, ← readsSecond.instant_eq, order?_value hy hz]
  refine ⟨y, z, v, w, i, j, ⟨rfl, readsFirst⟩, ⟨rfl, readsSecond⟩, order, ?_, ?_, ?_, ?_⟩
  · intro op relational
    exact Comparison.holds_eq_accepts relational rfl order nofun
  · intro same
    rw [← readsFirst.named.parts, ← readsSecond.named.parts]
    apply order?_of_offset_eq hy hz
    rw [readsFirst.named.offset, same, readsSecond.named.offset]
  · intro shift z' moved op
    have subject : (ZonedDateTime.ofClock z'.clock (some z'.zone)).order? y =
        (ZonedDateTime.ofClock z.clock (some z.zone)).order? y := by
      change z'.order? y = z.order? y
      rw [ZonedDateTime.order?_of_isFixed (TimeZone.isSettled_of_isFixed moved.fixed) hy,
        ZonedDateTime.order?_of_isFixed (TimeZone.isSettled_of_isFixed hz) hy, moved.instant_eq]
    have literal : (datetime z').same (datetime z) = true := ZonedDateTime.same_iff.mpr
      ((ZonedDateTime.sameTime_iff_of_isFixed moved.fixed hz).mpr moved.instant_eq)
    have step : List.Forall₂ ZonedDateTime.InStep (datetime z').times (datetime z).times :=
      forall₂_inStep_of_isFixed (sameTimes_of_same literal)
        (List.forall_mem_singleton.mpr moved.fixed) (List.forall_mem_singleton.mpr hz)
    exact ⟨Comparison.holds_of_order?_eq subject op,
      Comparison.holds_of_inStep literal step op⟩
  · intro clock op
    exact Comparison.holds_of_order?_eq rfl op

theorem midnight_in_day : 0 < 24 ∧ 0 < 60 ∧ 0 < 60 ∧ 0 < 1000000 := by decide

/-- The first clock of the calendar, ahead of universal time by nearly a day. -/
def firstClock : ZonedDateTime :=
  ⟨⟨⟨1, 1, 1, by decide⟩, 0, 0, 0, 0, midnight_in_day⟩, .fixed ⟨85140000000, by decide⟩⟩

/-- The last clock of the calendar, behind universal time by nearly a day. -/
def lastClock : ZonedDateTime :=
  ⟨⟨⟨9999, 12, 31, by decide⟩, 23, 59, 59, 999999, by decide⟩, .fixed ⟨-86340000000, by decide⟩⟩

theorem datetime_order_of_texts_farthest :
    castDateTime "0001-01-01T00:00:00+22:99" none = .ok (datetime firstClock) ∧
    castDateTime "9999-12-31 23:59:59.999999-2359" none = .ok (datetime lastClock) ∧
    ∃ v w i j, ReadsTime "0001-01-01T00:00:00+22:99" v firstClock i ∧
      ReadsTime "9999-12-31 23:59:59.999999-2359" w lastClock j ∧
      v.instant i = 1260000000 ∧ w.instant j = 315538070339999999 ∧
      Comparison.greater.holds lastClock.value (datetime firstClock) = .ok true := by
  have first : castDateTime "0001-01-01T00:00:00+22:99" none = .ok (datetime firstClock) := by
    cbv
  have second : castDateTime "9999-12-31 23:59:59.999999-2359" none = .ok (datetime lastClock) := by
    cbv
  obtain ⟨_, _, v, w, i, j, ⟨⟨⟩, readsFirst⟩, ⟨⟨⟩, readsSecond⟩, _, relational, _⟩ :=
    datetime_order_of_texts first second
  have start : v.instant i = 1260000000 := readsFirst.instant_eq.symm.trans (by decide)
  have stop : w.instant j = 315538070339999999 := readsSecond.instant_eq.symm.trans (by decide)
  refine ⟨first, second, v, w, i, j, readsFirst, readsSecond, start, stop, ?_⟩
  rw [relational _ (by decide), start, stop]
  rfl

end Literal

end RecordFilter
