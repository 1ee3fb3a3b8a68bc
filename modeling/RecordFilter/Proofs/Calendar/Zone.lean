import RecordFilter.Proofs.Calendar.DayCount

/-! # How times stand to each other

Times of one region stand to each other as their clocks do, all others as their instants do. The
clocks of a region need not agree with its instants, since an hour that is shown twice is one hour
to the clock. A time in such an hour, or in one that is left out, equals no time of another zone,
not even at its instant.
-/

namespace RecordFilter

namespace WallClock

private theorem eq_of_parts {v w : WallClock} (h : v.parts = w.parts) : v = w := by
  obtain ⟨⟨year, month, day, _⟩, hour, minute, second, micro, _⟩ := v
  obtain ⟨⟨year', month', day', _⟩, hour', minute', second', micro', _⟩ := w
  simp only [parts, List.cons.injEq, and_true] at h
  obtain ⟨rfl, rfl, rfl, rfl, rfl, rfl, rfl⟩ := h
  rfl

theorem microseconds_inj {v w : WallClock} : v.microseconds = w.microseconds ↔ v = w := by
  constructor
  · intro same
    have order := compare_microseconds v w
    rw [Nat.compare_eq_eq.mpr same] at order
    exact eq_of_parts (Std.LawfulEqOrd.compare_eq_iff_eq.mp order.symm)
  · rintro rfl
    rfl

end WallClock

namespace TimeZone

variable {y z : TimeZone}

theorem sameRegion_comm (y z : TimeZone) : y.sameRegion z = z.sameRegion y := by
  cases y with
  | fixed => cases z <;> rfl
  | region => cases z <;> first | rfl | exact Bool.beq_comm

theorem sameRegion_of_isFixed (h : z.isFixed = true) (y : TimeZone) : y.sameRegion z = false := by
  cases z with
  | fixed => cases y <;> rfl
  | region => cases h

theorem isSettled_of_isFixed (h : z.isFixed = true) : z.isSettled = true := by
  cases z with
  | fixed => rfl
  | region => cases h

end TimeZone

def Offset.oneHour : Offset := ⟨3600000000, by decide⟩

def Offset.twoHours : Offset := ⟨7200000000, by decide⟩

namespace ZonedDateTime

/-- When two times are equal: in one region if their clocks show the same, and otherwise if they are
    at one instant and both clocks show their times once. -/
inductive SameTime (y z : ZonedDateTime) : Prop where
  | clock : y.zone.sameRegion z.zone = true → y.clock = z.clock → SameTime y z
  | instant : y.zone.sameRegion z.zone = false → y.instant = z.instant →
      y.zone.isSettled = true → z.zone.isSettled = true → SameTime y z

/-- When two times are ordered at all. -/
def Comparable (y z : ZonedDateTime) : Prop :=
  y.zone.sameRegion z.zone = true ∨ y.instant ≠ z.instant ∨
    y.zone.isSettled = true ∧ z.zone.isSettled = true

variable {y z : ZonedDateTime}

theorem order?_of_sameRegion (h : y.zone.sameRegion z.zone = true) :
    y.order? z = some (compare y.clock.microseconds z.clock.microseconds) := if_pos h

theorem order?_of_settled (apart : y.zone.sameRegion z.zone = false)
    (settled : y.zone.isSettled = true ∧ z.zone.isSettled = true) :
    y.order? z = some (compare y.instant z.instant) := by
  rw [order?, apart, settled.1, settled.2]
  cases compare y.instant z.instant <;> rfl

theorem order?_of_ne (apart : y.zone.sameRegion z.zone = false) (ne : y.instant ≠ z.instant) :
    y.order? z = some (compare y.instant z.instant) := by
  rw [order?, apart]
  cases order : compare y.instant z.instant with
  | eq => exact absurd (Int.compare_eq_eq.mp order) ne
  | lt | gt => rfl

theorem order?_of_unsettled (apart : y.zone.sameRegion z.zone = false) (eq : y.instant = z.instant)
    (unsettled : ¬(y.zone.isSettled = true ∧ z.zone.isSettled = true)) : y.order? z = none := by
  rw [← Bool.and_eq_true, Bool.not_eq_true] at unsettled
  rw [order?, apart, Int.compare_eq_eq.mpr eq, unsettled]
  rfl

theorem isSome_order?_iff : (y.order? z).isSome = true ↔ y.Comparable z := by
  cases region : y.zone.sameRegion z.zone with
  | true => exact iff_of_true (by rw [order?_of_sameRegion region]; rfl) (.inl region)
  | false =>
      by_cases eq : y.instant = z.instant
      · by_cases settled : y.zone.isSettled = true ∧ z.zone.isSettled = true
        · exact iff_of_true (by rw [order?_of_settled region settled]; rfl) (.inr (.inr settled))
        · simp [order?_of_unsettled region eq settled, Comparable, region, eq, settled]
      · exact iff_of_true (by rw [order?_of_ne region eq]; rfl) (.inr (.inl eq))

theorem order?_eq_eq_iff : y.order? z = some .eq ↔ y.SameTime z := by
  cases region : y.zone.sameRegion z.zone with
  | true =>
      rw [order?_of_sameRegion region, Option.some.injEq, Nat.compare_eq_eq,
        WallClock.microseconds_inj]
      exact ⟨.clock region, fun same => by cases same with
        | clock _ same => exact same
        | instant other => simp [region] at other⟩
  | false =>
      constructor
      · intro order
        by_cases eq : y.instant = z.instant
        · by_cases settled : y.zone.isSettled = true ∧ z.zone.isSettled = true
          · exact .instant region eq settled.1 settled.2
          · rw [order?_of_unsettled region eq settled] at order
            cases order
        · rw [order?_of_ne region eq, Option.some.injEq, Int.compare_eq_eq] at order
          exact absurd order eq
      · rintro (⟨other, _⟩ | ⟨_, eq, first, second⟩)
        · simp [region] at other
        · rw [order?_of_settled region ⟨first, second⟩, Int.compare_eq_eq.mpr eq]

theorem same_iff : y.same z = true ↔ y.SameTime z := beq_iff_eq.trans order?_eq_eq_iff

theorem sameTime_self (z : ZonedDateTime) : z.SameTime z := by
  cases region : z.zone.sameRegion z.zone with
  | true => exact .clock region rfl
  | false =>
      have fixed : z.zone.isSettled = true := by
        cases hz : z.zone with
        | fixed => rfl
        | region => simp [hz, TimeZone.sameRegion] at region
      exact .instant region rfl fixed fixed

theorem SameTime.symm (h : y.SameTime z) : z.SameTime y := by
  cases h with
  | clock region same => exact .clock (TimeZone.sameRegion_comm _ _ ▸ region) same.symm
  | instant apart same hy hz =>
      exact .instant (TimeZone.sameRegion_comm _ _ ▸ apart) same.symm hz hy

/-- A time equals the one that goes by its offset as long as its clock shows it once. -/
theorem sameTime_atOffset_iff : z.SameTime z.atOffset ↔ z.zone.isSettled = true := by
  have apart : z.zone.sameRegion z.atOffset.zone = false := TimeZone.sameRegion_of_isFixed rfl _
  constructor
  · rintro (⟨region, _⟩ | ⟨_, _, settled, _⟩)
    · simp [apart] at region
    · exact settled
  · exact fun settled => .instant apart rfl settled rfl

/-- Times with fixed offsets are equal if they are at one instant. -/
theorem sameTime_iff_of_isFixed (hy : y.zone.isFixed = true) (hz : z.zone.isFixed = true) :
    y.SameTime z ↔ y.instant = z.instant := by
  have apart := TimeZone.sameRegion_of_isFixed hz y.zone
  constructor
  · rintro (⟨region, _⟩ | ⟨_, same, _⟩)
    · simp [apart] at region
    · exact same
  · intro same
    exact .instant apart same (TimeZone.isSettled_of_isFixed hy) (TimeZone.isSettled_of_isFixed hz)

/-- Against a fixed offset, a time that its clock shows once is ordered by its instant. -/
theorem order?_of_isFixed (settled : y.zone.isSettled = true) (fixed : z.zone.isFixed = true) :
    y.order? z = some (compare y.instant z.instant) :=
  order?_of_settled (TimeZone.sameRegion_of_isFixed fixed _)
    ⟨settled, TimeZone.isSettled_of_isFixed fixed⟩

/-- When two times stand alike to every other one. Equal times need not: if one of them is a time of
    a region, the other times of the region stand to it as the clocks do. -/
inductive InStep (y z : ZonedDateTime) : Prop where
  | fixed : y.zone.isFixed = true → z.zone.isFixed = true → y.instant = z.instant → InStep y z
  | region : y.zone.sameRegion z.zone = true → y.clock = z.clock → y.instant = z.instant →
      y.zone.isSettled = z.zone.isSettled → InStep y z

theorem inStep_of_isFixed (hy : y.zone.isFixed = true) (hz : z.zone.isFixed = true)
    (h : y.SameTime z) : y.InStep z :=
  .fixed hy hz ((sameTime_iff_of_isFixed hy hz).mp h)

theorem sameRegion_congr {x : TimeZone} (h : y.zone.sameRegion z.zone = true) :
    x.sameRegion y.zone = x.sameRegion z.zone := by
  cases hy : y.zone with
  | fixed => simp [hy, TimeZone.sameRegion] at h
  | region key =>
      cases hz : z.zone with
      | fixed => simp [hy, hz, TimeZone.sameRegion] at h
      | region other =>
          rw [hy, hz] at h
          rw [eq_of_beq h]
          cases x <;> rfl

/-- The two times are at one instant, and if there the clock of one shows its time once, so does
    that of the other. -/
structure AtOneInstant (y z : ZonedDateTime) : Prop where
  instant : y.instant = z.instant
  isSettled : y.zone.isSettled = z.zone.isSettled

theorem InStep.atOneInstant (h : y.InStep z) : y.AtOneInstant z := by
  cases h with
  | fixed hy hz instant =>
      exact ⟨instant, by rw [TimeZone.isSettled_of_isFixed hy, TimeZone.isSettled_of_isFixed hz]⟩
  | region _ _ instant settled => exact ⟨instant, settled⟩

/-- If the two times are of one region, its clocks tell them apart as their instants do, and show
    each of them once where they are at one instant. -/
def InTune (x y : ZonedDateTime) : Prop :=
  x.zone.sameRegion y.zone = true →
    compare x.clock.microseconds y.clock.microseconds = compare x.instant y.instant ∧
      (x.instant = y.instant → x.zone.isSettled = true ∧ y.zone.isSettled = true)

instance (x y : ZonedDateTime) : Decidable (x.InTune y) :=
  inferInstanceAs (Decidable (_ → _))

variable {x : ZonedDateTime}

theorem inTune_of_isFixed (h : y.zone.isFixed = true) (x : ZonedDateTime) : x.InTune y := by
  intro region
  rw [TimeZone.sameRegion_of_isFixed h] at region
  cases region

/-- Times that are in tune are ordered by their instants, of one region or not. -/
private theorem InTune.order?_eq (h : x.InTune y) : x.order? y =
    match compare x.instant y.instant with
    | .eq => if x.zone.isSettled && y.zone.isSettled then some .eq else none
    | apart => some apart := by
  rw [order?]
  split
  case isTrue region =>
      obtain ⟨clock, settled⟩ := h region
      rw [clock]
      cases order : compare x.instant y.instant with
      | eq =>
          obtain ⟨hx, hy⟩ := settled (Int.compare_eq_eq.mp order)
          rw [hx, hy]
          rfl
      | lt | gt => rfl
  case isFalse => rfl

/-- Times at one instant are told apart by no time that is in tune with both. -/
theorem AtOneInstant.order?_eq (h : y.AtOneInstant z) (hy : x.InTune y) (hz : x.InTune z) :
    x.order? y = x.order? z := by
  rw [hy.order?_eq, hz.order?_eq, h.instant, h.isSettled]

-- Half past two is left out in Berlin on this day: on the clock it is before a quarter past three,
-- by the instants after it.
example :
    let left : ZonedDateTime := ⟨⟨⟨2025, 3, 30, by decide⟩, 2, 30, 0, 0, by decide⟩,
      .region "Europe/Berlin" .oneHour .twoHours false⟩
    let later : ZonedDateTime := ⟨⟨⟨2025, 3, 30, by decide⟩, 3, 15, 0, 0, by decide⟩,
      .region "Europe/Berlin" .twoHours .twoHours false⟩
    later.AtOneInstant later.atOffset ∧
      left.order? later = some .lt ∧ left.order? later.atOffset = some .gt :=
  ⟨⟨rfl, rfl⟩, by decide +kernel, by decide +kernel⟩

theorem InStep.order?_eq (h : y.InStep z) (x : ZonedDateTime) : x.order? y = x.order? z := by
  cases h with
  | fixed hy hz instant =>
      have instants := (InStep.fixed hy hz instant).atOneInstant
      exact instants.order?_eq (inTune_of_isFixed hy x) (inTune_of_isFixed hz x)
  | region same clock instant settled =>
      rw [order?, order?, sameRegion_congr same, clock, instant, settled]

/-- A time that equals one of another zone is told from it by some time of that zone. -/
theorem sameRegion_of_order?_eq (h : ∀ x : ZonedDateTime, x.order? y = x.order? z)
    (region : z.zone.isFixed = false) : y.zone.sameRegion z.zone = true := by
  cases same : y.zone.sameRegion z.zone with
  | true => rfl
  | false =>
      cases hz : z.zone with
      | fixed => simp [hz, TimeZone.isFixed] at region
      | region key =>
          -- A clock of the region can show the time of `z` at any instant.
          have at_instant (o : Offset) :
              (z.clock.microseconds : Int) - o.microseconds = y.instant := by
            let x : ZonedDateTime := ⟨z.clock, .region key o o false⟩
            have in_region : x.zone.sameRegion z.zone = true := by
              rw [hz]
              exact beq_self_eq_true key
            have elsewhere : x.zone.sameRegion y.zone = false := by
              rw [TimeZone.sameRegion_comm, sameRegion_congr in_region, same]
            have equal : x.order? y = some .eq := by
              rw [h x]
              exact order?_eq_eq_iff.mpr (.clock in_region rfl)
            cases order?_eq_eq_iff.mp equal with
            | clock other => simp [elsewhere] at other
            | instant _ instant => exact instant
          have both := (at_instant .utc).trans (at_instant ⟨1, by decide⟩).symm
          change (z.clock.microseconds : Int) - 0 = z.clock.microseconds - 1 at both
          omega

/-- To every time of a kind, the one stands like the other. -/
def StandsLike (kind : ZonedDateTime → Prop) (y z : ZonedDateTime) : Prop :=
  ∀ x, kind x → x.order? y = x.order? z

theorem InStep.standsLike (h : y.InStep z) : y.StandsLike (fun _ => True) z :=
  fun x _ => h.order?_eq x

/-- Two times stand alike to every other one exactly if they are in step. -/
theorem inStep_iff : y.InStep z ↔ ∀ x : ZonedDateTime, x.order? y = x.order? z := by
  refine ⟨InStep.order?_eq, fun h => ?_⟩
  have equal : y.SameTime z := by
    rw [← order?_eq_eq_iff, ← h y]
    exact order?_eq_eq_iff.mpr (sameTime_self y)
  cases hz : z.zone.isFixed with
  | true =>
      cases hy : y.zone.isFixed with
      | true => exact inStep_of_isFixed hy hz equal
      | false =>
          have region := sameRegion_of_order?_eq (fun x => (h x).symm) hy
          rw [TimeZone.sameRegion_comm, TimeZone.sameRegion_of_isFixed hz] at region
          cases region
  | false =>
      have region := sameRegion_of_order?_eq h hz
      have clock : y.clock = z.clock := by
        cases equal with
        | clock _ clock => exact clock
        | instant other => simp [region] at other
      -- The instants are told by the time that goes by the offset of `y`.
      have told := h y.atOffset
      have apart (x : ZonedDateTime) : y.atOffset.zone.sameRegion x.zone = false := by
        rw [TimeZone.sameRegion_comm, TimeZone.sameRegion_of_isFixed rfl]
      by_cases settled : y.zone.isSettled = true
      · have same : y.atOffset.order? z = some .eq := by
          rw [← told]
          exact order?_eq_eq_iff.mpr (.instant (apart y) rfl rfl settled)
        cases order?_eq_eq_iff.mp same with
        | clock other => simp [apart] at other
        | instant _ instant _ other => exact .region region clock instant (settled.trans other.symm)
      · have none : y.atOffset.order? z = none := by
          rw [← told]
          exact order?_of_unsettled (apart y) rfl fun both => settled both.2
        rw [← Option.not_isSome_iff_eq_none, isSome_order?_iff, Comparable] at none
        push Not at none
        obtain ⟨_, instant, unsettled⟩ := none
        have other := unsettled rfl
        rw [Bool.not_eq_true] at settled
        exact .region region clock instant (settled.trans (by simpa using other.symm))

/-- When one time does not come after another, by the clocks of their region as by their instants,
    or by their instants alone if both offsets are fixed. -/
inductive NotAfter (y z : ZonedDateTime) : Prop where
  | fixed : y.zone.isFixed = true → z.zone.isFixed = true → y.instant ≤ z.instant → NotAfter y z
  | region : y.zone.sameRegion z.zone = true → y.clock.microseconds ≤ z.clock.microseconds →
      y.instant ≤ z.instant → NotAfter y z

/-- Times that do not share a region come after each other as their instants do. -/
theorem order?_eq_some_iff (apart : y.zone.sameRegion z.zone = false) {order : Ordering}
    (unequal : order ≠ .eq) : y.order? z = some order ↔ compare y.instant z.instant = order := by
  by_cases eq : y.instant = z.instant
  · rw [Int.compare_eq_eq.mpr eq]
    refine iff_of_false ?_ unequal.symm
    by_cases settled : y.zone.isSettled = true ∧ z.zone.isSettled = true
    · simp [order?_of_settled apart settled, Int.compare_eq_eq.mpr eq, unequal.symm]
    · simp [order?_of_unsettled apart eq settled]
  · rw [order?_of_ne apart eq, Option.some.injEq]

theorem NotAfter.order? (h : y.NotAfter z) (x : ZonedDateTime) :
    (x.order? z = some .gt → x.order? y = some .gt) ∧
    (x.order? y = some .lt → x.order? z = some .lt) := by
  have by_instant (first : x.zone.sameRegion y.zone = false)
      (second : x.zone.sameRegion z.zone = false)
      (le : y.instant ≤ z.instant) : (x.order? z = some .gt → x.order? y = some .gt) ∧
        (x.order? y = some .lt → x.order? z = some .lt) := by
    rw [order?_eq_some_iff first (by decide), order?_eq_some_iff second (by decide),
      order?_eq_some_iff first (by decide), order?_eq_some_iff second (by decide)]
    simp only [Int.compare_eq_gt, Int.compare_eq_lt]
    omega
  cases h with
  | fixed hy hz le =>
      exact by_instant (TimeZone.sameRegion_of_isFixed hy _) (TimeZone.sameRegion_of_isFixed hz _) le
  | region same clock le =>
      cases region : x.zone.sameRegion y.zone with
      | true =>
          rw [order?_of_sameRegion region, order?_of_sameRegion (sameRegion_congr same ▸ region)]
          simp only [Option.some.injEq, Nat.compare_eq_gt, Nat.compare_eq_lt]
          omega
      | false => exact by_instant region (sameRegion_congr same ▸ region) le

/-- A noon in summer, by the clock of a region. -/
def summerNoon : ZonedDateTime :=
  ⟨⟨⟨2024, 7, 1, by decide⟩, 12, 0, 0, 0, by decide⟩,
    .region "Europe/Berlin" .twoHours .twoHours false⟩

/-- Half past two on a day on which the clocks of the region go back at three, before they do. -/
def repeatedHour : ZonedDateTime :=
  ⟨⟨⟨2024, 10, 27, by decide⟩, 2, 30, 0, 0, by decide⟩,
    .region "Europe/Berlin" .twoHours .oneHour false⟩

example : repeatedHour.order? repeatedHour.atOffset = none := by decide +kernel

end ZonedDateTime

end RecordFilter
