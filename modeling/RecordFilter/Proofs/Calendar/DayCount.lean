import RecordFilter.Proofs.Calendar.Reading

/-! # Counting days

The number of a day is computed from its year, its month and its day of the month. It is the number
that one comes to by counting the days one after the other, from the first of January of the year 1.
Days are ordered by their numbers, which is the order of their parts, the year before the month and
the month before the day.
-/

namespace RecordFilter

/-- Two numbers are ordered by what decides first, and if that is equal by what comes after it. -/
theorem compare_eq_then {m n a b : Nat} {after : Ordering} (less : a < b → m < n)
    (greater : b < a → n < m) (same : a = b → compare m n = after) :
    compare m n = (compare a b).then after := by
  rcases Nat.lt_trichotomy a b with h | h | h
  · rw [Nat.compare_eq_lt.mpr h, Nat.compare_eq_lt.mpr (less h)]
    rfl
  · rw [Nat.compare_eq_eq.mpr h, same h]
    rfl
  · rw [Nat.compare_eq_gt.mpr h, Nat.compare_eq_gt.mpr (greater h)]
    rfl

theorem daysInMonth_pos {month : Nat} (some_month : 1 ≤ month) (h : month ≤ 12) (year : Nat) :
    1 ≤ daysInMonth year month := by
  unfold daysInMonth
  split <;> first | decide | split <;> decide | grind

namespace Date

private theorem one_le_month (d : Date) : 1 ≤ d.month := by
  obtain ⟨_, _, some_day, within⟩ := d.exists_day
  apply Nat.one_le_iff_ne_zero.mpr
  intro zero
  rw [zero] at within
  have none : daysInMonth d.year 0 = 0 := rfl
  omega

theorem daysBeforeMonth_succ (year month : Nat) :
    daysBeforeMonth year (month + 1) = daysBeforeMonth year month + daysInMonth year month := by
  simp only [daysBeforeMonth, List.range_succ, List.map_append, List.foldl_append, List.map_cons,
    List.map_nil, List.foldl_cons, List.foldl_nil]

private theorem daysBeforeMonth_mono (year : Nat) {m n : Nat} (h : m ≤ n) :
    daysBeforeMonth year m ≤ daysBeforeMonth year n := by
  induction h with
  | refl => exact Nat.le_refl _
  | step _ ih =>
      rw [daysBeforeMonth_succ]
      omega

private theorem daysBeforeMonth_thirteen (year : Nat) :
    daysBeforeMonth year 13 = if isLeapYear year then 366 else 365 := by
  have months : daysBeforeMonth year 13 = 337 + daysInMonth year 2 := by
    simp only [daysBeforeMonth, List.range, List.range.loop, List.map_cons, List.map_nil,
      List.foldl_cons, List.foldl_nil]
    simp only [daysInMonth]
    omega
  rw [months, daysInMonth]
  split <;> rfl

/-- A year is over when its twelve months are. -/
theorem daysBeforeYear_succ {year : Nat} (h : 1 ≤ year) :
    daysBeforeYear (year + 1) = daysBeforeYear year + daysBeforeMonth year 13 := by
  obtain ⟨past, rfl⟩ := Nat.exists_eq_add_of_le' h
  have four_of_hundred : (past + 1) % 100 = 0 → (past + 1) % 4 = 0 := by omega
  have hundred_of_fourHundred : (past + 1) % 400 = 0 → (past + 1) % 100 = 0 := by omega
  have fewer : past / 100 ≤ past / 4 := Nat.div_le_div_left (by decide) (by decide)
  rw [daysBeforeMonth_thirteen]
  simp only [daysBeforeYear, isLeapYear, Nat.add_sub_cancel, Nat.succ_div, Nat.dvd_iff_mod_eq_zero,
    Bool.and_eq_true, Bool.or_eq_true, beq_iff_eq, bne_iff_ne]
  generalize past / 4 = fours, past / 100 = hundreds at fewer ⊢
  by_cases four : (past + 1) % 4 = 0
  · by_cases hundred : (past + 1) % 100 = 0
    · by_cases fourHundred : (past + 1) % 400 = 0
      · rw [if_pos four, if_pos hundred, if_pos fourHundred, if_pos ⟨four, .inr fourHundred⟩]
        omega
      · rw [if_pos four, if_pos hundred, if_neg fourHundred,
          if_neg fun leap => leap.2.elim (· hundred) fourHundred]
        omega
    · have fourHundred := mt hundred_of_fourHundred hundred
      rw [if_pos four, if_neg hundred, if_neg fourHundred, if_pos ⟨four, .inl hundred⟩]
      omega
  · have hundred := mt four_of_hundred four
    have fourHundred := mt hundred_of_fourHundred hundred
    rw [if_neg four, if_neg hundred, if_neg fourHundred, if_neg fun leap => four leap.1]
    omega

private theorem daysBeforeYear_mono {m n : Nat} (some_year : 1 ≤ m) (h : m ≤ n) :
    daysBeforeYear m ≤ daysBeforeYear n := by
  induction h with
  | refl => exact Nat.le_refl _
  | step le ih =>
      rw [daysBeforeYear_succ (Nat.le_trans some_year le)]
      omega

/-- The days of a month are over before the next month begins. -/
theorem le_daysBeforeMonth (d : Date) {month : Nat} (h : d.month < month) :
    daysBeforeMonth d.year d.month + d.day ≤ daysBeforeMonth d.year month := by
  have within := d.exists_day.2.2.2
  have later := daysBeforeMonth_mono d.year (Nat.succ_le_of_lt h)
  rw [Nat.succ_eq_add_one, daysBeforeMonth_succ] at later
  omega

/-- The days of a year are over before the next year begins. -/
theorem dayNumber_le_daysBeforeYear (d : Date) {year : Nat} (h : d.year < year) :
    d.dayNumber ≤ daysBeforeYear year := by
  have within : daysBeforeMonth d.year d.month + d.day ≤ daysBeforeMonth d.year 13 :=
    d.le_daysBeforeMonth (Nat.lt_succ_of_le (Calendar.month_le_of_day d.exists_day))
  have later := daysBeforeYear_mono (Nat.le_succ_of_le d.exists_day.1) (Nat.succ_le_of_lt h)
  rw [Nat.succ_eq_add_one, daysBeforeYear_succ d.exists_day.1] at later
  rw [dayNumber]
  omega

theorem daysBeforeYear_lt_dayNumber (d : Date) : daysBeforeYear d.year < d.dayNumber := by
  have some_day := d.exists_day.2.2.1
  rw [dayNumber]
  omega

private theorem dayNumber_lt_of_year {d e : Date} (h : d.year < e.year) :
    d.dayNumber < e.dayNumber :=
  Nat.lt_of_le_of_lt (d.dayNumber_le_daysBeforeYear h) e.daysBeforeYear_lt_dayNumber

private theorem dayNumber_lt_of_month {d e : Date} (year : d.year = e.year)
    (h : d.month < e.month) :
    d.dayNumber < e.dayNumber := by
  have ended := d.le_daysBeforeMonth h
  have some_day := e.exists_day.2.2.1
  rw [dayNumber, dayNumber, ← year]
  omega

/-- Days are ordered by the year, then by the month, then by the day of the month. -/
theorem compare_dayNumber (d e : Date) : compare d.dayNumber e.dayNumber =
    (compare d.year e.year).then ((compare d.month e.month).then (compare d.day e.day)) := by
  apply compare_eq_then dayNumber_lt_of_year dayNumber_lt_of_year
  intro year
  apply compare_eq_then (dayNumber_lt_of_month year) (dayNumber_lt_of_month year.symm)
  intro month
  rw [dayNumber, dayNumber, year, month]
  simp only [Nat.compare_eq_ite_lt, Nat.add_lt_add_iff_left]

theorem order_eq_iff {d e : Date} : d.order e = .eq ↔ d = e := by
  constructor
  · intro same
    rw [order, compare_dayNumber] at same
    simp only [Ordering.then_eq_eq, Nat.compare_eq_eq] at same
    obtain ⟨year, month, day⟩ := same
    cases d
    cases e
    cases year
    cases month
    cases day
    rfl
  · rintro rfl
    exact Nat.compare_eq_eq.mpr rfl

/-- The day after: the next one of the month, or else the first of the next month, or else the first
    day of the next year, if the calendar goes on. -/
def next? (d : Date) : Option Date :=
  (ofParts? d.year d.month (d.day + 1)).or
    ((ofParts? d.year (d.month + 1) 1).or (ofParts? (d.year + 1) 1 1))

/-- The number that a day has when the days of the calendar are counted. -/
inductive Counted : Nat → Date → Prop where
  | first : Counted 1 ⟨1, 1, 1, by decide⟩
  | next {n : Nat} {d e : Date} : Counted n d → d.next? = some e → Counted (n + 1) e

theorem ofParts?_eq_some_iff {year month day : Nat} {d : Date} :
    ofParts? year month day = some d ↔ d.year = year ∧ d.month = month ∧ d.day = day := by
  unfold ofParts?
  constructor
  · intro h
    split at h
    · cases h
      exact ⟨rfl, rfl, rfl⟩
    · cases h
  · rintro ⟨rfl, rfl, rfl⟩
    exact dif_pos d.exists_day

theorem ofParts?_eq_none {year month day : Nat} (h : daysInMonth year month < day) :
    ofParts? year month day = none :=
  dif_neg fun exists_day => absurd exists_day.2.2.2 (Nat.not_le_of_lt h)

/-- A month is over when the day after would be one too many. -/
theorem eq_daysInMonth {d : Date} (ended : ofParts? d.year d.month (d.day + 1) = none) :
    d.day = daysInMonth d.year d.month := by
  obtain ⟨some_year, last_year, _, within⟩ := d.exists_day
  apply Nat.le_antisymm within
  by_contra more
  rw [ofParts?, dif_pos ⟨some_year, last_year, by omega, by omega⟩] at ended
  cases ended

/-- A year is over when no month comes after. -/
theorem eq_twelve {d : Date} (ended : ofParts? d.year (d.month + 1) 1 = none) : d.month = 12 := by
  obtain ⟨some_year, last_year, _, _⟩ := d.exists_day
  apply Nat.le_antisymm (Calendar.month_le_of_day d.exists_day)
  by_contra more
  have days := daysInMonth_pos (Nat.le_add_left 1 d.month) (by omega) d.year
  rw [ofParts?, dif_pos ⟨some_year, last_year, Nat.le_refl 1, days⟩] at ended
  cases ended

/-- The numbers of days that follow each other do too. -/
theorem dayNumber_of_next? {d e : Date} (h : d.next? = some e) :
    e.dayNumber = d.dayNumber + 1 := by
  unfold next? at h
  rw [Option.or_eq_some_iff, Option.or_eq_some_iff] at h
  rcases h with same_month | ⟨month_over, same_year | ⟨year_over, next_year⟩⟩
  · obtain ⟨year, month, day⟩ := ofParts?_eq_some_iff.mp same_month
    rw [dayNumber, dayNumber, year, month, day]
    omega
  · obtain ⟨year, month, day⟩ := ofParts?_eq_some_iff.mp same_year
    rw [dayNumber, dayNumber, year, month, day, daysBeforeMonth_succ, eq_daysInMonth month_over]
    omega
  · obtain ⟨year, month, day⟩ := ofParts?_eq_some_iff.mp next_year
    have none_before : daysBeforeMonth (d.year + 1) 1 = 0 := rfl
    rw [dayNumber, dayNumber, year, month, day, none_before, daysBeforeYear_succ d.exists_day.1,
      daysBeforeMonth_succ, eq_daysInMonth month_over, eq_twelve year_over]
    omega

private theorem next?_of_day {d e : Date} (year : e.year = d.year) (month : e.month = d.month)
    (day : e.day = d.day + 1) : d.next? = some e := by
  rw [next?, ofParts?_eq_some_iff.mpr ⟨year, month, day⟩, Option.some_or]

private theorem next?_of_month {d e : Date} (ended : daysInMonth d.year d.month ≤ d.day)
    (year : e.year = d.year) (month : e.month = d.month + 1) (day : e.day = 1) :
    d.next? = some e := by
  rw [next?, ofParts?_eq_none (Nat.lt_succ_of_le ended), Option.none_or,
    ofParts?_eq_some_iff.mpr ⟨year, month, day⟩, Option.some_or]

private theorem next?_of_year {d e : Date} (ended : daysInMonth d.year d.month ≤ d.day)
    (last : d.month = 12) (year : e.year = d.year + 1) (month : e.month = 1) (day : e.day = 1) :
    d.next? = some e := by
  have no_more : daysInMonth d.year (d.month + 1) < 1 := by
    rw [last]
    exact Nat.one_pos
  rw [next?, ofParts?_eq_none (Nat.lt_succ_of_le ended), Option.none_or, ofParts?_eq_none no_more,
    Option.none_or, ofParts?_eq_some_iff.mpr ⟨year, month, day⟩]

/-- Every day but the first follows another. -/
theorem exists_previous (d : Date) :
    d = ⟨1, 1, 1, by decide⟩ ∨ ∃ e : Date, e.next? = some d := by
  obtain ⟨year, month, day, is_day⟩ := d
  have some_month : 1 ≤ month := one_le_month ⟨year, month, day, is_day⟩
  have last_month : month ≤ 12 := Calendar.month_le_of_day is_day
  obtain ⟨some_year, last_year, some_day, within⟩ := is_day
  rcases Nat.eq_or_lt_of_le some_day with rfl | later_day
  · rcases Nat.eq_or_lt_of_le some_month with rfl | later_month
    · rcases Nat.eq_or_lt_of_le some_year with rfl | later_year
      · exact .inl rfl
      · have december : IsCalendarDay (year - 1) 12 31 :=
          ⟨Nat.le_sub_one_of_lt later_year, by omega, by decide, Nat.le_refl 31⟩
        exact .inr ⟨⟨year - 1, 12, 31, december⟩,
          next?_of_year (Nat.le_refl 31) rfl (Nat.sub_add_cancel some_year).symm rfl rfl⟩
    · have days := daysInMonth_pos (Nat.le_sub_one_of_lt later_month) (by omega) year
      exact .inr ⟨⟨year, month - 1, daysInMonth year (month - 1), some_year, last_year, days,
        Nat.le_refl _⟩,
        next?_of_month (Nat.le_refl _) rfl (Nat.sub_add_cancel some_month).symm rfl⟩
  · exact .inr ⟨⟨year, month, day - 1, some_year, last_year, Nat.le_sub_one_of_lt later_day,
      Nat.le_trans (Nat.sub_le day 1) within⟩,
      next?_of_day rfl rfl (Nat.sub_add_cancel some_day).symm⟩

private theorem Counted.dayNumber_eq {n : Nat} {d : Date} (counted : Counted n d) :
    d.dayNumber = n := by
  induction counted with
  | first => rfl
  | next _ h ih => rw [dayNumber_of_next? h, ih]

/-- Counting the days reaches every one of them, with the number that is computed from its parts. -/
theorem counted_iff {n : Nat} {d : Date} : Counted n d ↔ n = d.dayNumber := by
  constructor
  · exact fun counted => counted.dayNumber_eq.symm
  · intro same
    induction n generalizing d with
    | zero =>
        have some_day := d.daysBeforeYear_lt_dayNumber
        omega
    | succ n ih =>
        rcases d.exists_previous with rfl | ⟨e, h⟩
        · cases (Nat.succ.inj same : n = 0)
          exact .first
        · rw [dayNumber_of_next? h] at same
          exact .next (ih (Nat.succ.inj same)) h

end Date

namespace WallClock

/-- The numbers that a clock shows, from the year down to the microsecond. -/
def parts (w : WallClock) : List Nat :=
  [w.date.year, w.date.month, w.date.day, w.hour, w.minute, w.second, w.microsecond]

/-- A clock counts the microseconds of its day after those of the days that are counted up to it. -/
def Counted (n : Nat) (w : WallClock) : Prop :=
  ∃ days, Date.Counted days w.date ∧
    n = 1000000 * (86400 * days + 3600 * w.hour + 60 * w.minute + w.second) + w.microsecond

theorem counted_iff {n : Nat} {w : WallClock} : Counted n w ↔ n = w.microseconds := by
  simp only [Counted, Date.counted_iff, exists_eq_left, microseconds, secondOfDay, Nat.add_assoc]

/-- What is left over of a unit counts less than one more of it. -/
theorem units_lt {unit a b x y : Nat} (hx : x < unit) (h : a < b) :
    unit * a + x < unit * b + y := by
  have whole := Nat.mul_le_mul_left unit (Nat.succ_le_of_lt h)
  rw [Nat.mul_succ] at whole
  omega

theorem compare_units {unit a b x y : Nat} (hx : x < unit) (hy : y < unit) :
    compare (unit * a + x) (unit * b + y) = (compare a b).then (compare x y) := by
  apply compare_eq_then (units_lt hx) (units_lt hy)
  rintro rfl
  simp only [Nat.compare_eq_ite_lt, Nat.add_lt_add_iff_left]

private theorem microseconds_eq (w : WallClock) : w.microseconds =
    1000000 * (60 * (60 * (24 * w.date.dayNumber + w.hour) + w.minute) + w.second) +
      w.microsecond := by
  rw [microseconds, secondOfDay]
  omega

/-- Clocks are ordered by what they show, the larger units before the smaller. -/
theorem compare_microseconds (v w : WallClock) :
    compare v.microseconds w.microseconds = compare v.parts w.parts := by
  obtain ⟨hour, minute, second, micro⟩ := v.in_day
  obtain ⟨hour', minute', second', micro'⟩ := w.in_day
  rw [microseconds_eq, microseconds_eq, compare_units micro micro', compare_units second second',
    compare_units minute minute', compare_units hour hour', Date.compare_dayNumber]
  simp only [parts, List.compare_cons_cons, List.compare_nil_nil, Ordering.then_assoc,
    Ordering.then_eq]

end WallClock

end RecordFilter
