import Mathlib

/-!
# The Gregorian calendar

The days of the proleptic Gregorian calendar are numbered.  The months are
numbered as well: what follows the last day of a month is the first of the
month with the next number, and a day has only one month and day of the month.
-/

namespace OpenDylan.Lib.Gregorian

/-- A year with a leap day. -/
def IsLeap (year : Int) : Prop :=
  year % 4 = 0 ∧ (year % 100 ≠ 0 ∨ year % 400 = 0)

instance (year : Int) : Decidable (IsLeap year) :=
  inferInstanceAs (Decidable (_ ∧ _))

/-- The number of days of a month. -/
def monthLength (year month : Int) : Int :=
  if month = 2 then if IsLeap year then 29 else 28
  else if month = 4 ∨ month = 6 ∨ month = 9 ∨ month = 11 then 30
  else 31

/-- The number of a day; that of the first of January of year 1 is 1.  The day
of the month may be any integer. -/
def dayNumber (year month day : Int) : Int :=
  365 * (year - 1) + (year - 1) / 4 - (year - 1) / 100 + (year - 1) / 400 +
    (367 * month - 362) / 12 +
    (if month ≤ 2 then 0 else if IsLeap year then -1 else -2) + day

/-- The day and the month are ones of the calendar. -/
structure IsDate (year month day : Int) : Prop where
  month_pos : 1 ≤ month
  month_le : month ≤ 12
  day_pos : 1 ≤ day
  day_le : day ≤ monthLength year month

/-- The day that comes after a day. -/
def nextDay (year month day : Int) : Int × Int × Int :=
  if day < monthLength year month then (year, month, day + 1)
  else if month < 12 then (year, month + 1, 1)
  else (year + 1, 1, 1)

section Days

variable {year month day : Int}

theorem dayNumber_add (year month day more : Int) :
    dayNumber year month (day + more) = dayNumber year month day + more := by
  unfold dayNumber
  exact (add_assoc _ _ _).symm

theorem monthLength_le (year month : Int) : monthLength year month ≤ 31 := by
  unfold monthLength
  split_ifs <;> omega

theorem monthLength_ge (year month : Int) : 28 ≤ monthLength year month := by
  unfold monthLength
  split_ifs <;> omega

/-- The days go on from one month to the next. -/
theorem dayNumber_nextMonth (pos : 1 ≤ month) (below : month < 12) :
    dayNumber year (month + 1) day =
      dayNumber year month (day + monthLength year month) := by
  unfold dayNumber monthLength
  interval_cases month
  all_goals
    by_cases leap : IsLeap year
    · simp [leap]
      try omega
    · simp [leap]
      try omega

/-- The days go on from one year to the next. -/
theorem dayNumber_nextYear :
    dayNumber (year + 1) 1 day =
      dayNumber year 12 (day + monthLength year 12) := by
  unfold dayNumber monthLength
  by_cases leap : IsLeap year
  · have parts := leap
    unfold IsLeap at parts
    simp [leap]
    omega
  · have parts := leap
    unfold IsLeap at parts
    simp [leap]
    omega

theorem IsDate.nextDay (date : IsDate year month day) :
    IsDate (nextDay year month day).1 (nextDay year month day).2.1
      (nextDay year month day).2.2 := by
  unfold Gregorian.nextDay
  split_ifs with within sameYear
  · constructor
    · exact date.month_pos
    · exact date.month_le
    · exact le_trans date.day_pos (le_of_lt (lt_add_one day))
    · exact Int.add_one_le_of_lt within
  · constructor
    · exact le_trans date.month_pos (le_of_lt (lt_add_one month))
    · exact Int.add_one_le_of_lt sameYear
    · exact le_refl 1
    · show 1 ≤ monthLength year (month + 1)
      have long := monthLength_ge year (month + 1)
      omega
  · constructor
    · exact le_refl 1
    · show (1 : Int) ≤ 12
      decide
    · exact le_refl 1
    · show 1 ≤ monthLength (year + 1) 1
      have long := monthLength_ge (year + 1) 1
      omega

/-- Days that follow each other have consecutive numbers. -/
theorem dayNumber_nextDay (date : IsDate year month day) :
    dayNumber (nextDay year month day).1 (nextDay year month day).2.1
        (nextDay year month day).2.2 =
      dayNumber year month day + 1 := by
  have le := date.day_le
  rw [← dayNumber_add]
  unfold nextDay
  by_cases within : day < monthLength year month
  · rw [if_pos within]
  · have last : day = monthLength year month := by omega
    rw [if_neg within, last, add_comm (monthLength year month)]
    by_cases sameYear : month < 12
    · rw [if_pos sameYear]
      exact dayNumber_nextMonth date.month_pos sameYear
    · have december : month = 12 :=
        le_antisymm date.month_le (not_lt.mp sameYear)
      rw [if_neg sameYear, december]
      exact dayNumber_nextYear

end Days

/-! ## Months -/

/-- The day before the first of a month, where the months of all years are
numbered. -/
def monthStart (index : Int) : Int :=
  dayNumber (index / 12) (index % 12 + 1) 0

/-- The number of days of a month. -/
def indexedLength (index : Int) : Int :=
  monthLength (index / 12) (index % 12 + 1)

theorem monthStart_succ (index : Int) :
    monthStart (index + 1) = monthStart index + indexedLength index := by
  unfold monthStart indexedLength
  rw [← dayNumber_add]
  by_cases last : index % 12 = 11
  · have nextYear : (index + 1) / 12 = index / 12 + 1 := by omega
    have january : (index + 1) % 12 = 0 := by omega
    rw [nextYear, january, last]
    exact dayNumber_nextYear
  · have sameYear : (index + 1) / 12 = index / 12 := by omega
    have nextMonth : (index + 1) % 12 = index % 12 + 1 := by omega
    rw [sameYear, nextMonth]
    apply dayNumber_nextMonth
    · omega
    · omega

theorem monthStart_strictMono : StrictMono monthStart := by
  apply strictMono_int_of_lt_succ
  intro index
  have long := monthLength_ge (index / 12) (index % 12 + 1)
  rw [monthStart_succ, indexedLength]
  omega

/-- The number of a month. -/
def monthIndex (year month : Int) : Int := 12 * year + (month - 1)

section Dates

variable {year month day otherYear otherMonth otherDay : Int}

theorem dayNumber_eq (pos : 1 ≤ month) (le : month ≤ 12) :
    dayNumber year month day = monthStart (monthIndex year month) + day := by
  have isYear : monthIndex year month / 12 = year := by
    unfold monthIndex
    omega
  have isMonth : monthIndex year month % 12 + 1 = month := by
    unfold monthIndex
    omega
  rw [monthStart, isYear, isMonth, ← dayNumber_add, zero_add]

/-- A day lies in its month. -/
theorem IsDate.between (date : IsDate year month day) :
    monthStart (monthIndex year month) < dayNumber year month day ∧
      dayNumber year month day ≤
        monthStart (monthIndex year month + 1) := by
  have isYear : monthIndex year month / 12 = year := by
    have pos := date.month_pos
    have le := date.month_le
    unfold monthIndex
    omega
  have isMonth : monthIndex year month % 12 + 1 = month := by
    have pos := date.month_pos
    have le := date.month_le
    unfold monthIndex
    omega
  rw [monthStart_succ, indexedLength, isYear, isMonth,
    dayNumber_eq date.month_pos date.month_le]
  have pos := date.day_pos
  have le := date.day_le
  constructor <;> omega

/-- A day has one number, and a number one day. -/
theorem IsDate.unique (date : IsDate year month day)
    (other : IsDate otherYear otherMonth otherDay)
    (same : dayNumber year month day =
      dayNumber otherYear otherMonth otherDay) :
    year = otherYear ∧ month = otherMonth ∧ day = otherDay := by
  have between := date.between
  have otherBetween := other.between
  have sameIndex : monthIndex year month =
      monthIndex otherYear otherMonth := by
    apply le_antisymm
    · by_contra later
      have order := monthStart_strictMono.monotone
        (Int.add_one_le_iff.mpr (not_le.mp later))
      omega
    · by_contra later
      have order := monthStart_strictMono.monotone
        (Int.add_one_le_iff.mpr (not_le.mp later))
      omega
  have sameDay : day = otherDay := by
    rw [dayNumber_eq date.month_pos date.month_le,
      dayNumber_eq other.month_pos other.month_le, sameIndex] at same
    exact add_left_cancel same
  have pos := date.month_pos
  have le := date.month_le
  have otherPos := other.month_pos
  have otherLe := other.month_le
  unfold monthIndex at sameIndex
  refine ⟨?_, ?_, sameDay⟩
  · omega
  · omega

end Dates

end OpenDylan.Lib.Gregorian
