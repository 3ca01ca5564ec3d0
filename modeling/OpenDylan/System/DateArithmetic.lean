import OpenDylan.Lib.Gregorian
import OpenDylan.System.Dates

/-!
# Date arithmetic

The days since 1900 are those of the Gregorian calendar, and carrying between
the fields of a date leaves the instant alone that it denotes.
-/

namespace OpenDylan.System.Dates

open Lib.Gregorian

/-! ## The calendar -/

theorem fmod_positive (value : Int) {size : Int} (positive : 0 < size) :
    value.fmod size = value % size :=
  Int.fmod_eq_emod_of_nonneg value (le_of_lt positive)

theorem fdiv_positive (value : Int) {size : Int} (positive : 0 < size) :
    value.fdiv size = value / size :=
  Int.fdiv_eq_ediv_of_nonneg value (le_of_lt positive)

theorem leapYear_iff (year : Int) : leapYear year = true ↔ IsLeap year := by
  unfold leapYear IsLeap
  rw [fmod_positive year (by decide), fmod_positive year (by decide),
    fmod_positive year (by decide), decide_eq_true_iff]

theorem daysInMonth_eq {year month : Int} (pos : 1 ≤ month)
    (le : month ≤ 12) : daysInMonth year month = monthLength year month := by
  unfold daysInMonth monthLength
  simp only [leapYear_iff]
  interval_cases month
  all_goals simp [monthDays]
  split
  · rfl
  · rfl

/-- The leap years up to a year are those before it, and it. -/
theorem leapYears_succ (year : Int) :
    year / 4 - year / 100 + year / 400 =
      (year - 1) / 4 - (year - 1) / 100 + (year - 1) / 400 +
        if IsLeap year then 1 else 0 := by
  by_cases leap : IsLeap year
  · rw [if_pos leap]
    unfold IsLeap at leap
    omega
  · rw [if_neg leap]
    unfold IsLeap at leap
    omega

/-- The days of the year up to the first of a month, and from then on. -/
theorem monthDays_sum {month : Int} (pos : 1 ≤ month) (le : month ≤ 12) :
    (monthDays.take month.toNat).sum =
        (367 * month - 362) / 12 + (if month ≤ 2 then 0 else -2) ∧
      (monthDays.take month.toNat).sum + monthDays.getD month.toNat 0 +
        (monthDays.drop (month.toNat + 1)).sum = 365 := by
  interval_cases month
  all_goals decide

/-- The days since 1900 are counted by the Gregorian calendar. -/
theorem daysSince1900_eq {year month day : Int} (pos : 1 ≤ month)
    (le : month ≤ 12) :
    daysSince1900 year month day =
      dayNumber year month day - dayNumber 1900 1 1 := by
  have epoch : dayNumber 1900 1 1 = 693596 := by decide
  have succ := leapYears_succ year
  obtain ⟨before, whole⟩ := monthDays_sum pos le
  rw [epoch]
  unfold daysSince1900 dayNumber daysInMonth
  simp only [leapYear_iff]
  generalize (monthDays.take month.toNat).sum = past at before whole ⊢
  generalize (monthDays.drop (month.toNat + 1)).sum = future at whole ⊢
  generalize monthDays.getD month.toNat 0 = length at whole ⊢
  generalize (367 * month - 362) / 12 = passed at before ⊢
  by_cases early : year < 1900
  · have quarter : (1899 - year).tdiv 4 = 474 - year / 4 := by
      rw [Int.tdiv_eq_ediv_of_nonneg (by omega)]
      omega
    have century : (1899 - year).tdiv 100 = 18 - year / 100 := by
      rw [Int.tdiv_eq_ediv_of_nonneg (by omega)]
      omega
    have fourth : (1899 + 100 - year).tdiv 400 = 4 - year / 400 := by
      rw [Int.tdiv_eq_ediv_of_nonneg (by omega)]
      omega
    rw [if_pos early, quarter, century, fourth]
    generalize year / 4 = quarters at succ ⊢
    generalize year / 100 = centuries at succ ⊢
    generalize year / 400 = fourths at succ ⊢
    generalize (year - 1) / 4 = pastQuarters at succ ⊢
    generalize (year - 1) / 100 = pastCenturies at succ ⊢
    generalize (year - 1) / 400 = pastFourths at succ ⊢
    by_cases leap : IsLeap year
    · simp only [leap, if_true, true_and] at succ ⊢
      split_ifs at before ⊢ <;> omega
    · simp only [leap, if_false, false_and] at succ ⊢
      split_ifs at before ⊢ <;> omega
  · rw [if_neg early]
    by_cases first : year = 1900
    · subst first
      have common : ¬IsLeap 1900 := by decide
      have quarter : (1900 - 1901 : Int).tdiv 4 = 0 := by decide
      have century : (1900 - 1901 : Int).tdiv 100 = 0 := by decide
      have fourth : (1900 - 1901 + 300 : Int).tdiv 400 = 0 := by decide
      rw [quarter, century, fourth]
      simp only [common, if_false, false_and]
      split_ifs at before ⊢ <;> omega
    · have quarter : (year - 1901).tdiv 4 = (year - 1) / 4 - 475 := by
        rw [Int.tdiv_eq_ediv_of_nonneg (by omega)]
        omega
      have century : (year - 1901).tdiv 100 = (year - 1) / 100 - 19 := by
        rw [Int.tdiv_eq_ediv_of_nonneg (by omega)]
        omega
      have fourth : (year - 1901 + 300).tdiv 400 = (year - 1) / 400 - 4 := by
        rw [Int.tdiv_eq_ediv_of_nonneg (by omega)]
        omega
      rw [quarter, century, fourth]
      clear succ
      generalize (year - 1) / 4 = pastQuarters
      generalize (year - 1) / 100 = pastCenturies
      generalize (year - 1) / 400 = pastFourths
      by_cases leap : IsLeap year
      · simp only [leap, if_true, true_and]
        split_ifs at before ⊢ <;> omega
      · simp only [leap, if_false, false_and]
        split_ifs at before ⊢ <;> omega

theorem daysSince1900_add {year month : Int} (pos : 1 ≤ month)
    (le : month ≤ 12) (day more : Int) :
    daysSince1900 year month (day + more) =
      daysSince1900 year month day + more := by
  rw [daysSince1900_eq pos le, daysSince1900_eq pos le, dayNumber_add]
  ring

/-- The days since 1900 are consecutive for consecutive days. -/
theorem daysSince1900_nextDay {year month day : Int}
    (date : IsDate year month day) :
    daysSince1900 (nextDay year month day).1 (nextDay year month day).2.1
        (nextDay year month day).2.2 =
      daysSince1900 year month day + 1 := by
  have next := dayNumber_nextDay date
  have isNext := date.nextDay
  rw [daysSince1900_eq isNext.month_pos isNext.month_le,
    daysSince1900_eq date.month_pos date.month_le, next]
  ring

/-! ## Instants -/

/-- The microseconds since 1900 by the local clock. -/
def Date.localInstant (date : Date) : Int :=
  ((daysSince1900 date.year date.month date.day * 24 + date.hours) * 60 +
    date.minutes) * 60000000 + date.seconds * 1000000 + date.microseconds

/-- The microseconds since 1900 in universal time. -/
def Date.instant (date : Date) : Int :=
  (date.universalTime.1 * 86400 + date.universalTime.2) * 1000000 +
    date.microseconds

/-- The universal time, if it is there, is the one that is computed. -/
def Date.Cached (date : Date) : Prop :=
  ∀ universal, date.universal = some universal →
    universal = computeUniversalTime date.year date.month date.day date.hours
      date.minutes date.seconds date.timeZoneOffset

/-- The fields of a date are canonical. -/
structure Date.Canonical (date : Date) : Prop where
  isDate : IsDate date.year date.month date.day
  hours : 0 ≤ date.hours ∧ date.hours < 24
  minutes : 0 ≤ date.minutes ∧ date.minutes < 60
  seconds : 0 ≤ date.seconds ∧ date.seconds < 60
  microseconds : 0 ≤ date.microseconds ∧ date.microseconds < 1000000

theorem Date.Cached.universalTime {date : Date} (cached : date.Cached) :
    date.universalTime = computeUniversalTime date.year date.month date.day
      date.hours date.minutes date.seconds date.timeZoneOffset := by
  unfold Date.universalTime
  cases isUniversal : date.universal with
  | none => rfl
  | some universal => exact cached universal isUniversal

/-- The seconds of the universal time are those of the local time less the
offset. -/
theorem computeUniversalTime_total (year month day hours minutes seconds
    timeZoneOffset : Int) :
    (computeUniversalTime year month day hours minutes seconds
        timeZoneOffset).1 * 86400 +
      (computeUniversalTime year month day hours minutes seconds
        timeZoneOffset).2 =
      ((daysSince1900 year month day * 24 + hours) * 60 + minutes -
        timeZoneOffset) * 60 + seconds := by
  unfold computeUniversalTime
  generalize daysSince1900 year month day = days
  simp only [fmod_positive _ (show (0 : Int) < 86400 by decide),
    fdiv_positive _ (show (0 : Int) < 86400 by decide)]
  split
  · omega
  · omega

/-- The universal time of the day lies within the day. -/
theorem computeUniversalTime_within (year month day hours minutes seconds
    timeZoneOffset : Int) :
    0 ≤ (computeUniversalTime year month day hours minutes seconds
        timeZoneOffset).2 ∧
      (computeUniversalTime year month day hours minutes seconds
        timeZoneOffset).2 < 86400 := by
  have positive : (0 : Int) < 86400 := by decide
  unfold computeUniversalTime
  simp only []
  split
  case isTrue within => omega
  case isFalse =>
      simp only [fmod_positive _ positive]
      exact ⟨Int.emod_nonneg _ (ne_of_gt positive),
        Int.emod_lt_of_pos _ positive⟩

/-- The universal time is the local time less the offset. -/
theorem Date.Cached.instant {date : Date} (cached : date.Cached) :
    date.instant =
      date.localInstant - date.timeZoneOffset * 60000000 := by
  rw [Date.instant, cached.universalTime, computeUniversalTime_total,
    Date.localInstant]
  ring

theorem Date.Cached.of_none {date : Date} (none : date.universal = none) :
    date.Cached := by
  intro universal isUniversal
  rw [none] at isUniversal
  cases isUniversal

/-- Canonical dates with one offset that denote one instant are equal in all
fields. -/
theorem Date.Canonical.unique {x y : Date} (first : x.Canonical)
    (second : y.Canonical) (same : x.localInstant = y.localInstant) :
    x.year = y.year ∧ x.month = y.month ∧ x.day = y.day ∧
      x.hours = y.hours ∧ x.minutes = y.minutes ∧ x.seconds = y.seconds ∧
      x.microseconds = y.microseconds := by
  unfold Date.localInstant at same
  have hours := first.hours
  have minutes := first.minutes
  have seconds := first.seconds
  have microseconds := first.microseconds
  have otherHours := second.hours
  have otherMinutes := second.minutes
  have otherSeconds := second.seconds
  have otherMicroseconds := second.microseconds
  have sameDays : daysSince1900 x.year x.month x.day =
      daysSince1900 y.year y.month y.day := by
    generalize daysSince1900 x.year x.month x.day = days at same ⊢
    generalize daysSince1900 y.year y.month y.day = otherDays at same ⊢
    omega
  have sameNumbers : dayNumber x.year x.month x.day =
      dayNumber y.year y.month y.day := by
    rw [daysSince1900_eq first.isDate.month_pos first.isDate.month_le,
      daysSince1900_eq second.isDate.month_pos second.isDate.month_le]
      at sameDays
    exact sub_left_injective sameDays
  obtain ⟨sameYear, sameMonth, sameDay⟩ :=
    first.isDate.unique second.isDate sameNumbers
  rw [sameDays] at same
  generalize daysSince1900 y.year y.month y.day = days at same
  refine ⟨sameYear, sameMonth, sameDay, ?_, ?_, ?_, ?_⟩
  · omega
  · omega
  · omega
  · omega

/-! ## Carrying -/

/-- Carrying changes no total, and leaves less than the size. -/
theorem carry_spec {size : Int} (positive : 0 < size) (value next : Int) :
    0 ≤ (carry size value next).1 ∧ (carry size value next).1 < size ∧
      (carry size value next).1 + size * (carry size value next).2 =
        value + size * next := by
  unfold carry
  split
  case isTrue within =>
      refine ⟨?_, within.2, rfl⟩
      omega
  case isFalse =>
      simp only [fmod_positive _ positive, fdiv_positive _ positive]
      refine ⟨Int.emod_nonneg value (ne_of_gt positive),
        Int.emod_lt_of_pos value positive, ?_⟩
      have whole := Int.emod_add_mul_ediv value size
      rw [mul_add]
      linarith

/-- A date differs from another only in its day, and that has a month of the
calendar. -/
structure Moved (before after : Date) : Prop where
  same : after =
    { before with year := after.year, month := after.month, day := after.day }
  month_pos : 1 ≤ after.month
  month_le : after.month ≤ 12

theorem Moved.trans {first second third : Date} (before : Moved first second)
    (after : Moved second third) : Moved first third := by
  constructor
  · rw [after.same, before.same]
  · exact after.month_pos
  · exact after.month_le

theorem Moved.nextMonth {date : Date} (pos : 1 ≤ date.month)
    (le : date.month ≤ 12) (day : Int) :
    Moved date { date.nextMonth with day := day } ∧
      dayNumber date.nextMonth.year date.nextMonth.month day =
        dayNumber date.year date.month
          (day + monthLength date.year date.month) := by
  unfold Date.nextMonth
  by_cases december : date.month = 12
  · rw [if_pos december, december]
    refine ⟨⟨rfl, ?_, ?_⟩, dayNumber_nextYear⟩
    · exact le_refl 1
    · exact of_decide_eq_true rfl
  · rw [if_neg december]
    refine ⟨⟨rfl, ?_, ?_⟩, ?_⟩
    · show 1 ≤ date.month + 1
      omega
    · show date.month + 1 ≤ 12
      omega
    · apply dayNumber_nextMonth pos
      omega

theorem Moved.previousMonth {date : Date} (pos : 1 ≤ date.month)
    (le : date.month ≤ 12) (day : Int) :
    Moved date { date.previousMonth with day := day } ∧
      dayNumber date.previousMonth.year date.previousMonth.month
          (day + monthLength date.previousMonth.year
            date.previousMonth.month) =
        dayNumber date.year date.month day := by
  unfold Date.previousMonth
  by_cases january : date.month = 1
  · rw [if_pos january, january]
    refine ⟨⟨rfl, ?_, ?_⟩, ?_⟩
    · exact of_decide_eq_true rfl
    · exact le_refl 12
    · have back := @dayNumber_nextYear (date.year - 1) day
      rw [sub_add_cancel] at back
      exact back.symm
  · rw [if_neg january]
    refine ⟨⟨rfl, ?_, ?_⟩, ?_⟩
    · show 1 ≤ date.month - 1
      omega
    · show date.month - 1 ≤ 12
      omega
    · have back := @dayNumber_nextMonth date.year (date.month - 1) day
        (by omega) (by omega)
      rw [sub_add_cancel] at back
      exact back.symm

/-- The loop over the months that follow ends in the month of the day, or
before it. -/
theorem advanceMonths_spec (fuel : Nat) (date : Date)
    (pos : 1 ≤ date.month) (le : date.month ≤ 12)
    (enough : date.day.toNat < fuel) :
    ∃ later, advanceMonths fuel date = some later ∧ Moved date later ∧
      later.day ≤ monthLength later.year later.month ∧
      dayNumber later.year later.month later.day =
        dayNumber date.year date.month date.day := by
  induction fuel generalizing date with
  | zero => exact absurd enough (Nat.not_lt_zero _)
  | succ fuel inductionHypothesis =>
      have long := monthLength_ge date.year date.month
      rw [advanceMonths, daysInMonth_eq pos le]
      by_cases past : monthLength date.year date.month < date.day
      · rw [if_pos past]
        obtain ⟨moved, number⟩ := Moved.nextMonth pos le
          (date.day - monthLength date.year date.month)
        obtain ⟨later, ran, after, inMonth, same⟩ := inductionHypothesis _
          moved.month_pos moved.month_le (by
            show (date.day - monthLength date.year date.month).toNat < fuel
            omega)
        refine ⟨later, ran, moved.trans after, inMonth, ?_⟩
        rw [same, number, sub_add_cancel]
      · rw [if_neg past]
        exact ⟨date, rfl, ⟨rfl, pos, le⟩, not_lt.mp past, rfl⟩

/-- The loop over the months before ends in the month of the day. -/
theorem retreatMonths_spec (fuel : Nat) (date : Date)
    (pos : 1 ≤ date.month) (le : date.month ≤ 12)
    (inMonth : date.day ≤ monthLength date.year date.month)
    (enough : (1 - date.day).toNat < fuel) :
    ∃ later, retreatMonths fuel date = some later ∧ Moved date later ∧
      IsDate later.year later.month later.day ∧
      dayNumber later.year later.month later.day =
        dayNumber date.year date.month date.day := by
  induction fuel generalizing date with
  | zero => exact absurd enough (Nat.not_lt_zero _)
  | succ fuel inductionHypothesis =>
      rw [retreatMonths]
      by_cases early : date.day < 1
      · rw [if_pos early]
        have sameDay : date.previousMonth.day = date.day := by
          unfold Date.previousMonth
          split <;> rfl
        have long := monthLength_ge date.previousMonth.year
          date.previousMonth.month
        generalize isDay : date.day + monthLength date.previousMonth.year
          date.previousMonth.month = day
        obtain ⟨moved, _⟩ := Moved.previousMonth pos le day
        have number := (Moved.previousMonth pos le date.day).2
        rw [isDay] at number
        have sameLength : daysInMonth date.previousMonth.year
            date.previousMonth.month =
            monthLength date.previousMonth.year date.previousMonth.month :=
          daysInMonth_eq moved.month_pos moved.month_le
        simp only [sameDay]
        rw [sameLength, isDay]
        obtain ⟨later, ran, after, isDate, same⟩ := inductionHypothesis _
          moved.month_pos moved.month_le (by
            show day ≤ monthLength date.previousMonth.year
              date.previousMonth.month
            omega) (by
            show (1 - day).toNat < fuel
            omega)
        exact ⟨later, ran, moved.trans after, isDate, same.trans number⟩
      · rw [if_neg early]
        exact ⟨date, rfl, ⟨rfl, pos, le⟩,
          ⟨pos, le, not_lt.mp early, inMonth⟩, rfl⟩

/-- A date has been made canonical: it denotes the same instant, and nothing
else of it has changed. -/
structure Canonicalized (before after : Date) : Prop where
  canonical : after.Canonical
  localInstant : after.localInstant = before.localInstant
  timeZoneOffset : after.timeZoneOffset = before.timeZoneOffset
  universal : after.universal = before.universal

/-- The fields below the day are made canonical by carrying. -/
theorem carryFields_spec (date : Date) :
    (carryFields date).month = date.month ∧
      (0 ≤ (carryFields date).hours ∧ (carryFields date).hours < 24) ∧
      (0 ≤ (carryFields date).minutes ∧ (carryFields date).minutes < 60) ∧
      (0 ≤ (carryFields date).seconds ∧ (carryFields date).seconds < 60) ∧
      (0 ≤ (carryFields date).microseconds ∧
        (carryFields date).microseconds < 1000000) := by
  unfold carryFields
  refine ⟨rfl, ?_, ?_, ?_, ?_⟩
  · exact ⟨(carry_spec (by decide) _ _).1, (carry_spec (by decide) _ _).2.1⟩
  · exact ⟨(carry_spec (by decide) _ _).1, (carry_spec (by decide) _ _).2.1⟩
  · exact ⟨(carry_spec (by decide) _ _).1, (carry_spec (by decide) _ _).2.1⟩
  · exact ⟨(carry_spec (by decide) _ _).1, (carry_spec (by decide) _ _).2.1⟩

/-- Carrying between the fields changes no instant. -/
theorem localInstant_carryFields (date : Date) (pos : 1 ≤ date.month)
    (le : date.month ≤ 12) :
    (carryFields date).localInstant = date.localInstant := by
  have days : ∀ day, daysSince1900 date.year date.month day =
      daysSince1900 date.year date.month 0 + day := by
    intro day
    rw [← daysSince1900_add pos le, zero_add]
  rw [Date.localInstant, Date.localInstant]
  have bySecond := (carry_spec (show (0 : Int) < 1000000 by decide)
    date.microseconds date.seconds).2.2
  unfold carryFields
  generalize carry 1000000 date.microseconds date.seconds = first at *
  have byMinute := (carry_spec (show (0 : Int) < 60 by decide) first.2
    date.minutes).2.2
  simp only []
  generalize carry 60 first.2 date.minutes = second at *
  have byHour := (carry_spec (show (0 : Int) < 60 by decide) second.2
    date.hours).2.2
  generalize carry 60 second.2 date.hours = third at *
  have byDay := (carry_spec (show (0 : Int) < 24 by decide) third.2
    date.day).2.2
  generalize carry 24 third.2 date.day = fourth at *
  rw [days date.day, days fourth.2]
  linarith

/-- Every date whose month is one of the calendar can be made canonical. -/
theorem canonicalizeDate_spec (date : Date) (pos : 1 ≤ date.month)
    (le : date.month ≤ 12) :
    ∃ later, canonicalizeDate date = some later ∧
      Canonicalized date later := by
  obtain ⟨sameMonth, hours, minutes, seconds, microseconds⟩ :=
    carryFields_spec date
  have carried := localInstant_carryFields date pos le
  rw [← sameMonth] at pos le
  obtain ⟨advanced, ran, forward, inMonth, same⟩ := advanceMonths_spec
    ((carryFields date).day.toNat + 1) (carryFields date) pos le
    (Nat.lt_succ_self _)
  obtain ⟨later, ranBack, backward, isDate, sameBack⟩ := retreatMonths_spec
    ((1 - advanced.day).toNat + 1) advanced forward.month_pos
    forward.month_le inMonth (Nat.lt_succ_self _)
  have moved := forward.trans backward
  refine ⟨later, ?_, ?_⟩
  · simp only [canonicalizeDate, Option.bind_eq_bind, ran, Option.bind_some,
      ranBack]
  · have sameDays : daysSince1900 later.year later.month later.day =
        daysSince1900 (carryFields date).year (carryFields date).month
          (carryFields date).day := by
      rw [daysSince1900_eq isDate.month_pos isDate.month_le,
        daysSince1900_eq pos le, sameBack, same]
    constructor
    · constructor
      · exact isDate
      · rw [moved.same]
        exact hours
      · rw [moved.same]
        exact minutes
      · rw [moved.same]
        exact seconds
      · rw [moved.same]
        exact microseconds
    · rw [← carried, Date.localInstant, sameDays, moved.same]
      rfl
    · rw [moved.same]
      rfl
    · rw [moved.same]
      rfl

/-! ## Valid dates -/

/-- A date that the constructor admits, with the universal time that it may
have cached. -/
structure Date.Valid (date : Date) : Prop where
  year : 1800 ≤ date.year ∧ date.year < 2200
  canonical : date.Canonical
  timeZoneOffset : -1440 ≤ date.timeZoneOffset ∧ date.timeZoneOffset ≤ 1440
  cached : date.Cached

theorem validate_inclusive {value : Int} (low high : Int)
    (name replacement : String) (large : low ≤ value) (small : value ≤ high) :
    validate value low high true name replacement = .ok () := by
  unfold validate
  rw [if_neg]
  rintro (below | above)
  · exact absurd below (not_lt.mpr large)
  · exact absurd above (not_lt.mpr small)

theorem validate_exclusive {value low high : Int}
    (name replacement : String) (large : low ≤ value) (small : value < high) :
    validate value low high false name replacement = .ok () := by
  unfold validate
  rw [if_neg]
  rintro (below | above)
  · exact absurd below (not_lt.mpr large)
  · exact absurd above (not_le.mpr small)

/-- The constructor takes the years from 1800 to 2199. -/
theorem makeDate_eq {date : Date} (canonical : date.Canonical)
    (offset : -1440 ≤ date.timeZoneOffset ∧ date.timeZoneOffset ≤ 1440) :
    makeDate date =
      if 1800 ≤ date.year ∧ date.year < 2200 then
        .ok { date with universal := none }
      else
        .error (.invalid "year" date.year 1800 2200 false
          "Use the current year") := by
  have isDate := canonical.isDate
  have dayLe := isDate.day_le
  rw [← daysInMonth_eq isDate.month_pos isDate.month_le] at dayLe
  have latest : date.timeZoneOffset ≤ 24 * 60 := by omega
  unfold makeDate
  by_cases admitted : 1800 ≤ date.year ∧ date.year < 2200
  · rw [if_pos admitted, validate_exclusive _ _ admitted.1 admitted.2,
      validate_inclusive _ _ _ _ isDate.month_pos isDate.month_le,
      validate_inclusive _ _ _ _ isDate.day_pos dayLe,
      validate_exclusive _ _ canonical.hours.1 canonical.hours.2,
      validate_exclusive _ _ canonical.minutes.1 canonical.minutes.2,
      validate_exclusive _ _ canonical.seconds.1 canonical.seconds.2,
      validate_exclusive _ _ canonical.microseconds.1
        canonical.microseconds.2,
      validate_inclusive (-24 * 60) (24 * 60) _ _ offset.1 latest]
    rfl
  · have refused : validate date.year 1800 2200 false "year"
        "Use the current year" = .error (.invalid "year" date.year 1800 2200
          false "Use the current year") := by
      unfold validate
      rw [if_pos]
      simp only [Bool.false_eq_true, if_false]
      omega
    rw [if_neg admitted, refused]
    rfl

/-- The microseconds of a day/time duration. -/
def Duration.total (duration : Duration) : Int :=
  (duration.days * 86400 + duration.seconds) * 1000000 +
    duration.microseconds

theorem carryDuration_total {size : Int} (positive : 0 < size)
    (value next : Int) :
    (carryDuration size value next).1 +
        size * (carryDuration size value next).2 =
      value + size * next := by
  unfold carryDuration
  split
  · rfl
  · have whole := Int.emod_add_mul_ediv value size
    simp only [fmod_positive _ positive, fdiv_positive _ positive]
    rw [mul_add]
    linarith

theorem alignSigns_total (size value next : Int) :
    (alignSigns size value next).1 + size * (alignSigns size value next).2 =
      value + size * next := by
  unfold alignSigns
  split
  · rfl
  · cases isNegative value with
    | true =>
        show value + size + size * (next + -1) = _
        ring
    | false =>
        show value + -size + size * (next + 1) = _
        ring

/-- Making a duration canonical changes no total. -/
theorem canonicalizeDuration_total (duration : Duration) :
    (canonicalizeDuration duration).total = duration.total := by
  have positive : (0 : Int) < 1000000 := by decide
  have dayPositive : (0 : Int) < 86400 := by decide
  unfold canonicalizeDuration Duration.total
  have bySecond := carryDuration_total positive duration.microseconds
    duration.seconds
  generalize carryDuration 1000000 duration.microseconds duration.seconds =
    first at *
  have byDay := carryDuration_total dayPositive first.2 duration.days
  simp only []
  generalize carryDuration 86400 first.2 duration.days = second at *
  have daySigns := alignSigns_total 86400 second.1 second.2
  generalize alignSigns 86400 second.1 second.2 = third at *
  have secondSigns := alignSigns_total 1000000 first.1 third.1
  generalize alignSigns 1000000 first.1 third.1 = fourth at *
  linarith

/-- The total of a duration is that of the fields it is made from. -/
theorem makeDayTimeDuration_total (days hours minutes seconds microseconds :
    Int) :
    (makeDayTimeDuration days hours minutes seconds microseconds).total =
      (days * 86400 + (seconds + 60 * (minutes + 60 * hours))) * 1000000 +
        microseconds :=
  canonicalizeDuration_total _

/-- The duration that leads back. -/
def Duration.negative (duration : Duration) : Duration where
  months := -duration.months
  days := -duration.days
  seconds := -duration.seconds
  microseconds := -duration.microseconds

theorem subtractDurationFromDate_eq (x : Date) (y : Duration) :
    subtractDurationFromDate x y = addDurationToDate x y.negative := by
  simp only [subtractDurationFromDate, addDurationToDate, Duration.negative,
    Int.sub_eq_add_neg]

theorem canonicalizeDateMonthYear_of_canonical {date : Date}
    (canonical : date.Canonical) :
    canonicalizeDateMonthYear date = .ok date := by
  have isDate := canonical.isDate
  have pos := isDate.month_pos
  have le := isDate.month_le
  unfold canonicalizeDateMonthYear
  have inYear : -1 < date.month - 1 ∧ date.month - 1 < 12 := by omega
  simp only [if_pos inYear]
  rw [if_pos]
  rw [daysInMonth_eq pos le]
  exact isDate.day_le

/-- A duration is added to a date that the constructor admits. -/
theorem addDurationToDate_spec {x : Date} {d : Duration}
    (year : 1800 ≤ x.year ∧ x.year < 2200) (canonical : x.Canonical)
    (offset : -1440 ≤ x.timeZoneOffset ∧ x.timeZoneOffset ≤ 1440)
    (dayTime : d.months = 0) :
    ∃ y, addDurationToDate x d = .ok y ∧ y.Canonical ∧
      y.localInstant = x.localInstant + d.total ∧
      y.timeZoneOffset = x.timeZoneOffset ∧ y.universal = none := by
  obtain ⟨y, ran, canonicalized⟩ := canonicalizeDate_spec
    { x with
      day := x.day + d.days
      seconds := x.seconds + d.seconds
      microseconds := x.microseconds + d.microseconds
      universal := none }
    canonical.isDate.month_pos canonical.isDate.month_le
  have isClone : ({ x with universal := none } : Date).Canonical :=
    ⟨canonical.isDate, canonical.hours, canonical.minutes, canonical.seconds,
      canonical.microseconds⟩
  refine ⟨y, ?_, canonicalized.canonical, ?_, canonicalized.timeZoneOffset,
    canonicalized.universal⟩
  · rw [addDurationToDate, makeDate_eq canonical offset, if_pos year]
    show (canonicalizeDateMonthYear
      { x with universal := none, month := x.month + d.months } >>= _) = _
    rw [dayTime, add_zero, canonicalizeDateMonthYear_of_canonical isClone]
    dsimp only [bind, Except.bind]
    rw [ran]
  · rw [canonicalized.localInstant, Date.localInstant, Date.localInstant,
      daysSince1900_add canonical.isDate.month_pos canonical.isDate.month_le,
      Duration.total]
    ring

/-- A date moves to another time zone without a change of its instant. -/
theorem setTimeZoneOffset_spec {date : Date} (canonical : date.Canonical)
    (cached : date.Cached) (newZone : Int) :
    ∃ later, setTimeZoneOffset newZone date = some later ∧
      later.Canonical ∧ later.Cached ∧ later.instant = date.instant ∧
      later.timeZoneOffset = newZone := by
  have isDate := canonical.isDate
  have positive : (0 : Int) < 60 := by decide
  obtain ⟨moved, ran, canonicalized⟩ := canonicalizeDate_spec
    { date with
      minutes := date.minutes + (newZone - date.timeZoneOffset).fmod 60
      hours := date.hours + (newZone - date.timeZoneOffset).fdiv 60 }
    isDate.month_pos isDate.month_le
  have change : (newZone - date.timeZoneOffset).fmod 60 +
      60 * (newZone - date.timeZoneOffset).fdiv 60 =
      newZone - date.timeZoneOffset := by
    rw [fmod_positive _ positive, fdiv_positive _ positive]
    exact Int.emod_add_mul_ediv _ 60
  have shifted : moved.localInstant = date.localInstant +
      (newZone - date.timeZoneOffset) * 60000000 := by
    rw [canonicalized.localInstant, Date.localInstant, Date.localInstant]
    simp only []
    linarith
  have microseconds := canonical.microseconds
  have movedMicroseconds := canonicalized.canonical.microseconds
  have sameMicroseconds : moved.microseconds = date.microseconds := by
    rw [Date.localInstant, Date.localInstant] at shifted
    omega
  have sameTime : computeUniversalTime moved.year moved.month moved.day
      moved.hours moved.minutes moved.seconds newZone =
      computeUniversalTime date.year date.month date.day date.hours
        date.minutes date.seconds date.timeZoneOffset := by
    have total := computeUniversalTime_total date.year date.month date.day
      date.hours date.minutes date.seconds date.timeZoneOffset
    have within := computeUniversalTime_within date.year date.month date.day
      date.hours date.minutes date.seconds date.timeZoneOffset
    have movedTotal := computeUniversalTime_total moved.year moved.month
      moved.day moved.hours moved.minutes moved.seconds newZone
    have movedWithin := computeUniversalTime_within moved.year moved.month
      moved.day moved.hours moved.minutes moved.seconds newZone
    rw [Date.localInstant, Date.localInstant] at shifted
    apply Prod.ext
    · omega
    · omega
  have sameUniversal : moved.universal = date.universal :=
    canonicalized.universal
  have movedCached :
      ({ moved with timeZoneOffset := newZone } : Date).Cached := by
    intro universal isUniversal
    rw [sameTime]
    apply cached universal
    rw [← sameUniversal]
    exact isUniversal
  refine ⟨{ moved with timeZoneOffset := newZone }, ?_, ?_, movedCached, ?_,
    rfl⟩
  · simp only [setTimeZoneOffset, Option.bind_eq_bind, ran, Option.bind_some]
    rfl
  · exact ⟨canonicalized.canonical.isDate, canonicalized.canonical.hours,
      canonicalized.canonical.minutes, canonicalized.canonical.seconds,
      canonicalized.canonical.microseconds⟩
  · rw [Date.instant, Date.instant, movedCached.universalTime,
      cached.universalTime, sameTime, sameMicroseconds]

/-! ## Dates and durations -/

/-- The last day of the years that the constructor admits. -/
def lastDay : Date := { year := 2199, month := 12, day := 31 }

theorem lastDay_valid : lastDay.Valid := by
  constructor
  · decide
  · constructor
    · constructor <;> decide
    all_goals decide
  · decide
  · exact Date.Cached.of_none rfl

end OpenDylan.System.Dates
