import OpenDylan.System.DateArithmetic

/-!
# Comparing dates and durations

Two dates are compared by the second of universal time that they fall in, and
two durations field by field.  The fields of a duration are given one sign
pairwise, the seconds with the days and the microseconds with the seconds.  So
whole days and microseconds may keep different signs, with no seconds between
them, and such a duration is not equal to the one with the same total whose
fields have one sign.
-/

namespace OpenDylan.System.Dates

/-! ## Operations on durations -/

/-- `=` on durations -/
def Duration.equals (x y : Duration) : Bool :=
  x.months = y.months ∧ x.days = y.days ∧ x.seconds = y.seconds ∧
    x.microseconds = y.microseconds

/-- `<` on day/time durations -/
def Duration.less (x y : Duration) : Bool :=
  x.days < y.days ∨
    (x.days = y.days ∧
      (x.seconds < y.seconds ∨
        (x.seconds = y.seconds ∧ x.microseconds < y.microseconds)))

/-- The fields of a day/time duration, as they are encoded and decoded. -/
structure DayTime where
  days : Int
  hours : Int
  minutes : Int
  seconds : Int
  microseconds : Int
deriving DecidableEq

/-- `encode-day/time-duration` -/
def encodeDayTimeDuration (fields : DayTime) : Duration :=
  makeDayTimeDuration fields.days fields.hours fields.minutes fields.seconds
    fields.microseconds

/-- `decode-duration` of a day/time duration. -/
def decodeDuration (duration : Duration) : DayTime :=
  let (minutes, seconds) :=
    (duration.seconds.tdiv 60, duration.seconds.tmod 60)
  let (hours, minutes) := (minutes.tdiv 60, minutes.tmod 60)
  { days := duration.days
    hours := hours
    minutes := minutes
    seconds := seconds
    microseconds := duration.microseconds }

/-- `clone-duration` of a day/time duration. -/
def cloneDuration (duration : Duration) : Duration :=
  makeDayTimeDuration duration.days 0 0 duration.seconds
    duration.microseconds

/-- `add-durations` -/
def addDurations (x y : Duration) : Duration :=
  let new := cloneDuration x
  canonicalizeDuration {
    months := new.months + y.months
    days := new.days + y.days
    seconds := new.seconds + y.seconds
    microseconds := new.microseconds + y.microseconds }

/-- `subtract-durations` -/
def subtractDurations (x y : Duration) : Duration :=
  let new := cloneDuration x
  canonicalizeDuration {
    months := new.months - y.months
    days := new.days - y.days
    seconds := new.seconds - y.seconds
    microseconds := new.microseconds - y.microseconds }

/-- `scale-duration` by an integer, for which `round` changes nothing. -/
def scaleDuration (x : Duration) (y : Int) : Duration :=
  let new := cloneDuration x
  canonicalizeDuration {
    months := y * new.months
    days := y * new.days
    seconds := y * new.seconds
    microseconds := y * new.microseconds }

/-! ## Operations on dates -/

/-- `<` on dates -/
def Date.less (x y : Date) : Bool :=
  x.universalTime.1 < y.universalTime.1 ∨
    (x.universalTime.1 = y.universalTime.1 ∧
      x.universalTime.2 < y.universalTime.2)

/-- `-` of two dates. -/
def subtractDates (x y : Date) : Duration :=
  makeDayTimeDuration (x.universalTime.1 - y.universalTime.1) 0 0
    (x.universalTime.2 - y.universalTime.2) (x.microseconds - y.microseconds)

/-! ## The fields of a duration -/

/-- The microseconds that the fields stand for. -/
def DayTime.total (fields : DayTime) : Int :=
  ((((fields.days * 24 + fields.hours) * 60 + fields.minutes) * 60 +
    fields.seconds) * 1000000) + fields.microseconds

/-- The seconds of a day/time duration that is being made. -/
def DayTime.allSeconds (fields : DayTime) : Int :=
  fields.seconds + 60 * (fields.minutes + 60 * fields.hours)

/-- The fields come to whole days with microseconds of the other sign. -/
def DayTime.Mixed (fields : DayTime) : Prop :=
  (-1000000 < fields.microseconds ∧ fields.microseconds < 0 ∧
    fields.allSeconds % 86400 = 0 ∧
    0 < fields.days * 86400 + fields.allSeconds) ∨
  ((0 < fields.microseconds ∨ fields.microseconds ≤ -1000000) ∧
    fields.microseconds % 1000000 ≠ 0 ∧
    (fields.allSeconds + fields.microseconds / 1000000) % 86400 = 0 ∧
    fields.days * 86400 + fields.allSeconds +
      fields.microseconds / 1000000 < 0)

/-- What canonical fields are like. -/
structure Aligned (duration : Duration) : Prop where
  seconds : -86400 < duration.seconds ∧ duration.seconds < 86400
  microseconds : -1000000 < duration.microseconds ∧
    duration.microseconds < 1000000
  secondsSign : (0 < duration.seconds → 0 ≤ duration.days) ∧
    (duration.seconds < 0 → duration.days ≤ 0)
  microsecondsSign : (0 < duration.microseconds → 0 ≤ duration.seconds) ∧
    (duration.microseconds < 0 → duration.seconds ≤ 0)

/-- Whole days and microseconds of different signs. -/
def Duration.Mixed (duration : Duration) : Prop :=
  duration.seconds = 0 ∧
    ((0 < duration.days ∧ duration.microseconds < 0) ∨
      (duration.days < 0 ∧ 0 < duration.microseconds))

theorem carryDuration_eq {size : Int} (positive : 0 < size)
    (value next : Int) :
    carryDuration size value next =
      if -size < value ∧ value < size then (value, next)
      else (value % size, next + value / size) := by
  rw [carryDuration, fmod_positive _ positive, fdiv_positive _ positive]

theorem alignSigns_eq (size value next : Int) :
    alignSigns size value next =
      if value < 0 ∧ 0 < next then (value + size, next - 1)
      else if 0 < value ∧ next < 0 then (value - size, next + 1)
      else (value, next) := by
  unfold alignSigns isNegative
  rcases lt_trichotomy value 0 with below | rfl | above
  · rcases lt_trichotomy next 0 with nextBelow | rfl | nextAbove
    · simp [below, nextBelow, not_lt_of_gt below, not_lt_of_gt nextBelow]
    · simp [not_lt_of_gt below]
    · simp [below, nextAbove, not_lt_of_gt nextAbove, below.ne,
        nextAbove.ne', sub_eq_add_neg]
  · simp
  · rcases lt_trichotomy next 0 with nextBelow | rfl | nextAbove
    · simp [above, nextBelow, not_lt_of_gt above, above.ne', nextBelow.ne,
        sub_eq_add_neg]
    · simp [not_lt_of_gt above]
    · simp [above, nextAbove, not_lt_of_gt above, not_lt_of_gt nextAbove]

/-- Fields of the right sizes get one sign pairwise. -/
theorem alignSigns_fields {days seconds microseconds : Int}
    (bySecond : -86400 < seconds ∧ seconds < 86400)
    (byMicrosecond : -1000000 < microseconds ∧ microseconds < 1000000) :
    let first := alignSigns 86400 seconds days
    let second := alignSigns 1000000 microseconds first.1
    let duration : Duration :=
      { days := first.2, seconds := second.2, microseconds := second.1 }
    Aligned duration ∧
      (duration.Mixed ↔ seconds = 0 ∧
        ((0 < days ∧ microseconds < 0) ∨ (days < 0 ∧ 0 < microseconds))) := by
  simp only [alignSigns_eq, Duration.Mixed]
  refine ⟨⟨?_, ?_, ?_, ?_⟩, ?_⟩
  · split_ifs <;> dsimp only <;> omega
  · split_ifs <;> dsimp only <;> omega
  · split_ifs <;> dsimp only <;> omega
  · split_ifs <;> dsimp only <;> omega
  · split_ifs <;> omega

/-- The fields of a new duration are aligned; when they are mixed. -/
theorem encodeDayTimeDuration_fields (fields : DayTime) :
    Aligned (encodeDayTimeDuration fields) ∧
      ((encodeDayTimeDuration fields).Mixed ↔ fields.Mixed) := by
  obtain ⟨days, hours, minutes, seconds, microseconds⟩ := fields
  unfold encodeDayTimeDuration makeDayTimeDuration canonicalizeDuration
    DayTime.Mixed DayTime.allSeconds
  generalize seconds + 60 * (minutes + 60 * hours) = allSeconds
  simp only [carryDuration_eq (show (0 : Int) < 1000000 by decide),
    carryDuration_eq (show (0 : Int) < 86400 by decide)]
  split_ifs with bySecond byDay byDay
  · have aligned := @alignSigns_fields days allSeconds microseconds byDay
      bySecond
    refine ⟨aligned.1, aligned.2.trans ?_⟩
    omega
  · have aligned := @alignSigns_fields (days + allSeconds / 86400)
      (allSeconds % 86400) microseconds (by omega) bySecond
    refine ⟨aligned.1, aligned.2.trans ?_⟩
    omega
  · have aligned := @alignSigns_fields days
      (allSeconds + microseconds / 1000000) (microseconds % 1000000) byDay
      (by omega)
    refine ⟨aligned.1, aligned.2.trans ?_⟩
    omega
  · have aligned := @alignSigns_fields
      (days + (allSeconds + microseconds / 1000000) / 86400)
      ((allSeconds + microseconds / 1000000) % 86400)
      (microseconds % 1000000) (by omega) (by omega)
    refine ⟨aligned.1, aligned.2.trans ?_⟩
    omega

/-- The total of a new duration is that of its fields. -/
theorem encodeDayTimeDuration_total (fields : DayTime) :
    (encodeDayTimeDuration fields).total = fields.total := by
  rw [encodeDayTimeDuration, makeDayTimeDuration_total, DayTime.total]
  ring

/-! ## The order of durations -/

theorem equals_iff {x y : Duration} (sameMonths : x.months = y.months) :
    x.equals y = true ↔ x.days = y.days ∧ x.seconds = y.seconds ∧
      x.microseconds = y.microseconds := by
  simp [Duration.equals, sameMonths]

theorem less_iff {x y : Duration} :
    x.less y = true ↔ x.days < y.days ∨
      (x.days = y.days ∧ (x.seconds < y.seconds ∨
        (x.seconds = y.seconds ∧ x.microseconds < y.microseconds))) := by
  simp [Duration.less]

/-- The comparisons of two durations are those of their totals. -/
def ComparesTotals (x y : Duration) : Prop :=
  (x.equals y = true ↔ x.total = y.total) ∧
    (x.less y = true ↔ x.total < y.total)

/-- A duration with mixed fields, and another one without in the same second,
that is not nearer to nothing. -/
def Clash (x y : Duration) : Prop :=
  x.Mixed ∧ ¬ y.Mixed ∧ (0 < x.total ↔ 0 < y.total) ∧
    x.total.natAbs ≤ y.total.natAbs ∧
    x.total.natAbs / 1000000 = y.total.natAbs / 1000000

/-- Among durations without mixed fields, and among those with them, a
duration with fewer days, or as many and fewer seconds, has the smaller
total. -/
theorem total_lt_of_less {x y : Duration} (first : Aligned x)
    (second : Aligned y) (mixed : x.Mixed ↔ y.Mixed)
    (less : x.less y = true) : x.total < y.total := by
  obtain ⟨xSeconds, xMicroseconds, xDays, xSigns⟩ := first
  obtain ⟨ySeconds, yMicroseconds, yDays, ySigns⟩ := second
  unfold Duration.Mixed at mixed
  unfold Duration.total
  rcases less_iff.mp less with days | ⟨days, seconds | ⟨seconds, rest⟩⟩
  · by_cases whole : x.seconds = 0
    · omega
    · omega
  · omega
  · omega

/-- Without mixed fields, aligned durations compare like their totals. -/
theorem comparesTotals_of_not_mixed {x y : Duration}
    (sameMonths : x.months = y.months) (first : Aligned x)
    (second : Aligned y) (mixed : x.Mixed ↔ y.Mixed) :
    ComparesTotals x y := by
  have before := total_lt_of_less first second mixed
  have after := total_lt_of_less second first mixed.symm
  rw [less_iff] at before after
  unfold ComparesTotals
  rw [equals_iff sameMonths, less_iff]
  by_cases same : x.days = y.days ∧ x.seconds = y.seconds ∧
      x.microseconds = y.microseconds
  · have totals : x.total = y.total := by
      rw [Duration.total, Duration.total, same.1, same.2.1, same.2.2]
    omega
  · generalize x.total = total at *
    generalize y.total = total' at *
    omega

/-- How a plain duration compares with whole days, less microseconds. -/
theorem less_mixed_iff {x y : Duration} (second : Aligned y)
    (noSeconds : x.seconds = 0) (later : 0 < x.days)
    (below : x.microseconds < 0) (plain : ¬ y.Mixed) :
    (x.less y = true ↔ x.days * 86400000000 ≤ y.total) ∧
      (y.less x = true ↔ y.total < x.days * 86400000000) := by
  obtain ⟨ySeconds, yMicroseconds, yDays, ySigns⟩ := second
  unfold Duration.Mixed at plain
  rw [less_iff, less_iff, noSeconds, Duration.total]
  constructor
  · omega
  · omega

/-- How a plain duration compares with whole days before, and microseconds. -/
theorem less_mixed_iff' {x y : Duration} (second : Aligned y)
    (noSeconds : x.seconds = 0) (earlier : x.days < 0)
    (above : 0 < x.microseconds) (plain : ¬ y.Mixed) :
    (x.less y = true ↔ x.days * 86400000000 < y.total) ∧
      (y.less x = true ↔ y.total ≤ x.days * 86400000000) := by
  obtain ⟨ySeconds, yMicroseconds, yDays, ySigns⟩ := second
  unfold Duration.Mixed at plain
  rw [less_iff, less_iff, noSeconds, Duration.total]
  constructor
  · omega
  · omega

/-- A mixed duration compares like its total with one that is not, exactly if
they do not clash. -/
theorem comparesTotals_of_mixed {x y : Duration}
    (sameMonths : x.months = y.months) (second : Aligned y)
    (bounds : -1000000 < x.microseconds ∧ x.microseconds < 1000000)
    (mixed : x.Mixed) (plain : ¬ y.Mixed) :
    (ComparesTotals x y ↔ ¬ Clash x y) ∧
      (ComparesTotals y x ↔ ¬ Clash x y) := by
  have different : ¬ (x.days = y.days ∧ x.seconds = y.seconds ∧
      x.microseconds = y.microseconds) := by
    rintro ⟨days, seconds, microseconds⟩
    refine plain ?_
    unfold Duration.Mixed at mixed ⊢
    rwa [← days, ← seconds, ← microseconds]
  have total : x.total = x.days * 86400000000 + x.microseconds := by
    rw [Duration.total, mixed.1]
    ring
  unfold ComparesTotals Clash
  rw [equals_iff sameMonths, equals_iff sameMonths.symm]
  simp only [mixed, plain, not_false_eq_true, true_and]
  obtain ⟨noSeconds, ⟨later, below⟩ | ⟨earlier, above⟩⟩ := mixed
  · have orders := less_mixed_iff second noSeconds later below plain
    rw [orders.1, orders.2]
    generalize y.total = other at *
    constructor
    · omega
    · omega
  · have orders := less_mixed_iff' second noSeconds earlier above plain
    rw [orders.1, orders.2]
    generalize y.total = other at *
    constructor
    · omega
    · omega

/-- The comparisons of aligned durations are those of the totals, exactly if
they do not clash. -/
theorem comparesTotals_iff {x y : Duration} (sameMonths : x.months = y.months)
    (first : Aligned x) (second : Aligned y) :
    ComparesTotals x y ↔ ¬ Clash x y ∧ ¬ Clash y x := by
  by_cases xMixed : x.Mixed
  · have noClash : ¬ Clash y x := fun clash => clash.2.1 xMixed
    by_cases yMixed : y.Mixed
    · have compares := comparesTotals_of_not_mixed sameMonths first second
        (iff_of_true xMixed yMixed)
      have noClash' : ¬ Clash x y := fun clash => clash.2.1 yMixed
      simp [compares, noClash, noClash']
    · rw [(comparesTotals_of_mixed sameMonths second first.microseconds xMixed
        yMixed).1]
      simp [noClash]
  · have noClash : ¬ Clash x y := fun clash => xMixed clash.1
    by_cases yMixed : y.Mixed
    · rw [(comparesTotals_of_mixed sameMonths.symm first second.microseconds
        yMixed xMixed).2]
      simp [noClash]
    · have compares := comparesTotals_of_not_mixed sameMonths first second
        (iff_of_false xMixed yMixed)
      have noClash' : ¬ Clash y x := fun clash => yMixed clash.1
      simp [compares, noClash, noClash']

/-- Every duration compares with the one of no length like its total. -/
theorem comparesTotals_zero {x : Duration} (noMonths : x.months = 0)
    (aligned : Aligned x) : ComparesTotals x {} := by
  have zero : Aligned {} := by constructor <;> decide
  refine (comparesTotals_iff noMonths aligned zero).mpr ⟨?_, ?_⟩
  · rintro ⟨⟨noSeconds, signs⟩, -, -, near, -⟩
    have small : x.total = 0 := by
      rw [show Duration.total {} = 0 from rfl] at near
      omega
    rw [Duration.total, noSeconds] at small
    have bounds := aligned.microseconds
    omega
  · rintro ⟨⟨-, ⟨later, -⟩ | ⟨earlier, -⟩⟩, -⟩
    · exact absurd later (by decide)
    · exact absurd earlier (by decide)

/-! ## Durations and their totals -/

/-- Fields that come to a mixed duration, and others that do not, with a total
in the same second that is not nearer to nothing. -/
def DayTime.Clash (fields others : DayTime) : Prop :=
  fields.Mixed ∧ ¬ others.Mixed ∧ (0 < fields.total ↔ 0 < others.total) ∧
    fields.total.natAbs ≤ others.total.natAbs ∧
    fields.total.natAbs / 1000000 = others.total.natAbs / 1000000

theorem clash_encode_iff (fields others : DayTime) :
    Dates.Clash (encodeDayTimeDuration fields)
      (encodeDayTimeDuration others) ↔ fields.Clash others := by
  unfold Dates.Clash DayTime.Clash
  rw [(encodeDayTimeDuration_fields fields).2,
    (encodeDayTimeDuration_fields others).2, encodeDayTimeDuration_total,
    encodeDayTimeDuration_total]

/-- What is decoded has the total of the duration. -/
theorem decodeDuration_total (duration : Duration) :
    (decodeDuration duration).total = duration.total := by
  have minutes := Int.mul_tdiv_add_tmod duration.seconds 60
  have hours := Int.mul_tdiv_add_tmod (duration.seconds.tdiv 60) 60
  unfold decodeDuration DayTime.total Duration.total
  dsimp only
  omega

theorem cloneDuration_total (duration : Duration) :
    (cloneDuration duration).total = duration.total := by
  rw [cloneDuration, makeDayTimeDuration_total, Duration.total]
  ring

theorem addDurations_total (x y : Duration) :
    (addDurations x y).total = x.total + y.total := by
  rw [addDurations, canonicalizeDuration_total, ← cloneDuration_total x]
  unfold Duration.total
  ring

theorem subtractDurations_total (x y : Duration) :
    (subtractDurations x y).total = x.total - y.total := by
  rw [subtractDurations, canonicalizeDuration_total, ← cloneDuration_total x]
  unfold Duration.total
  ring

theorem scaleDuration_total (x : Duration) (factor : Int) :
    (scaleDuration x factor).total = factor * x.total := by
  rw [scaleDuration, canonicalizeDuration_total, ← cloneDuration_total x]
  unfold Duration.total
  ring

/-- A date without its microseconds. -/
def Date.wholeSecond (date : Date) : Date := { date with microseconds := 0 }

/-- Subtracting dates gives the time between their instants. -/
theorem subtractDates_total (x y : Date) :
    (subtractDates x y).total = x.instant - y.instant := by
  rw [subtractDates, makeDayTimeDuration_total, Date.instant, Date.instant]
  ring

/-- The difference of two dates compares with nothing like the instants. -/
theorem subtractDates_compares (x y : Date) :
    ((subtractDates x y).equals {} = true ↔ x.instant = y.instant) ∧
      ((subtractDates x y).less {} = true ↔ x.instant < y.instant) := by
  have aligned := (encodeDayTimeDuration_fields
    ⟨x.universalTime.1 - y.universalTime.1, 0, 0,
      x.universalTime.2 - y.universalTime.2,
      x.microseconds - y.microseconds⟩).1
  have compares := @comparesTotals_zero (subtractDates x y) rfl aligned
  rw [ComparesTotals, subtractDates_total,
    show Duration.total {} = 0 from rfl] at compares
  rw [compares.1, compares.2]
  omega

/-- The seconds since 1900 in universal time. -/
def Date.universalSecond (date : Date) : Int :=
  date.universalTime.1 * 86400 + date.universalTime.2

theorem wholeSecond_instant (date : Date) :
    date.wholeSecond.instant = date.universalSecond * 1000000 := by
  rw [Date.instant, Date.universalSecond]
  exact Int.add_zero _

theorem Date.Cached.within {date : Date} (cached : date.Cached) :
    0 ≤ date.universalTime.2 ∧ date.universalTime.2 < 86400 := by
  rw [cached.universalTime]
  exact computeUniversalTime_within _ _ _ _ _ _ _

/-- Dates compare like the seconds of universal time that they fall in. -/
theorem Date.compares {x y : Date} (first : x.Cached) (second : y.Cached) :
    (x.equals y = true ↔ x.universalSecond = y.universalSecond) ∧
      (x.less y = true ↔ x.universalSecond < y.universalSecond) := by
  have xWithin := first.within
  have yWithin := second.within
  simp only [Date.equals, Date.less, Date.universalSecond, decide_eq_true_eq]
  omega

/-- One of two dates is earlier or they are equal.  This agrees with their
difference, if the microseconds are ignored; if they are not, dates whose
difference is nothing are equal, and a date that is less than another one has
a negative difference from it. -/
theorem dates_ordered (x y : Date) (xValid : x.Valid) (yValid : y.Valid) :
    ((x.less y = true ∧ x.equals y = false ∧ y.less x = false) ∨
      (x.less y = false ∧ x.equals y = true ∧ y.less x = false) ∨
      (x.less y = false ∧ x.equals y = false ∧ y.less x = true)) ∧
    (x.equals y = true ↔
      (subtractDates x.wholeSecond y.wholeSecond).equals {} = true) ∧
    (x.less y = true ↔
      (subtractDates x.wholeSecond y.wholeSecond).less {} = true) ∧
    ((subtractDates x y).equals {} = true → x.equals y = true) ∧
    (x.less y = true → (subtractDates x y).less {} = true) := by
  have forward := Date.compares xValid.cached yValid.cached
  have backward := Date.compares yValid.cached xValid.cached
  have whole := subtractDates_compares x.wholeSecond y.wholeSecond
  have difference := subtractDates_compares x y
  rw [wholeSecond_instant, wholeSecond_instant] at whole
  have xMicroseconds := xValid.canonical.microseconds
  have yMicroseconds := yValid.canonical.microseconds
  have xInstant : x.instant =
      x.universalSecond * 1000000 + x.microseconds := rfl
  have yInstant : y.instant =
      y.universalSecond * 1000000 + y.microseconds := rfl
  simp only [← Bool.not_eq_true]
  rw [whole.1, whole.2, difference.1, difference.2, forward.1, forward.2,
    backward.2, xInstant, yInstant]
  omega

/-- The last day of the years that the constructor admits, in another time
zone and a microsecond later. -/
def lastDayLater : Date :=
  { lastDay with hours := 1, microseconds := 1, timeZoneOffset := 60 }

theorem lastDayLater_valid : lastDayLater.Valid := by
  constructor
  · decide
  · constructor
    · constructor <;> decide
    all_goals decide
  · decide
  · exact Date.Cached.of_none rfl

theorem dates_ordered_lastDay :
    (lastDay.equals lastDayLater = true ↔
      (subtractDates lastDay.wholeSecond lastDayLater.wholeSecond).equals {} =
        true) ∧
    (lastDay.less lastDayLater = true →
      (subtractDates lastDay lastDayLater).less {} = true) :=
  have ordered := dates_ordered lastDay lastDayLater lastDay_valid
    lastDayLater_valid
  ⟨ordered.2.1, ordered.2.2.2.2⟩

/-- Two valid dates in one second are equal, though their difference is
negative. -/
theorem dates_ignore_microseconds :
    lastDay.Valid ∧ lastDayLater.Valid ∧
      lastDay.equals lastDayLater = true ∧
      lastDay.less lastDayLater = false ∧
      (subtractDates lastDay lastDayLater).equals {} = false ∧
      (subtractDates lastDay lastDayLater).less {} = true :=
  ⟨lastDay_valid, lastDayLater_valid, by decide, by decide, by decide,
    by decide⟩

end OpenDylan.System.Dates
