import Mathlib

/-!
# Dates

A date is a calendar day and a time of the day in a time zone, which is given
by its offset from universal time in minutes.  Durations are added field by
field, and the fields are then made canonical by carrying what is too much.
-/

namespace OpenDylan.System.Dates

/-- `<date>`; `universal` stands for the slots `%universal-date` and
`%universal-time`, which are filled together. -/
structure Date where
  year : Int
  month : Int
  day : Int
  hours : Int := 0
  minutes : Int := 0
  seconds : Int := 0
  microseconds : Int := 0
  timeZoneOffset : Int := 0
  universal : Option (Int × Int) := none
deriving DecidableEq

/-- What stops an operation; `unfinished` stands for a loop that does not
end. -/
inductive Stop where
  | invalid (name : String) (value low high : Int) (inclusive : Bool)
      (replacement : String)
  | invalidDay (year month day : Int)
  | unfinished
deriving DecidableEq

/-! ## Months and days -/

/-- `$month-days` -/
def monthDays : List Int :=
  [0, 31, 28, 31, 30, 31, 30, 31, 31, 30, 31, 30, 31, 0]

/-- `leap-year?` -/
def leapYear (year : Int) : Bool :=
  year.fmod 4 = 0 ∧ (year.fmod 100 ≠ 0 ∨ year.fmod 400 = 0)

/-- `days-in-month` -/
def daysInMonth (year month : Int) : Int :=
  monthDays.getD month.toNat 0 +
    if leapYear year ∧ month = 2 then 1 else 0

/-- `days-since-1900` -/
def daysSince1900 (year month day : Int) : Int :=
  if year < 1900 then
    (day - 1 - daysInMonth year month -
      (if leapYear year ∧ month < 2 then 1 else 0) -
      (monthDays.drop (month.toNat + 1)).sum - 365 * (1899 - year)) -
      (1899 - year).tdiv 4 + (1899 - year).tdiv 100 -
      (1899 + 100 - year).tdiv 400
  else
    day + (if leapYear year ∧ 2 < month then 0 else -1) +
      (monthDays.take month.toNat).sum + 365 * (year - 1900) +
      (year - 1901).tdiv 4 - (year - 1901).tdiv 100 +
      (year - 1901 + 300).tdiv 400

/-! ## Making dates -/

/-- `validate` -/
def validate (value low high : Int) (inclusive : Bool)
    (name replacement : String) : Except Stop Unit :=
  if value < low ∨ (if inclusive then high < value else high ≤ value) then
    .error (.invalid name value low high inclusive replacement)
  else
    .ok ()

/-- `make(<date>, …)`, with the fields of a date for the init keywords. -/
def makeDate (date : Date) : Except Stop Date := do
  validate date.year 1800 2200 false "year" "Use the current year"
  validate date.month 1 12 true "month" "Use the current month"
  validate date.day 1 (daysInMonth date.year date.month) true
    "day of the month" "Use day 1 (one)"
  validate date.hours 0 24 false "hour of the day" "Use midnight"
  validate date.minutes 0 60 false "minutes" "Use zero"
  validate date.seconds 0 60 false "seconds" "Use zero"
  validate date.microseconds 0 1000000 false "microseconds" "Use zero"
  validate date.timeZoneOffset (-24 * 60) (24 * 60) true "time zone offset"
    "Use the local time zone offset"
  pure { date with universal := none }

/-! ## Universal time -/

/-- `compute-universal-time` -/
def computeUniversalTime (year month day hours minutes seconds
    timeZoneOffset : Int) : Int × Int :=
  let ut := seconds + 60 * (minutes + 60 * hours)
  let ud := daysSince1900 year month day
  let tzs := 60 * timeZoneOffset
  let ut := ut - tzs.fmod 86400
  let ud := ud - tzs.fdiv 86400
  if -1 < ut ∧ ut < 86400 then (ud, ut)
  else (ud + ut.fdiv 86400, ut.fmod 86400)

/-- `date-universal-date` and `date-universal-time` -/
def Date.universalTime (date : Date) : Int × Int :=
  date.universal.getD (computeUniversalTime date.year date.month date.day
    date.hours date.minutes date.seconds date.timeZoneOffset)

/-- `=` on dates -/
def Date.equals (x y : Date) : Bool :=
  x.universalTime.1 = y.universalTime.1 ∧
    x.universalTime.2 = y.universalTime.2

/-! ## Canonical dates -/

/-- The step of `canonicalize-date` that carries from one field to the
next. -/
def carry (size value next : Int) : Int × Int :=
  if -1 < value ∧ value < size then (value, next)
  else (value.fmod size, next + value.fdiv size)

/-- The month that follows that of a date. -/
def Date.nextMonth (date : Date) : Date :=
  if date.month = 12 then { date with year := date.year + 1, month := 1 }
  else { date with month := date.month + 1 }

/-- The month before that of a date. -/
def Date.previousMonth (date : Date) : Date :=
  if date.month = 1 then { date with year := date.year - 1, month := 12 }
  else { date with month := date.month - 1 }

/-- The first loop of `canonicalize-date`. -/
def advanceMonths : Nat → Date → Option Date
  | 0, _ => none
  | fuel + 1, date =>
      if daysInMonth date.year date.month < date.day then
        advanceMonths fuel { date.nextMonth with
          day := date.day - daysInMonth date.year date.month }
      else
        some date

/-- The second loop of `canonicalize-date`. -/
def retreatMonths : Nat → Date → Option Date
  | 0, _ => none
  | fuel + 1, date =>
      if date.day < 1 then
        let date := date.previousMonth
        retreatMonths fuel
          { date with day := date.day + daysInMonth date.year date.month }
      else
        some date

/-- The first part of `canonicalize-date`. -/
def carryFields (date : Date) : Date :=
  let (microseconds, seconds) :=
    carry 1000000 date.microseconds date.seconds
  let (seconds, minutes) := carry 60 seconds date.minutes
  let (minutes, hours) := carry 60 minutes date.hours
  let (hours, day) := carry 24 hours date.day
  { date with
    microseconds := microseconds
    seconds := seconds
    minutes := minutes
    hours := hours
    day := day }

/-- `canonicalize-date` -/
def canonicalizeDate (date : Date) : Option Date := do
  let date := carryFields date
  let date ← advanceMonths (date.day.toNat + 1) date
  retreatMonths ((1 - date.day).toNat + 1) date

/-- `date-time-zone-offset-setter` -/
def setTimeZoneOffset (newZone : Int) (date : Date) : Option Date := do
  let zoneChange := newZone - date.timeZoneOffset
  let date ← canonicalizeDate { date with
    minutes := date.minutes + zoneChange.fmod 60
    hours := date.hours + zoneChange.fdiv 60 }
  pure { date with timeZoneOffset := newZone }

/-! ## Durations -/

/-- `<duration>`; a day/time duration has no months. -/
structure Duration where
  months : Int := 0
  days : Int := 0
  seconds : Int := 0
  microseconds : Int := 0
deriving DecidableEq

/-- `negative?` -/
def isNegative (value : Int) : Bool := value < 0

/-- The step of `canonicalize-duration` that gives two fields one sign. -/
def alignSigns (size value next : Int) : Int × Int :=
  if isNegative value = isNegative next ∨ value = 0 ∨ next = 0 then
    (value, next)
  else
    (value + (if isNegative value then size else -size),
      next + (if isNegative value then -1 else 1))

/-- The step of `canonicalize-duration` that carries from one field to the
next. -/
def carryDuration (size value next : Int) : Int × Int :=
  if -size < value ∧ value < size then (value, next)
  else (value.fmod size, next + value.fdiv size)

/-- `canonicalize-duration` -/
def canonicalizeDuration (duration : Duration) : Duration :=
  let (microseconds, seconds) :=
    carryDuration 1000000 duration.microseconds duration.seconds
  let (seconds, days) := carryDuration 86400 seconds duration.days
  let (seconds, days) := alignSigns 86400 seconds days
  let (microseconds, seconds) := alignSigns 1000000 microseconds seconds
  { duration with
    days := days, seconds := seconds, microseconds := microseconds }

/-- `initialize` of a `<day/time-duration>` -/
def makeDayTimeDuration (days hours minutes seconds microseconds : Int) :
    Duration :=
  canonicalizeDuration {
    days := days
    seconds := seconds + 60 * (minutes + 60 * hours)
    microseconds := microseconds }

/-- `canonicalize-date-month-year` -/
def canonicalizeDateMonthYear (date : Date) : Except Stop Date :=
  let month := date.month - 1
  let date :=
    if -1 < month ∧ month < 12 then date
    else { date with
      month := month.fmod 12 + 1, year := date.year + month.fdiv 12 }
  if date.day ≤ daysInMonth date.year date.month then .ok date
  else .error (.invalidDay date.year date.month date.day)

/-- `add-duration-to-date` -/
def addDurationToDate (x : Date) (y : Duration) : Except Stop Date := do
  let new ← makeDate x
  let new ← canonicalizeDateMonthYear
    { new with month := new.month + y.months }
  match canonicalizeDate { new with
      day := new.day + y.days
      seconds := new.seconds + y.seconds
      microseconds := new.microseconds + y.microseconds } with
  | some new => .ok new
  | none => .error .unfinished

/-- `-` of a duration from a date -/
def subtractDurationFromDate (x : Date) (y : Duration) :
    Except Stop Date := do
  let new ← makeDate x
  let new ← canonicalizeDateMonthYear
    { new with month := new.month - y.months }
  match canonicalizeDate { new with
      day := new.day - y.days
      seconds := new.seconds - y.seconds
      microseconds := new.microseconds - y.microseconds } with
  | some new => .ok new
  | none => .error .unfinished

end OpenDylan.System.Dates
