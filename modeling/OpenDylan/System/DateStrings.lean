import OpenDylan.System.Dates

/-!
# Dates as texts

`format-date` writes a date as its format says.  Two functions read such texts:
`parse-date-string` follows the same directives and assigns the fields of a
date one by one, and `parse-iso8601-string` reads the one form of ISO 8601.
-/

namespace OpenDylan.System.Dates

/-! ## Names -/

/-- `<day-of-week>` -/
inductive DayOfWeek where
  | sunday
  | monday
  | tuesday
  | wednesday
  | thursday
  | friday
  | saturday
deriving DecidableEq

/-- `$days-of-week` -/
def daysOfWeek : List DayOfWeek :=
  [.sunday, .monday, .tuesday, .wednesday, .thursday, .friday, .saturday]

/-- `date-day-of-week` -/
def Date.dayOfWeek (date : Date) : DayOfWeek :=
  let days := daysSince1900 date.year date.month date.day
  daysOfWeek.getD ((days + 1).fmod 7).toNat .sunday

/-- `$day-of-week-names` -/
def dayOfWeekName : DayOfWeek → List Char
  | .monday => "Monday".toList
  | .tuesday => "Tuesday".toList
  | .wednesday => "Wednesday".toList
  | .thursday => "Thursday".toList
  | .friday => "Friday".toList
  | .saturday => "Saturday".toList
  | .sunday => "Sunday".toList

/-- `$short-day-of-week-names` -/
def shortDayOfWeekName : DayOfWeek → List Char
  | .monday => "Mon".toList
  | .tuesday => "Tue".toList
  | .wednesday => "Wed".toList
  | .thursday => "Thu".toList
  | .friday => "Fri".toList
  | .saturday => "Sat".toList
  | .sunday => "Sun".toList

/-- `$month-names` -/
def monthNames : List (List Char) :=
  ["January".toList, "February".toList, "March".toList, "April".toList,
    "May".toList, "June".toList, "July".toList, "August".toList,
    "September".toList, "October".toList, "November".toList,
    "December".toList]

/-- `$short-month-names` -/
def shortMonthNames : List (List Char) :=
  ["Jan".toList, "Feb".toList, "Mar".toList, "Apr".toList, "May".toList,
    "Jun".toList, "Jul".toList, "Aug".toList, "Sep".toList, "Oct".toList,
    "Nov".toList, "Dec".toList]

/-! ## Numbers -/

/-- `integer-to-string` with base ten. -/
def integerToString (integer : Int) : List Char :=
  if integer < 0 then '-' :: Nat.toDigits 10 integer.natAbs
  else Nat.toDigits 10 integer.toNat

/-- The white space that `string-to-integer` skips. -/
def isLeftSpace (char : Char) : Bool :=
  char = ' ' ∨ char = '\n' ∨ char = '\r' ∨ char = '\x0c' ∨ char = '\t'

/-- `character-to-integer` of a digit below ten. -/
def characterToInteger (char : Char) : Option Int :=
  if char.isDigit then some (char.toNat - '0'.toNat : Nat) else none

/-- The loop of `string-to-integer`: the value, and whether there was a
digit. -/
def shiftDigits (sign : Int) : Int → Bool → List Char → Int × Bool
  | value, valid, [] => (value, valid)
  | value, valid, char :: rest =>
      match characterToInteger char with
      | none => (value, valid)
      | some digit => shiftDigits sign (value * 10 + digit * sign) true rest

/-- The sign in `string-to-integer`, and what comes after it. -/
def readSign : List Char → Int × List Char
  | '+' :: rest => (1, rest)
  | '-' :: rest => (-1, rest)
  | string => (1, string)

/-- `string-to-integer` with base ten; `none` is its error. -/
def stringToInteger (string : List Char) : Option Int :=
  let (sign, digits) := readSign (string.dropWhile isLeftSpace)
  match shiftDigits sign 0 false digits with
  | (value, true) => some value
  | (_, false) => none

/-- `round/` -/
def roundDivide (real divisor : Int) : Int :=
  let integer := real.tdiv divisor
  let remainder := real.tmod divisor
  let threshold : Int := divisor.natAbs
  if threshold < 2 * remainder ∨
      (2 * remainder = threshold ∧ integer % 2 = 1) then
    if divisor < 0 then integer - 1 else integer + 1
  else if 2 * remainder < -threshold ∨
      (2 * remainder = -threshold ∧ integer % 2 = 1) then
    if divisor < 0 then integer + 1 else integer - 1
  else
    integer

/-! ## Writing a date -/

/-- `wrap` -/
def wrap (wrap : List Char) (i : Int) : List Char :=
  if i < 10 then wrap ++ integerToString i else integerToString i

/-- `$digits` -/
def digits : List Char := "0123456789".toList

/-- `format-integer`; its loop sets the digits from the last to the first. -/
def formatInteger (integer : Int) : Nat → List Char
  | 0 => []
  | length + 1 =>
      formatInteger (integer.fdiv 10) length ++
        [digits.getD (integer.fmod 10).toNat '0']

/-- What `format-date` writes for a directive. -/
def formatDirective (date : Date) (useDots : Bool) (char : Char) :
    List Char :=
  let zone : Int := date.timeZoneOffset.natAbs
  match char with
  | 'Y' => integerToString date.year
  | 'y' => formatInteger date.year 2
  | 'H' => wrap ['0'] date.hours
  | 'k' => wrap [' '] date.hours
  | 'M' => wrap ['0'] date.minutes
  | 'S' => wrap ['0'] date.seconds
  | 'f' => formatInteger date.microseconds 6
  | 'F' => formatInteger (roundDivide date.microseconds 1000) 3
  | 'T' =>
      wrap ['0'] date.hours ++ [':'] ++ wrap ['0'] date.minutes ++ [':'] ++
        wrap ['0'] date.seconds
  | 'm' => wrap ['0'] date.month
  | 'd' => wrap ['0'] date.day
  | 'e' => wrap [' '] date.day
  | 'A' => dayOfWeekName date.dayOfWeek
  | 'a' => shortDayOfWeekName date.dayOfWeek
  | 'B' => monthNames.getD (date.month - 1).toNat []
  | 'b' => shortMonthNames.getD (date.month - 1).toNat []
  | 'z' =>
      (if date.timeZoneOffset < 0 then ['-'] else ['+']) ++
        wrap ['0'] (zone.fdiv 60) ++ (if useDots then [':'] else []) ++
        wrap ['0'] (zone.fmod 60)
  | 'n' => ['\n']
  | '%' => ['%']
  | char => [char]

/-- The loop of `format-date`, with `format?` and `use-dots?`. -/
def formatLoop (date : Date) : Bool → Bool → List Char → List Char
  | _, _, [] => []
  | isFormat, useDots, char :: rest =>
      if char = '%' ∧ !isFormat then
        formatLoop date true useDots rest
      else if char = ':' ∧ isFormat then
        formatLoop date isFormat true rest
      else if isFormat then
        formatDirective date useDots char ++ formatLoop date false false rest
      else
        char :: formatLoop date isFormat useDots rest

/-- `format-date` -/
def formatDate (format : List Char) (date : Date) : List Char :=
  formatLoop date false false format

/-- `as-iso8601-string` -/
def asIso8601String (date : Date) : List Char :=
  formatDate "%Y-%m-%dT%H:%M:%S%:z".toList date

/-! ## Reading a date as a format says -/

/-- What stops a parser. -/
inductive Failure where
  | malformed (reason : String)
  | refused (stop : Stop)
  | endOfStream
  | incompleteRead (count : Nat)
  | noInteger (string : List Char)
  | noMonth
deriving DecidableEq

/-- `read` on the stream of the text that is left. -/
def read (count : Nat) (stream : List Char) :
    Except Failure (List Char × List Char) :=
  if count ≤ stream.length then .ok (stream.take count, stream.drop count)
  else if stream = [] then .error .endOfStream
  else .error (.incompleteRead stream.length)

/-- `string-to-integer` of what is read. -/
def readNumber (count : Nat) (stream : List Char) :
    Except Failure (Int × List Char) := do
  let (string, stream) ← read count stream
  match stringToInteger string with
  | some value => pure (value, stream)
  | none => throw (.noInteger string)

/-- `parse-month`: the names are tried in turn, and each is compared with as
many characters as it has.  The result is the number of the month. -/
def parseMonth (stream : List Char) :
    Int → List (List Char) → Except Failure (Int × List Char)
  | _, [] => .error .noMonth
  | month, monthName :: monthNames => do
      let (string, rest) ← read monthName.length stream
      if monthName = string then pure (month, rest)
      else parseMonth stream (month + 1) monthNames

/-- The year of two digits. -/
def yearOfCentury (year : Int) : Int :=
  (if 70 < year then 1900 else 2000) + year

/-- What `parse-date-string` reads for `%z`. -/
def readZone (useDots : Bool) (stream : List Char) :
    Except Failure (Int × List Char) := do
  let (sign, stream) ← read 1 stream
  let (hours, stream) ← read 2 stream
  let (_, stream) ← if useDots then read 1 stream else pure ([], stream)
  let (minutes, stream) ← read 2 stream
  let some signNumber := stringToInteger (sign ++ ['1'])
    | throw (.noInteger (sign ++ ['1']))
  let some hoursNumber := stringToInteger hours | throw (.noInteger hours)
  let some minutesNumber := stringToInteger minutes
    | throw (.noInteger minutes)
  pure (signNumber * hoursNumber * 60 + minutesNumber, stream)

/-- What `parse-date-string` does for a directive. -/
def parseDirective (useDots : Bool) (char : Char) (date : Date)
    (stream : List Char) : Except Failure (Date × List Char) :=
  match char with
  | 'Y' => do
      let (year, stream) ← readNumber 4 stream
      pure ({ date with year := year }, stream)
  | 'y' => do
      let (year, stream) ← readNumber 2 stream
      pure ({ date with year := yearOfCentury year }, stream)
  | 'H' | 'k' => do
      let (hours, stream) ← readNumber 2 stream
      pure ({ date with hours := hours }, stream)
  | 'M' => do
      let (minutes, stream) ← readNumber 2 stream
      pure ({ date with minutes := minutes }, stream)
  | 'S' => do
      let (seconds, stream) ← readNumber 2 stream
      pure ({ date with seconds := seconds }, stream)
  | 'm' => do
      let (month, stream) ← readNumber 2 stream
      pure ({ date with month := month }, stream)
  | 'd' | 'e' => do
      let (day, stream) ← readNumber 2 stream
      pure ({ date with day := day }, stream)
  | 'B' => do
      let (month, stream) ← parseMonth stream 1 monthNames
      pure ({ date with month := month }, stream)
  | 'b' => do
      let (month, stream) ← parseMonth stream 1 shortMonthNames
      pure ({ date with month := month }, stream)
  | 'z' => do
      let (zone, stream) ← readZone useDots stream
      match setTimeZoneOffset zone date with
      | some date => pure (date, stream)
      | none => throw (.refused .unfinished)
  | 'n' | '%' => do
      let (_, stream) ← read 1 stream
      pure (date, stream)
  | _ => pure (date, stream)

/-- The loop of `parse-date-string`, with `format?` and `use-dots?`. -/
def parseLoop :
    Bool → Bool → List Char → Date → List Char → Except Failure Date
  | _, _, [], date, _ => pure date
  | isFormat, useDots, char :: rest, date, stream =>
      if char = '%' ∧ !isFormat then
        parseLoop true useDots rest date stream
      else if char = ':' ∧ isFormat then
        parseLoop isFormat true rest date stream
      else if isFormat then do
        let (date, stream) ← parseDirective useDots char date stream
        parseLoop false false rest date stream
      else do
        let (_, stream) ← read 1 stream
        parseLoop isFormat useDots rest date stream

/-- `parse-date-string` -/
def parseDateString (date format : List Char) : Except Failure Date :=
  parseLoop false false format { year := 1970, month := 1, day := 1 } date

/-! ## Reading a date of ISO 8601 -/

/-- The string of `split-iso8601-string` from the current position on, and
that position. -/
structure Scanner where
  idx : Nat
  rest : List Char
deriving DecidableEq

/-- The local methods of `split-iso8601-string`. -/
abbrev Scan := StateT Scanner (Except Failure)

/-- `fail` -/
def fail {α : Type} (reason : String) : Scan α :=
  throw (.malformed ("Malformed ISO 8601 string: " ++ reason))

/-- `peek` -/
def peek : Scan (Option Char) := do
  return (← get).rest.head?

/-- `next` -/
def next : Scan Char := do
  match ← get with
  | ⟨_, []⟩ => fail "end of string reached"
  | ⟨idx, char :: rest⟩ =>
      set (⟨idx + 1, rest⟩ : Scanner)
      return char

/-- The loop of `read-integer`. -/
def readDigits : Nat → Int → Scan Int
  | 0, value => return value
  | count + 1, value => do
      let char ← next
      if char < '0' ∨ '9' < char then
        fail s!"Unexpected character '{char}' at index {(← get).idx - 1}"
      else
        readDigits count (10 * value + char.toNat - '0'.toNat)

/-- `read-integer` -/
def readInteger (count : Nat) : Scan Int :=
  readDigits count 0

/-- `maybe-skip` -/
def maybeSkip (strict : Bool) (char : Char) : Scan Unit := do
  if (← peek) = some char then
    let _ ← next
  else if strict then
    fail s!"'{char}' expected"

/-- `zone?` -/
def isZone (strict : Bool) : Scan Bool := do
  if !strict ∧ (← peek) = some ' ' then
    let _ ← next
  let c ← peek
  return c = some 'Z' ∨ c = some 'z' ∨ c = some '+' ∨ c = some '-'

/-- The loop over the digits of the fraction, with the number of those that
may still come. -/
def readFraction (strict : Bool) : Nat → Int → Scan Int
  | count, microseconds => do
      if ← isZone strict then
        return microseconds * 10 ^ count
      else
        let c ← next
        if c < '0' ∨ '9' < c then
          fail s!"Unexpected character '{c}'"
        else match count with
          | 0 => fail "Too many digits in fraction"
          | count + 1 =>
              readFraction strict count
                (10 * microseconds + c.toNat - '0'.toNat)

/-- The time zone that ends a string. -/
def readOffset (strict : Bool) : Scan Int := do
  if !(← isZone strict) then
    fail "Time zone required"
  let tzi ← next
  let mut offset : Int := 0
  if tzi ≠ 'z' ∧ tzi ≠ 'Z' then
    let hours ← readInteger 2
    maybeSkip strict ':'
    let minutes ← readInteger 2
    offset := 60 * hours + minutes
  if tzi = '-' then
    offset := 0 - offset
  if (← peek).isSome then
    fail "Too many characters"
  return offset

/-- The seconds and microseconds, which may be left out. -/
def readSeconds (strict : Bool) : Scan (Int × Int) := do
  if ← isZone strict then
    return (0, 0)
  maybeSkip strict ':'
  let seconds ← readInteger 2
  if (← peek) = some '.' then
    let _ ← next
    return (seconds, ← readFraction strict 6 0)
  return (seconds, 0)

/-- `split-iso8601-string`, with the fields of a date for its values. -/
def splitIso8601String (strict : Bool) : Scan Date := do
  let year ← readInteger 4
  if (← peek).isNone then
    return { year := year, month := 1, day := 1 }
  maybeSkip strict '-'
  let month ← readInteger 2
  if (← peek).isNone then
    return { year := year, month := month, day := 1 }
  maybeSkip strict '-'
  let day ← readInteger 2
  if (← peek).isNone then
    return { year := year, month := month, day := day }
  let separator ← peek
  if separator = some 'T' ∨ separator = some 't' ∨
      (!strict ∧ separator = some ' ') then
    let _ ← next
  else
    fail ("Date and time must be separated by 'T'" ++
      (if strict then "" else " or space") ++ ".")
  let hours ← readInteger 2
  maybeSkip strict ':'
  let minutes ← readInteger 2
  let (seconds, microseconds) ← readSeconds strict
  let offset ← readOffset strict
  return {
    year := year, month := month, day := day
    hours := hours, minutes := minutes, seconds := seconds
    microseconds := microseconds, timeZoneOffset := offset }

/-- `parse-iso8601-string` -/
def parseIso8601String (strict : Bool) (string : List Char) :
    Except Failure Date := do
  let (date, _) ← splitIso8601String strict ⟨0, string⟩
  (makeDate date).mapError .refused

end OpenDylan.System.Dates
