import OpenDylan.System.DateFields

/-!
# Formats of dates

A format is a list of plain characters and directives, and both the writer and
the reader go through it item by item.  As long as there is room for the names
of the months, the reader assigns for each item what the date has for it.
-/

namespace OpenDylan.System.Dates

open OpenDylan.Lib OpenDylan.Lib.Gregorian

/-! ## Items -/

/-- A plain character or a directive of a format. -/
inductive FormatItem where
  | plain (char : Char)
  | directive (useDots : Bool) (char : Char)
deriving DecidableEq

/-- The items of a format, from a state of the loop over it. -/
def itemsFrom : Bool → Bool → List Char → List FormatItem
  | _, _, [] => []
  | isFormat, useDots, char :: rest =>
      if char = '%' ∧ !isFormat then
        itemsFrom true useDots rest
      else if char = ':' ∧ isFormat then
        itemsFrom isFormat true rest
      else if isFormat then
        .directive useDots char :: itemsFrom false false rest
      else
        .plain char :: itemsFrom isFormat useDots rest

/-- The items of a format. -/
def formatItems (format : List Char) : List FormatItem :=
  itemsFrom false false format

/-- What is written for an item. -/
def FormatItem.write (date : Date) : FormatItem → List Char
  | .plain char => [char]
  | .directive useDots char => formatDirective date useDots char

/-- What the reader does for an item. -/
def FormatItem.read (item : FormatItem) (date : Date) (stream : List Char) :
    Except Failure (Date × List Char) :=
  match item with
  | .plain _ => do
      let (_, stream) ← Dates.read 1 stream
      pure (date, stream)
  | .directive useDots char => parseDirective useDots char date stream

/-- What is written for some items. -/
def writeItems (date : Date) (items : List FormatItem) : List Char :=
  items.flatMap fun item => item.write date

/-- The reader over some items. -/
def readItems :
    List FormatItem → Date → List Char → Except Failure Date
  | [], date, _ => .ok date
  | item :: items, date, stream => do
      let (date, stream) ← item.read date stream
      readItems items date stream

theorem formatLoop_eq (date : Date) (isFormat useDots : Bool)
    (format : List Char) :
    formatLoop date isFormat useDots format =
      writeItems date (itemsFrom isFormat useDots format) := by
  induction format generalizing isFormat useDots with
  | nil => rfl
  | cons char rest ih =>
      unfold formatLoop itemsFrom
      split
      · exact ih true useDots
      · split
        · exact ih isFormat true
        · split
          · rw [ih false false]
            rfl
          · rw [ih isFormat useDots]
            rfl

theorem parseLoop_eq (isFormat useDots : Bool) (format : List Char)
    (date : Date) (stream : List Char) :
    parseLoop isFormat useDots format date stream =
      readItems (itemsFrom isFormat useDots format) date stream := by
  induction format generalizing isFormat useDots date stream with
  | nil => rfl
  | cons char rest ih =>
      unfold parseLoop itemsFrom
      split
      · exact ih true useDots date stream
      · split
        · exact ih isFormat true date stream
        · split
          · show _ = (parseDirective useDots char date stream >>= _)
            cases parseDirective useDots char date stream with
            | error failure => rfl
            | ok result => exact ih false false result.1 result.2
          · show _ = ((do
              let (_, stream) ← Dates.read 1 stream
              pure (date, stream)) >>= _)
            cases Dates.read 1 stream with
            | error failure => rfl
            | ok result => exact ih isFormat useDots date result.2

/-! ## Fields -/

/-- A field that a directive writes and reads. -/
inductive Field where
  | year
  | month
  | day
  | hours
  | minutes
  | seconds
deriving DecidableEq

/-- The value of a field. -/
def Date.field (date : Date) : Field → Int
  | .year => date.year
  | .month => date.month
  | .day => date.day
  | .hours => date.hours
  | .minutes => date.minutes
  | .seconds => date.seconds

/-- A date with another value for a field. -/
def Date.withField (date : Date) (value : Int) : Field → Date
  | .year => { date with year := value }
  | .month => { date with month := value }
  | .day => { date with day := value }
  | .hours => { date with hours := value }
  | .minutes => { date with minutes := value }
  | .seconds => { date with seconds := value }

theorem Date.field_withField (date : Date) (value : Int)
    (field other : Field) :
    (date.withField value field).field other =
      if other = field then value else date.field other := by
  cases field <;> cases other <;> rfl

theorem Date.withField_frame (date : Date) (value : Int) (field : Field) :
    (date.withField value field).timeZoneOffset = date.timeZoneOffset ∧
      (date.withField value field).universal = date.universal := by
  cases field <;> exact ⟨rfl, rfl⟩

/-- The directives that the reader supports. -/
def parseDirectives : List Char :=
  ['Y', 'y', 'H', 'k', 'M', 'S', 'm', 'd', 'e', 'B', 'b', 'z', 'n', '%']

/-- An item that the reader supports. -/
def FormatItem.Supported : FormatItem → Prop
  | .plain _ => True
  | .directive _ char => char ∈ parseDirectives

instance : DecidablePred FormatItem.Supported := fun item =>
  match item with
  | .plain _ => isTrue trivial
  | .directive _ char => inferInstanceAs (Decidable (char ∈ parseDirectives))

/-- The field that a directive stands for. -/
def directiveField : Char → Option Field
  | 'Y' | 'y' => some .year
  | 'm' | 'B' | 'b' => some .month
  | 'd' | 'e' => some .day
  | 'H' | 'k' => some .hours
  | 'M' => some .minutes
  | 'S' => some .seconds
  | _ => none

/-- The field that an item stands for. -/
def FormatItem.field : FormatItem → Option Field
  | .plain _ => none
  | .directive _ char => directiveField char

/-- A year of two digits. -/
def FormatItem.IsShortYear : FormatItem → Prop
  | .plain _ => False
  | .directive _ char => char = 'y'

instance : DecidablePred FormatItem.IsShortYear := fun item =>
  match item with
  | .plain _ => isFalse id
  | .directive _ char => inferInstanceAs (Decidable (char = 'y'))

/-- The zone. -/
def FormatItem.IsZone : FormatItem → Prop
  | .plain _ => False
  | .directive _ char => char = 'z'

instance : DecidablePred FormatItem.IsZone := fun item =>
  match item with
  | .plain _ => isFalse id
  | .directive _ char => inferInstanceAs (Decidable (char = 'z'))

/-- The value that is read for the field of an item. -/
def FormatItem.value (date : Date) (field : Field) (item : FormatItem) : Int :=
  if item.IsShortYear then yearOfCentury (date.year % 100)
  else date.field field

/-- What reading an item of a date that has been written does to the fields
read so far. -/
def FormatItem.assign (date : Date) (item : FormatItem) (known : Date) :
    Option Date :=
  if item.IsZone then
    setTimeZoneOffset (offsetAsRead date.timeZoneOffset) known
  else
    match item.field with
    | some field => some (known.withField (item.value date field) field)
    | none => some known

/-- The long names of months that are compared before that of a month. -/
def namesTried (month : Int) : List (List Char) :=
  monthNames.take (month - 1).toNat

/-- There are as many characters left as in each of the long names that are
compared before the one that is there. -/
def FormatItem.HasRoom (date : Date) (item : FormatItem)
    (stream : List Char) : Prop :=
  match item with
  | .plain _ => True
  | .directive _ char =>
      char = 'B' → ∀ name ∈ namesTried date.month, name.length ≤ stream.length

/-! ## Reading what is written -/

/-- The bounds of the fields of a date, as the reader needs them. -/
theorem Date.Valid.bounds {date : Date} (valid : date.Valid) :
    (1800 ≤ date.year ∧ date.year < 2200) ∧
      (1 ≤ date.month ∧ date.month < 100) ∧ (1 ≤ date.day ∧ date.day < 100) ∧
      (0 ≤ date.hours ∧ date.hours < 100) ∧
      (0 ≤ date.minutes ∧ date.minutes < 100) ∧
      (0 ≤ date.seconds ∧ date.seconds < 100) := by
  have canonical := valid.canonical
  have isDate := canonical.isDate
  have short := monthLength_le date.year date.month
  have dayLe := isDate.day_le
  have monthPos := isDate.month_pos
  have monthLe := isDate.month_le
  have dayPos := isDate.day_pos
  have hours := canonical.hours
  have minutes := canonical.minutes
  have seconds := canonical.seconds
  have year := valid.year
  omega

theorem parse_name {date : Date} (valid : date.Valid)
    {names : List (List Char)} (twelve : names.length = 12) :
    names[(date.month - 1).toNat]? =
        some (names.getD (date.month - 1).toNat []) ∧
      1 + (((date.month - 1).toNat : Nat) : Int) = date.month := by
  have isDate := valid.canonical.isDate
  have monthPos := isDate.month_pos
  have monthLe := isDate.month_le
  constructor
  · rw [List.getD_eq_getElem?_getD, List.getElem?_eq_getElem (by omega)]
    rfl
  · omega

/-- A short name takes as many characters as any other. -/
theorem shortMonthNames_length {name : List Char}
    (isName : name ∈ shortMonthNames) : name.length = 3 := by
  have all : ∀ name ∈ shortMonthNames, name.length = 3 := by decide
  exact all name isName

section Directive

variable {date : Date} (known : Date) (useDots : Bool) (rest : List Char)

theorem parseDirective_number {char : Char} {text : List Char} {count : Nat}
    {value : Int} {field : Field} (adjust : Int → Int)
    (length : text.length = count)
    (parses : stringToInteger text = some value)
    (reads : ∀ stream, parseDirective useDots char known stream =
      readNumber count stream >>= fun result =>
        .ok (known.withField (adjust result.1) field, result.2)) :
    parseDirective useDots char known (text ++ rest) =
      .ok (known.withField (adjust value) field, rest) := by
  rw [reads, readNumber_append length parses, ok_bind]

theorem parseDirective_B (valid : date.Valid)
    (room : ∀ name ∈ namesTried date.month,
      name.length ≤ (formatDirective date useDots 'B' ++ rest).length) :
    parseDirective useDots 'B' known
        (formatDirective date useDots 'B' ++ rest) =
      .ok (known.withField date.month .month, rest) := by
  obtain ⟨isName, number⟩ := parse_name valid (show monthNames.length = 12
    from rfl)
  have parses := parseMonth_append monthNames_apart isName rest room 1
  show (parseMonth (formatDirective date useDots 'B' ++ rest) 1 monthNames
    >>= _) = _
  rw [show formatDirective date useDots 'B' =
    monthNames.getD (date.month - 1).toNat [] from rfl, parses, number]
  rfl

theorem parseDirective_b (valid : date.Valid) :
    parseDirective useDots 'b' known
        (formatDirective date useDots 'b' ++ rest) =
      .ok (known.withField date.month .month, rest) := by
  obtain ⟨isName, number⟩ := parse_name valid
    (show shortMonthNames.length = 12 from rfl)
  have room : ∀ name ∈ shortMonthNames.take (date.month - 1).toNat,
      name.length ≤ (shortMonthNames.getD (date.month - 1).toNat [] ++
        rest).length := by
    intro name inTaken
    rw [List.length_append, shortMonthNames_length (List.mem_of_mem_take
      inTaken), shortMonthNames_length (List.mem_of_getElem? isName)]
    exact Nat.le_add_right _ _
  have parses := parseMonth_append shortMonthNames_apart isName rest room 1
  show (parseMonth (formatDirective date useDots 'b' ++ rest) 1
    shortMonthNames >>= _) = _
  rw [show formatDirective date useDots 'b' =
    shortMonthNames.getD (date.month - 1).toNat [] from rfl, parses, number]
  rfl

/-- A directive for a field reads the field. -/
theorem parseDirective_field (valid : date.Valid) {char : Char}
    {field : Field} (isField :
      (FormatItem.directive useDots char).field = some field)
    (room : (FormatItem.directive useDots char).HasRoom date
      (formatDirective date useDots char ++ rest)) :
    parseDirective useDots char known
        (formatDirective date useDots char ++ rest) =
      .ok (known.withField
        ((FormatItem.directive useDots char).value date field) field,
        rest) := by
  obtain ⟨year, month, day, hours, minutes, seconds⟩ := valid.bounds
  have twoDigits : ∀ {char : Char} {value : Int} (field : Field)
      (adjust : Int → Int), 0 ≤ value → value < 100 →
      (∀ stream, parseDirective useDots char known stream =
        readNumber 2 stream >>= fun result =>
          .ok (known.withField (adjust result.1) field, result.2)) →
      parseDirective useDots char known (wrap ['0'] value ++ rest) =
        .ok (known.withField (adjust value) field, rest) := by
    intro char value field adjust nonneg small reads
    exact parseDirective_number known useDots rest adjust
      (wrap_zero nonneg small).length_eq
      (stringToInteger_wrap_zero nonneg small) reads
  have isField : directiveField char = some field := isField
  unfold directiveField at isField
  split at isField
  · cases isField
    have numeral := @integerToString_year date.year (by omega) (by omega)
    apply parseDirective_number known useDots rest id numeral.length_eq _
      fun _ => rfl
    rw [stringToInteger_numeral numeral, Int.toNat_of_nonneg (by omega)]
    rfl
  · cases isField
    have numeral := @formatInteger_numeral date.year (by omega) 2
    apply parseDirective_number known useDots rest yearOfCentury
      numeral.length_eq _ fun _ => rfl
    rw [stringToInteger_numeral numeral]
    congr 1
    omega
  · cases isField
    exact twoDigits .month id (by omega) month.2 fun _ => rfl
  · cases isField
    exact parseDirective_B known useDots rest valid (room rfl)
  · cases isField
    exact parseDirective_b known useDots rest valid
  · cases isField
    exact twoDigits .day id (by omega) day.2 fun _ => rfl
  · cases isField
    obtain ⟨length, parses⟩ := @wrap_space date.day (by omega) day.2
    exact parseDirective_number known useDots rest id length parses
      fun _ => rfl
  · cases isField
    exact twoDigits .hours id hours.1 hours.2 fun _ => rfl
  · cases isField
    obtain ⟨length, parses⟩ := wrap_space hours.1 hours.2
    exact parseDirective_number known useDots rest id length parses
      fun _ => rfl
  · cases isField
    exact twoDigits .minutes id minutes.1 minutes.2 fun _ => rfl
  · cases isField
    exact twoDigits .seconds id seconds.1 seconds.2 fun _ => rfl
  · cases isField

/-- A supported item that is neither a field nor the zone is one character. -/
theorem parseDirective_other {char : Char} (isDirective : char ∈ parseDirectives)
    (noField : directiveField char = none) (noZone : char ≠ 'z') :
    parseDirective useDots char known
        (formatDirective date useDots char ++ rest) = .ok (known, rest) := by
  simp only [parseDirectives, List.mem_cons, List.not_mem_nil, or_false]
    at isDirective
  rcases isDirective with rfl | rfl | rfl | rfl | rfl | rfl | rfl | rfl | rfl |
    rfl | rfl | rfl | rfl | rfl
  all_goals
    first
    | exact absurd rfl noZone
    | (exfalso; revert noField; decide)
    | rfl

end Directive

/-- What the reader does with what has been written for an item. -/
theorem FormatItem.read_write {date : Date} (valid : date.Valid)
    {item : FormatItem} (supported : item.Supported) (known : Date)
    (rest : List Char) (room : item.HasRoom date (item.write date ++ rest)) :
    item.read known (item.write date ++ rest) =
      match item.assign date known with
      | some later => .ok (later, rest)
      | none => .error (.refused .unfinished) := by
  cases item with
  | plain char => rfl
  | directive useDots char =>
      unfold FormatItem.assign
      by_cases isZone : char = 'z'
      · rw [if_pos (show (FormatItem.directive useDots char).IsZone from
          isZone), isZone]
        show (readZone useDots (formatDirective date useDots 'z' ++ rest)
          >>= _) = _
        rw [readZone_formatDirective valid.timeZoneOffset, ok_bind]
        show (match setTimeZoneOffset (offsetAsRead date.timeZoneOffset)
            known with
          | some date => Except.ok (date, rest)
          | none => Except.error (Failure.refused .unfinished)) = _
        cases setTimeZoneOffset (offsetAsRead date.timeZoneOffset) known with
        | none => rfl
        | some later => rfl
      · rw [if_neg (show ¬(FormatItem.directive useDots char).IsZone from
          isZone)]
        cases isField : (FormatItem.directive useDots char).field with
        | none =>
            exact parseDirective_other known useDots rest supported isField
              isZone
        | some field =>
            exact parseDirective_field known useDots rest valid isField room

/-! ## Runs of the reader -/

/-- The fields known after some items. -/
def assignItems (date : Date) :
    List FormatItem → Date → Option Date
  | [], known => some known
  | item :: items, known => do
      assignItems date items (← item.assign date known)

/-- There is room for each of the items. -/
def HasRoom (date : Date) : List FormatItem → Prop
  | [] => True
  | item :: items =>
      item.HasRoom date (writeItems date (item :: items)) ∧
        HasRoom date items

theorem readItems_writeItems {date : Date} (valid : date.Valid)
    {items : List FormatItem} (supported : ∀ item ∈ items, item.Supported)
    (room : HasRoom date items) (known : Date) :
    readItems items known (writeItems date items) =
      match assignItems date items known with
      | some later => .ok later
      | none => .error (.refused .unfinished) := by
  induction items generalizing known with
  | nil => rfl
  | cons item items ih =>
      have first := FormatItem.read_write valid
        (supported item List.mem_cons_self) known (writeItems date items)
        room.1
      have rest := ih (fun item inItems =>
        supported item (List.mem_cons_of_mem _ inItems)) room.2
      show (item.read known (item.write date ++ writeItems date items)
        >>= _) = _
      rw [first]
      unfold assignItems
      cases item.assign date known with
      | none => rfl
      | some later => exact rest later

/-- Without room for its name a month is not read. -/
theorem FormatItem.read_stops {date : Date} (valid : date.Valid)
    {item : FormatItem} (known : Date) (rest : List Char)
    (noRoom : ¬item.HasRoom date (item.write date ++ rest)) :
    ∃ failure, item.read known (item.write date ++ rest) = .error failure := by
  cases item with
  | plain char => exact absurd trivial noRoom
  | directive useDots char =>
      obtain ⟨isB, noNames⟩ := Classical.not_imp.1 noRoom
      obtain ⟨isName, number⟩ := parse_name valid (show monthNames.length = 12
        from rfl)
      obtain ⟨failure, stops⟩ := parseMonth_stops monthNames_apart isName rest
        (by rw [isB] at noNames; exact noNames) 1
      refine ⟨failure, ?_⟩
      rw [isB]
      show (parseMonth (monthNames.getD (date.month - 1).toNat [] ++ rest) 1
        monthNames >>= _) = _
      rw [stops]
      rfl

theorem readItems_stops {date : Date} (valid : date.Valid)
    {items : List FormatItem} (supported : ∀ item ∈ items, item.Supported)
    (noRoom : ¬HasRoom date items) (known : Date) :
    ∃ failure, readItems items known (writeItems date items) =
      .error failure := by
  induction items generalizing known with
  | nil => exact absurd trivial noRoom
  | cons item items ih =>
      show ∃ failure, (item.read known (item.write date ++
        writeItems date items) >>= _) = .error failure
      by_cases room : item.HasRoom date (item.write date ++
          writeItems date items)
      · have others : ¬HasRoom date items := fun later => noRoom ⟨room, later⟩
        rw [FormatItem.read_write valid (supported item List.mem_cons_self)
          known _ room]
        cases item.assign date known with
        | none => exact ⟨_, rfl⟩
        | some later =>
            exact ih (fun item inItems =>
              supported item (List.mem_cons_of_mem _ inItems)) others later
      · obtain ⟨failure, stops⟩ := item.read_stops valid known _ room
        rw [stops]
        exact ⟨failure, rfl⟩

end OpenDylan.System.Dates
