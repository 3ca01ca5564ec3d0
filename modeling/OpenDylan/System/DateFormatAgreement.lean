import OpenDylan.System.DateFormats

/-!
# The dates that a format brings back

What the reader assigns on its way is what the date has, except for the century
of a year of two digits and for the zone, which moves the fields that have
already been read.
-/

namespace OpenDylan.System.Dates

open OpenDylan.Lib OpenDylan.Lib.Gregorian

/-! ## What the reader ends with -/

/-- Some item reads a field. -/
def ReadsField (items : List FormatItem) (field : Field) : Prop :=
  ∃ item ∈ items, item.field = some field

/-- Some item is the zone. -/
def ReadsZone (items : List FormatItem) : Prop :=
  ∃ item ∈ items, item.IsZone

/-- If the year is read from two digits at last, it is one of these years. -/
def CenturyKnown (date : Date) : List FormatItem → Prop
  | [] => True
  | item :: items =>
      (item.IsShortYear → ¬ReadsField items .year →
        1971 ≤ date.year ∧ date.year ≤ 2070) ∧
      CenturyKnown date items

/-- Each time a zone is set, the fields read until then move with it only
where they are read again. -/
def Undisturbed (date : Date) : List FormatItem → Date → Prop
  | [], _ => True
  | item :: items, known =>
      ∀ later, item.assign date known = some later →
        (item.IsZone → ∀ field, ¬ReadsField items field →
          later.field field = known.field field) ∧
        Undisturbed date items later

/-- What holds of the date of the reader all the time. -/
structure Date.Partial (date : Date) : Prop where
  month_pos : 1 ≤ date.month
  month_le : date.month ≤ 12
  universal : date.universal = none

theorem setTimeZoneOffset_partial {known : Date} (isPartial : known.Partial)
    (newZone : Int) :
    ∃ later, setTimeZoneOffset newZone known = some later ∧
      later.Partial ∧ later.timeZoneOffset = newZone := by
  obtain ⟨later, runs, canonicalized⟩ := canonicalizeDate_spec
    { known with
      minutes := known.minutes +
        (newZone - known.timeZoneOffset).fmod 60
      hours := known.hours + (newZone - known.timeZoneOffset).fdiv 60 }
    isPartial.month_pos isPartial.month_le
  refine ⟨{ later with timeZoneOffset := newZone }, ?_, ?_, rfl⟩
  · show (canonicalizeDate _ >>= _) = _
    rw [runs]
    rfl
  · constructor
    · exact canonicalized.canonical.isDate.month_pos
    · exact canonicalized.canonical.isDate.month_le
    · exact canonicalized.universal.trans isPartial.universal

/-- A year of two digits is a year. -/
theorem FormatItem.IsShortYear.field {item : FormatItem}
    (isShort : item.IsShortYear) : item.field = some .year := by
  cases item with
  | plain char => cases isShort
  | directive useDots char =>
      rw [show char = 'y' from isShort]
      rfl

/-- The zone is no field. -/
theorem FormatItem.IsZone.field {item : FormatItem}
    (isZone : item.IsZone) : item.field = none := by
  cases item with
  | plain char => cases isZone
  | directive useDots char =>
      rw [show char = 'z' from isZone]
      rfl

/-- The century of these years is the one that is assumed. -/
theorem yearOfCentury_eq {year : Int} (low : 1971 ≤ year)
    (high : year ≤ 2070) : yearOfCentury (year % 100) = year := by
  unfold yearOfCentury
  split <;> omega

theorem FormatItem.value_eq {date : Date} {item : FormatItem}
    (notShort : ¬item.IsShortYear) (field : Field) :
    item.value date field = date.field field := by
  unfold FormatItem.value
  rw [if_neg notShort]

theorem FormatItem.assign_spec {date : Date} (valid : date.Valid)
    (item : FormatItem) {known : Date} (isPartial : known.Partial) :
    ∃ later, item.assign date known = some later ∧ later.Partial ∧
      later.timeZoneOffset = (if item.IsZone then
        offsetAsRead date.timeZoneOffset else known.timeZoneOffset) ∧
      (¬item.IsZone → ∀ field, later.field field =
        if item.field = some field then item.value date field
        else known.field field) := by
  have isDate := valid.canonical.isDate
  unfold FormatItem.assign
  by_cases isZone : item.IsZone
  · rw [if_pos isZone, if_pos isZone]
    obtain ⟨later, runs, still, offset⟩ := setTimeZoneOffset_partial isPartial
      (offsetAsRead date.timeZoneOffset)
    exact ⟨later, runs, still, offset, fun notZone => absurd isZone notZone⟩
  · rw [if_neg isZone, if_neg isZone]
    cases isField : item.field with
    | none =>
        refine ⟨known, rfl, isPartial, rfl, fun _ field => ?_⟩
        rw [if_neg (fun same => nomatch same)]
    | some field =>
        have frame := known.withField_frame (item.value date field) field
        refine ⟨_, rfl, ?_, frame.1, fun _ other => ?_⟩
        · have monthEq := known.field_withField (item.value date field) field
            .month
          have months : 1 ≤ (known.withField (item.value date field)
              field).month ∧ (known.withField (item.value date field)
              field).month ≤ 12 := by
            show 1 ≤ (known.withField (item.value date field) field).field
              .month ∧ (known.withField (item.value date field) field).field
              .month ≤ 12
            rw [monthEq]
            split
            · rename_i isMonth
              have notShort : ¬item.IsShortYear := by
                intro isShort
                rw [isShort.field, ← isMonth] at isField
                cases isField
              rw [FormatItem.value_eq notShort, ← isMonth]
              exact ⟨isDate.month_pos, isDate.month_le⟩
            · exact ⟨isPartial.month_pos, isPartial.month_le⟩
          exact ⟨months.1, months.2, frame.2.trans isPartial.universal⟩
        · rw [known.field_withField]
          by_cases same : other = field
          · rw [if_pos same, if_pos (congrArg some same.symm), same]
          · rw [if_neg same, if_neg fun equal =>
              same (Option.some.inj equal).symm]

theorem assignItems_total {date : Date} (valid : date.Valid)
    (items : List FormatItem) {known : Date} (isPartial : known.Partial) :
    ∃ later, assignItems date items known = some later ∧ later.Partial ∧
      (ReadsZone items →
        later.timeZoneOffset = offsetAsRead date.timeZoneOffset) ∧
      (¬ReadsZone items → later.timeZoneOffset = known.timeZoneOffset) := by
  induction items generalizing known with
  | nil =>
      refine ⟨known, rfl, isPartial, ?_, fun _ => rfl⟩
      rintro ⟨item, inItems, -⟩
      cases inItems
  | cons item items ih =>
      obtain ⟨next, assigned, still, offset, -⟩ :=
        item.assign_spec valid isPartial
      obtain ⟨later, runs, last, withZone, withoutZone⟩ := ih still
      refine ⟨later, ?_, last, ?_, ?_⟩
      · unfold assignItems
        rw [assigned]
        exact runs
      · rintro ⟨zone, inItems, isZone⟩
        by_cases readsZone : ReadsZone items
        · exact withZone readsZone
        · rcases List.mem_cons.1 inItems with isItem | inRest
          · rw [isItem] at isZone
            rw [withoutZone readsZone, offset, if_pos isZone]
          · exact absurd ⟨zone, inRest, isZone⟩ readsZone
      · intro noZone
        have notZone : ¬item.IsZone := fun isZone =>
          noZone ⟨item, List.mem_cons_self, isZone⟩
        have notLater : ¬ReadsZone items := by
          rintro ⟨zone, inRest, isZone⟩
          exact noZone ⟨zone, List.mem_cons_of_mem _ inRest, isZone⟩
        rw [withoutZone notLater, offset, if_neg notZone]

/-- If no zone disturbs the fields, the reader ends with those of the date. -/
theorem assignItems_fields {date : Date} (valid : date.Valid)
    {items : List FormatItem} {known : Date} (isPartial : known.Partial)
    (century : CenturyKnown date items)
    (undisturbed : Undisturbed date items known)
    (others : ∀ field, ¬ReadsField items field →
      known.field field = date.field field) {later : Date}
    (runs : assignItems date items known = some later) (field : Field) :
    later.field field = date.field field := by
  induction items generalizing known with
  | nil =>
      cases runs
      apply others
      rintro ⟨item, inItems, -⟩
      cases inItems
  | cons item items ih =>
      obtain ⟨next, assigned, still, -, fields⟩ :=
        item.assign_spec valid isPartial
      have kept := undisturbed next assigned
      unfold assignItems at runs
      rw [assigned] at runs
      apply ih still century.2 kept.2 _ runs
      intro other notRead
      by_cases isZone : item.IsZone
      · rw [kept.1 isZone other notRead]
        apply others
        rintro ⟨reader, inItems, isField⟩
        rcases List.mem_cons.1 inItems with isItem | inRest
        · rw [isItem, isZone.field] at isField
          cases isField
        · exact notRead ⟨reader, inRest, isField⟩
      · rw [fields isZone other]
        split
        · rename_i isField
          by_cases isShort : item.IsShortYear
          · rw [isShort.field] at isField
            cases isField
            have year := century.1 isShort notRead
            unfold FormatItem.value
            rw [if_pos isShort]
            exact yearOfCentury_eq year.1 year.2
          · exact FormatItem.value_eq isShort other
        · rename_i notField
          apply others
          rintro ⟨reader, inItems, isField⟩
          rcases List.mem_cons.1 inItems with isItem | inRest
          · rw [isItem] at isField
            exact notField isField
          · exact notRead ⟨reader, inRest, isField⟩

/-! ## Agreement of the formats -/

/-- Every field is read. -/
def DeterminesFields (format : List Char) : Prop :=
  ∀ field, ReadsField (formatItems format) field

/-- Every directive is one that the reader supports. -/
def SupportedFormat (format : List Char) : Prop :=
  ∀ item ∈ formatItems format, item.Supported

/-- What is written of a date is read as the same instant in the same zone. -/
def Agrees (format : List Char) (date : Date) : Prop :=
  ∃ parsed, parseDateString (formatDate format date) format = .ok parsed ∧
    parsed.equals date = true ∧
    parsed.timeZoneOffset = date.timeZoneOffset

/-- The date that the reader starts with. -/
def startDate : Date := { year := 1970, month := 1, day := 1 }

/-- The reader keeps the offset of the date. -/
structure OffsetKnown (format : List Char) (date : Date) : Prop where
  withZone : ReadsZone (formatItems format) →
    0 ≤ date.timeZoneOffset ∨ date.timeZoneOffset % 60 = 0
  withoutZone : ¬ReadsZone (formatItems format) → date.timeZoneOffset = 0

/-- The reader does not go wrong on what is written of a date. -/
structure Readable (format : List Char) (date : Date) : Prop where
  room : HasRoom date (formatItems format)
  offset : OffsetKnown format date
  century : CenturyKnown date (formatItems format)
  undisturbed : Undisturbed date (formatItems format) startDate

/-- Dates with the same fields and offset are the same instant. -/
theorem equals_of_fields {x y : Date} (first : x.Cached) (second : y.Cached)
    (fields : ∀ field, x.field field = y.field field)
    (offset : x.timeZoneOffset = y.timeZoneOffset) : x.equals y = true := by
  have same : x.universalTime = y.universalTime := by
    rw [first.universalTime, second.universalTime]
    have year : x.year = y.year := fields .year
    have month : x.month = y.month := fields .month
    have day : x.day = y.day := fields .day
    have hours : x.hours = y.hours := fields .hours
    have minutes : x.minutes = y.minutes := fields .minutes
    have seconds : x.seconds = y.seconds := fields .seconds
    rw [year, month, day, hours, minutes, seconds, offset]
  unfold Date.equals
  rw [same]
  exact decide_eq_true ⟨rfl, rfl⟩

theorem startDate_partial : startDate.Partial := by
  constructor
  · decide
  · decide
  · rfl

theorem parseDateString_eq (format : List Char) (date : Date) :
    parseDateString (formatDate format date) format =
      readItems (formatItems format) startDate
        (writeItems date (formatItems format)) := by
  unfold parseDateString formatDate
  rw [formatLoop_eq, parseLoop_eq]
  rfl

theorem parse_format_agrees (format : List Char) (date : Date)
    (valid : date.Valid) (supported : SupportedFormat format)
    (determined : DeterminesFields format) :
    (Readable format date → Agrees format date) ∧
      (Agrees format date →
        HasRoom date (formatItems format) ∧ OffsetKnown format date) := by
  obtain ⟨later, runs, isPartial, withZone, withoutZone⟩ :=
    assignItems_total valid (formatItems format) startDate_partial
  have reads : HasRoom date (formatItems format) →
      parseDateString (formatDate format date) format = .ok later := by
    intro room
    rw [parseDateString_eq, readItems_writeItems valid supported room, runs]
  have offsetIff : later.timeZoneOffset = date.timeZoneOffset ↔
      OffsetKnown format date := by
    by_cases readsZone : ReadsZone (formatItems format)
    · rw [withZone readsZone, offsetAsRead_eq_iff]
      constructor
      · intro readable
        exact ⟨fun _ => readable, fun noZone => absurd readsZone noZone⟩
      · intro known
        exact known.withZone readsZone
    · rw [withoutZone readsZone]
      constructor
      · intro isZero
        exact ⟨fun zone => absurd zone readsZone, fun _ => isZero.symm⟩
      · intro known
        exact (known.withoutZone readsZone).symm
  constructor
  · intro readable
    refine ⟨later, reads readable.room, ?_, offsetIff.2 readable.offset⟩
    apply equals_of_fields (Date.Cached.of_none isPartial.universal)
      valid.cached _ (offsetIff.2 readable.offset)
    intro field
    exact assignItems_fields valid startDate_partial readable.century
      readable.undisturbed (fun other notRead =>
        absurd (determined other) notRead) runs field
  · rintro ⟨parsed, parses, -, offset⟩
    have room : HasRoom date (formatItems format) := by
      by_contra noRoom
      obtain ⟨failure, stops⟩ := readItems_stops valid supported noRoom
        startDate
      rw [parseDateString_eq, stops] at parses
      cases parses
    rw [reads room] at parses
    cases parses
    exact ⟨room, offsetIff.1 offset⟩


/-! ## Formats without a zone -/

theorem undisturbed_of_noZone (date : Date) {items : List FormatItem}
    (noZone : ¬ReadsZone items) (known : Date) :
    Undisturbed date items known := by
  induction items generalizing known with
  | nil => exact trivial
  | cons item items ih =>
      intro later _
      constructor
      · intro isZone
        exact absurd ⟨item, List.mem_cons_self, isZone⟩ noZone
      · apply ih
        rintro ⟨zone, inItems, isZone⟩
        exact noZone ⟨zone, List.mem_cons_of_mem _ inItems, isZone⟩

/-- The format that is used for a date and a time. -/
def plainFormat : List Char := "%Y-%m-%d %H:%M:%S".toList

/-- The same with the zone at the end. -/
def zoneFormat : List Char := "%Y-%m-%d %H:%M:%S %z".toList

theorem plainFormat_items : formatItems plainFormat =
    [.directive false 'Y', .plain '-', .directive false 'm', .plain '-',
      .directive false 'd', .plain ' ', .directive false 'H', .plain ':',
      .directive false 'M', .plain ':', .directive false 'S'] := by
  decide

theorem zoneFormat_items : formatItems zoneFormat =
    [.directive false 'Y', .plain '-', .directive false 'm', .plain '-',
      .directive false 'd', .plain ' ', .directive false 'H', .plain ':',
      .directive false 'M', .plain ':', .directive false 'S', .plain ' ',
      .directive false 'z'] := by
  decide

theorem plainFormat_determines : DeterminesFields plainFormat := by
  intro field
  unfold ReadsField
  rw [plainFormat_items]
  cases field <;> decide

theorem zoneFormat_determines : DeterminesFields zoneFormat := by
  intro field
  unfold ReadsField
  rw [zoneFormat_items]
  cases field <;> decide

theorem plainFormat_supported : SupportedFormat plainFormat := by
  unfold SupportedFormat
  rw [plainFormat_items]
  decide

theorem zoneFormat_supported : SupportedFormat zoneFormat := by
  unfold SupportedFormat
  rw [zoneFormat_items]
  decide

theorem plainFormat_readable {date : Date}
    (universal : date.timeZoneOffset = 0) : Readable plainFormat date := by
  have noZone : ¬ReadsZone (formatItems plainFormat) := by
    unfold ReadsZone
    rw [plainFormat_items]
    decide
  constructor
  · rw [plainFormat_items]
    simp [HasRoom, FormatItem.HasRoom]
  · exact ⟨fun zone => absurd zone noZone, fun _ => universal⟩
  · rw [plainFormat_items]
    simp [CenturyKnown, FormatItem.IsShortYear]
  · exact undisturbed_of_noZone date noZone startDate

/-- The last day that the constructor admits. -/
theorem parse_format_agrees_lastDay : Agrees plainFormat lastDay :=
  (parse_format_agrees plainFormat lastDay lastDay_valid
    plainFormat_supported plainFormat_determines).1
    (plainFormat_readable rfl)

/-- A date east of Greenwich. -/
def eastDate : Date :=
  { year := 2000, month := 1, day := 1, timeZoneOffset := 60 }

theorem eastDate_valid : eastDate.Valid := by
  constructor
  · decide
  · constructor
    · constructor <;> decide
    · decide
    · decide
    · decide
    · decide
  · decide
  · exact Date.Cached.of_none rfl

/-- With the zone at the end the fields are moved although they were read in
that zone. -/
theorem not_agrees : ¬∀ (format : List Char) (date : Date), date.Valid →
    SupportedFormat format → DeterminesFields format →
      Agrees format date := by
  intro all
  obtain ⟨parsed, parses, same, -⟩ := all zoneFormat eastDate eastDate_valid
    zoneFormat_supported zoneFormat_determines
  have ends : parseDateString (formatDate zoneFormat eastDate) zoneFormat =
      .ok { eastDate with hours := 1 } := by
    decide
  rw [ends] at parses
  cases parses
  exact absurd same (by decide)

end OpenDylan.System.Dates
