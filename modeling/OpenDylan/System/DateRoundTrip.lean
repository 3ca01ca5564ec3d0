import OpenDylan.Lib.Numeral
import OpenDylan.System.DateArithmetic
import OpenDylan.System.DateStrings

/-!
# The round trip through ISO 8601

What is written for a field of a date is a numeral of the width that the
parser reads, so the parser gets back the field.
-/

namespace OpenDylan.System.Dates

open OpenDylan.Lib OpenDylan.Lib.Gregorian

/-! ## What is written is a numeral -/

theorem integerToString_of_nonneg {integer : Int} (nonneg : 0 ≤ integer) :
    integerToString integer = Nat.toDigits 10 integer.toNat := by
  unfold integerToString
  rw [if_neg (Int.not_lt.2 nonneg)]

theorem integerToString_single {integer : Int} (nonneg : 0 ≤ integer)
    (small : integer < 10) :
    IsNumeral (integerToString integer) 1 integer.toNat := by
  rw [integerToString_of_nonneg nonneg]
  apply IsNumeral.toDigits_single
  omega

theorem integerToString_double {integer : Int} (large : 10 ≤ integer)
    (small : integer < 100) :
    IsNumeral (integerToString integer) 2 integer.toNat := by
  rw [integerToString_of_nonneg (by omega)]
  show IsNumeral _ (1 + 1) _
  apply IsNumeral.toDigits_width
  · omega
  · omega

/-- The years that are admitted have four digits. -/
theorem integerToString_year {year : Int} (large : 1000 ≤ year)
    (small : year < 10000) :
    IsNumeral (integerToString year) 4 year.toNat := by
  rw [integerToString_of_nonneg (by omega)]
  show IsNumeral _ (3 + 1) _
  apply IsNumeral.toDigits_width
  · omega
  · omega

theorem wrap_zero {integer : Int} (nonneg : 0 ≤ integer)
    (small : integer < 100) :
    IsNumeral (wrap ['0'] integer) 2 integer.toNat := by
  unfold wrap
  split
  · rename_i single
    exact (integerToString_single nonneg single).cons_zero
  · rename_i notSingle
    exact integerToString_double (Int.not_lt.1 notSingle) small

/-! ## Running the parser -/

/-- What a parser that begins with another does after it. -/
theorem Scan.bind_ok {α β : Type} {first : Scan α} {value : α}
    {before after : Scanner} (ran : first before = .ok (value, after))
    (second : α → Scan β) :
    (first >>= second) before = second value after := by
  show (first before >>= fun result => second result.1 result.2) = _
  rw [ran]
  rfl

theorem peek_cons (idx : Nat) (char : Char) (rest : List Char) :
    peek ⟨idx, char :: rest⟩ = .ok (some char, ⟨idx, char :: rest⟩) :=
  rfl

theorem next_cons (idx : Nat) (char : Char) (rest : List Char) :
    next ⟨idx, char :: rest⟩ = .ok (char, ⟨idx + 1, rest⟩) :=
  rfl

theorem maybeSkip_cons (strict : Bool) (idx : Nat) (char : Char)
    (rest : List Char) :
    maybeSkip strict char ⟨idx, char :: rest⟩ = .ok ((), ⟨idx + 1, rest⟩) := by
  unfold maybeSkip
  rw [Scan.bind_ok (peek_cons idx char rest), if_pos rfl,
    Scan.bind_ok (next_cons idx char rest)]
  rfl

/-! ## What is read of a numeral -/

theorem readDigits_digits {text : List Char}
    (isDigit : ∀ char ∈ text, char.isDigit = true) (value idx : Nat)
    (rest : List Char) :
    readDigits text.length value ⟨idx, text ++ rest⟩ =
      .ok ((Nat.ofDigitChars 10 text value : Nat),
        ⟨idx + text.length, rest⟩) := by
  induction text generalizing value idx with
  | nil => rfl
  | cons char text ih =>
      have digit := isDigit_iff.1 (isDigit char List.mem_cons_self)
      have noFailure : ¬(char < '0' ∨ '9' < char) := by
        rintro (low | high)
        · exact absurd digit.1 (Char.not_le.2 low)
        · exact absurd digit.2 (Char.not_le.2 high)
      have zero : '0'.toNat ≤ char.toNat := digit.1
      have shifted : (10 * (value : Int) + char.toNat - '0'.toNat) =
          ((10 * value + (char.toNat - '0'.toNat) : Nat) : Int) := by
        omega
      show (next >>= _) _ = _
      rw [List.cons_append, Scan.bind_ok (next_cons idx char _),
        if_neg noFailure, shifted,
        ih (fun char inText => isDigit char (List.mem_cons_of_mem _ inText)),
        Nat.ofDigitChars_cons, List.length_cons, Nat.add_right_comm]
      rfl

/-- The parser reads a numeral of the width it expects. -/
theorem readInteger_numeral {text : List Char} {width : Nat} {integer : Int}
    (numeral : IsNumeral text width integer.toNat) (nonneg : 0 ≤ integer)
    (idx : Nat) (rest : List Char) :
    readInteger width ⟨idx, text ++ rest⟩ =
      .ok (integer, ⟨idx + width, rest⟩) := by
  have all := readDigits_digits numeral.isDigit 0 idx rest
  rw [numeral.length_eq, numeral.value_eq, Int.toNat_of_nonneg nonneg] at all
  exact all

/-! ## The string of a date -/

theorem asIso8601String_eq (date : Date) :
    asIso8601String date =
      integerToString date.year ++ ('-' :: (wrap ['0'] date.month ++
      ('-' :: (wrap ['0'] date.day ++ ('T' :: (wrap ['0'] date.hours ++
      (':' :: (wrap ['0'] date.minutes ++ (':' :: (wrap ['0'] date.seconds ++
      formatDirective date true 'z')))))))))) := by
  have format : "%Y-%m-%dT%H:%M:%S%:z".toList =
      ['%', 'Y', '-', '%', 'm', '-', '%', 'd', 'T', '%', 'H', ':', '%', 'M',
        ':', '%', 'S', '%', ':', 'z'] := by
    decide
  rw [asIso8601String, formatDate, format]
  simp [formatLoop, formatDirective]

/-- A zone begins with a letter or a sign. -/
theorem isZone_cons (strict : Bool) (idx : Nat) {char : Char}
    (noSpace : char ≠ ' ') (rest : List Char) :
    isZone strict ⟨idx, char :: rest⟩ =
      .ok (char = 'Z' ∨ char = 'z' ∨ char = '+' ∨ char = '-',
        ⟨idx, char :: rest⟩) := by
  unfold isZone
  rw [Scan.bind_ok (peek_cons idx char rest), if_neg]
  · show (peek >>= _) _ = _
    rw [Scan.bind_ok (peek_cons idx char rest)]
    simp only [Option.some.injEq]
    rfl
  · rintro ⟨-, isSpace⟩
    exact noSpace (Option.some.inj isSpace)

/-! ## Times and zones -/

/-- The hours and minutes of an offset after its sign. -/
theorem readOffset_sign (strict : Bool) (idx : Nat) {hours minutes : Int}
    {hoursText minutesText : List Char} (hoursNonneg : 0 ≤ hours)
    (minutesNonneg : 0 ≤ minutes)
    (hoursNumeral : IsNumeral hoursText 2 hours.toNat)
    (minutesNumeral : IsNumeral minutesText 2 minutes.toNat) (negative : Bool) :
    ∃ finish, readOffset strict ⟨idx, (if negative then '-' else '+') ::
        (hoursText ++ (':' :: minutesText))⟩ =
      .ok (if negative then 0 - (60 * hours + minutes)
        else 60 * hours + minutes, finish) := by
  have last := readInteger_numeral minutesNumeral minutesNonneg
    (idx + 1 + 2 + 1) []
  rw [List.append_nil] at last
  cases negative with
  | false =>
      refine ⟨⟨idx + 1 + 2 + 1 + 2, []⟩, ?_⟩
      unfold readOffset
      rw [if_neg Bool.false_ne_true, if_neg Bool.false_ne_true,
        Scan.bind_ok (isZone_cons strict idx (by decide) _)]
      show (next >>= _) _ = _
      rw [Scan.bind_ok (next_cons idx '+' _)]
      show (readInteger 2 >>= _) _ = _
      rw [Scan.bind_ok (readInteger_numeral hoursNumeral hoursNonneg _ _),
        Scan.bind_ok (maybeSkip_cons strict _ ':' _), Scan.bind_ok last]
      rfl
  | true =>
      refine ⟨⟨idx + 1 + 2 + 1 + 2, []⟩, ?_⟩
      unfold readOffset
      rw [if_pos rfl, if_pos rfl,
        Scan.bind_ok (isZone_cons strict idx (by decide) _)]
      show (next >>= _) _ = _
      rw [Scan.bind_ok (next_cons idx '-' _)]
      show (readInteger 2 >>= _) _ = _
      rw [Scan.bind_ok (readInteger_numeral hoursNumeral hoursNonneg _ _),
        Scan.bind_ok (maybeSkip_cons strict _ ':' _), Scan.bind_ok last]
      rfl

/-- How the offset of a date is written. -/
theorem formatDirective_zone (date : Date) (useDots : Bool) :
    formatDirective date useDots 'z' =
      (if date.timeZoneOffset < 0 then '-' else '+') ::
        (wrap ['0'] ((date.timeZoneOffset.natAbs : Int) / 60) ++
        ((if useDots then [':'] else []) ++
          wrap ['0'] ((date.timeZoneOffset.natAbs : Int) % 60))) := by
  have hoursEq : ((date.timeZoneOffset.natAbs : Int)).fdiv 60 =
      (date.timeZoneOffset.natAbs : Int) / 60 := fdiv_positive _ (by decide)
  have minutesEq : ((date.timeZoneOffset.natAbs : Int)).fmod 60 =
      (date.timeZoneOffset.natAbs : Int) % 60 := fmod_positive _ (by decide)
  rw [← hoursEq, ← minutesEq]
  by_cases negative : date.timeZoneOffset < 0
  · simp [formatDirective, negative]
  · simp [formatDirective, negative]

theorem formatDirective_sign (date : Date) :
    ∃ sign rest, formatDirective date true 'z' = sign :: rest ∧
      (sign = '+' ∨ sign = '-') := by
  refine ⟨_, _, formatDirective_zone date true, ?_⟩
  split
  · exact Or.inr rfl
  · exact Or.inl rfl

/-- The offset of a date is read as it is written. -/
theorem readOffset_formatDirective (strict : Bool) (idx : Nat) {date : Date}
    (offset : -1440 ≤ date.timeZoneOffset ∧ date.timeZoneOffset ≤ 1440) :
    ∃ finish, readOffset strict ⟨idx, formatDirective date true 'z'⟩ =
      .ok (date.timeZoneOffset, finish) := by
  have hoursNonneg : 0 ≤ (date.timeZoneOffset.natAbs : Int) / 60 := by omega
  have minutesNonneg : 0 ≤ (date.timeZoneOffset.natAbs : Int) % 60 := by omega
  obtain ⟨finish, ran⟩ := readOffset_sign strict idx hoursNonneg
    minutesNonneg (wrap_zero hoursNonneg (by omega))
    (wrap_zero minutesNonneg (by omega)) (date.timeZoneOffset < 0)
  refine ⟨finish, ?_⟩
  rw [formatDirective_zone]
  by_cases negative : date.timeZoneOffset < 0
  · rw [decide_eq_true negative, if_pos rfl, if_pos rfl] at ran
    rw [if_pos negative]
    apply ran.trans
    congr
    omega
  · rw [decide_eq_false negative, if_neg Bool.false_ne_true,
      if_neg Bool.false_ne_true] at ran
    rw [if_neg negative]
    apply ran.trans
    congr
    omega

/-- Seconds that are written before the zone. -/
theorem readSeconds_numeral (strict : Bool) (idx : Nat) {seconds : Int}
    {secondsText : List Char} (nonneg : 0 ≤ seconds)
    (numeral : IsNumeral secondsText 2 seconds.toNat) {sign : Char}
    (isSign : sign = '+' ∨ sign = '-') (rest : List Char) :
    readSeconds strict ⟨idx, ':' :: (secondsText ++ sign :: rest)⟩ =
      .ok ((seconds, 0), ⟨idx + 1 + 2, sign :: rest⟩) := by
  unfold readSeconds
  rw [Scan.bind_ok (isZone_cons strict idx (by decide) _)]
  show (maybeSkip strict ':' >>= _) _ = _
  rw [Scan.bind_ok (maybeSkip_cons strict idx ':' _),
    Scan.bind_ok (readInteger_numeral numeral nonneg _ _),
    Scan.bind_ok (peek_cons _ sign _), if_neg]
  · rfl
  · rintro isDot
    rcases isSign with plus | minus
    · rw [plus] at isDot
      exact absurd isDot (by decide)
    · rw [minus] at isDot
      exact absurd isDot (by decide)

/-! ## The round trip -/

/-- The fields that are written are those that are read. -/
theorem splitIso8601String_asIso8601String (strict : Bool) {date : Date}
    (valid : date.Valid) :
    ∃ finish, splitIso8601String strict ⟨0, asIso8601String date⟩ =
      .ok ({ date with microseconds := 0, universal := none }, finish) := by
  have canonical := valid.canonical
  have isDate := canonical.isDate
  have monthPos := isDate.month_pos
  have monthLe := isDate.month_le
  have dayPos := isDate.day_pos
  have dayLe := isDate.day_le
  have yearBounds := valid.year
  have hours := canonical.hours
  have minutes := canonical.minutes
  have seconds := canonical.seconds
  have short := monthLength_le date.year date.month
  obtain ⟨sign, zone, written, isSign⟩ := formatDirective_sign date
  obtain ⟨finish, offset⟩ := readOffset_formatDirective strict
    (0 + 4 + 1 + 2 + 1 + 2 + 1 + 2 + 1 + 2 + 1 + 2) valid.timeZoneOffset
  refine ⟨finish, ?_⟩
  rw [written] at offset
  rw [asIso8601String_eq, written]
  unfold splitIso8601String
  rw [Scan.bind_ok (readInteger_numeral
      (integerToString_year (by omega) (by omega)) (by omega) _ _),
    Scan.bind_ok (peek_cons _ '-' _)]
  show (maybeSkip strict '-' >>= _) _ = _
  rw [Scan.bind_ok (maybeSkip_cons strict _ '-' _),
    Scan.bind_ok (readInteger_numeral (wrap_zero (by omega) (by omega))
      (by omega) _ _),
    Scan.bind_ok (peek_cons _ '-' _)]
  show (maybeSkip strict '-' >>= _) _ = _
  rw [Scan.bind_ok (maybeSkip_cons strict _ '-' _),
    Scan.bind_ok (readInteger_numeral (wrap_zero (by omega) (by omega))
      (by omega) _ _),
    Scan.bind_ok (peek_cons _ 'T' _)]
  show (peek >>= _) _ = _
  rw [Scan.bind_ok (peek_cons _ 'T' _), if_pos (Or.inl rfl),
    Scan.bind_ok (next_cons _ 'T' _)]
  show (readInteger 2 >>= _) _ = _
  rw [Scan.bind_ok (readInteger_numeral (wrap_zero (by omega) (by omega))
      (by omega) _ _),
    Scan.bind_ok (maybeSkip_cons strict _ ':' _),
    Scan.bind_ok (readInteger_numeral (wrap_zero (by omega) (by omega))
      (by omega) _ _),
    Scan.bind_ok (readSeconds_numeral strict _ (by omega)
      (wrap_zero (by omega) (by omega)) isSign _)]
  show (readOffset strict >>= _) _ = _
  rw [Scan.bind_ok offset]
  rfl

/-- Every date that the constructor admits is read back from its string, with
all fields but the microseconds, which are not written. -/
theorem iso8601_round_trip (date : Date) (strict : Bool)
    (valid : date.Valid) :
    ∃ parsed, parseIso8601String strict (asIso8601String date) = .ok parsed ∧
      parsed.year = date.year ∧ parsed.month = date.month ∧
      parsed.day = date.day ∧ parsed.hours = date.hours ∧
      parsed.minutes = date.minutes ∧ parsed.seconds = date.seconds ∧
      parsed.timeZoneOffset = date.timeZoneOffset := by
  obtain ⟨finish, split⟩ := splitIso8601String_asIso8601String strict valid
  have canonical :
      Date.Canonical { date with microseconds := 0, universal := none } := by
    constructor
    · exact valid.canonical.isDate
    · exact valid.canonical.hours
    · exact valid.canonical.minutes
    · exact valid.canonical.seconds
    · show (0 : Int) ≤ 0 ∧ (0 : Int) < 1000000
      decide
  have made := makeDate_eq canonical valid.timeZoneOffset
  rw [if_pos valid.year] at made
  refine ⟨{ date with microseconds := 0, universal := none }, ?_, rfl, rfl,
    rfl, rfl, rfl, rfl, rfl⟩
  unfold parseIso8601String
  rw [split]
  show (makeDate _).mapError Failure.refused = _
  rw [made]
  rfl

/-- The last day that the constructor admits. -/
theorem iso8601_round_trip_lastDay :
    ∃ parsed, parseIso8601String true (asIso8601String lastDay) = .ok parsed ∧
      parsed.year = 2199 ∧ parsed.month = 12 ∧ parsed.day = 31 := by
  obtain ⟨parsed, parses, year, month, day, _⟩ :=
    iso8601_round_trip lastDay true lastDay_valid
  exact ⟨parsed, parses, year, month, day⟩

end OpenDylan.System.Dates
