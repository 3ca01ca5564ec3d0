import OpenDylan.System.DateRoundTrip

/-!
# Reading the fields of a date back

Each directive that writes a field of a date writes what the same directive of
`parse-date-string` reads, the names of the months included as long as enough
characters come after them.
-/

namespace OpenDylan.System.Dates

open OpenDylan.Lib OpenDylan.Lib.Gregorian

/-! ## Reading numbers -/

theorem characterToInteger_of_isDigit {char : Char}
    (isDigit : char.isDigit = true) :
    characterToInteger char = some ((char.toNat - '0'.toNat : Nat) : Int) := by
  unfold characterToInteger
  rw [if_pos isDigit]

theorem shiftDigits_digits {text : List Char}
    (isDigit : ∀ char ∈ text, char.isDigit = true) (value : Nat)
    (valid : Bool) :
    shiftDigits 1 value valid text =
      (((Nat.ofDigitChars 10 text value : Nat) : Int),
        valid || !text.isEmpty) := by
  induction text generalizing value valid with
  | nil =>
      show ((value : Int), valid) = ((value : Int), valid || false)
      rw [Bool.or_false]
  | cons char text ih =>
      have digit := isDigit char List.mem_cons_self
      have others : ∀ char ∈ text, char.isDigit = true := by
        intro char inText
        exact isDigit char (List.mem_cons_of_mem _ inText)
      have shifted : (value : Int) * 10 +
          ((char.toNat - '0'.toNat : Nat) : Int) * 1 =
            ((10 * value + (char.toNat - '0'.toNat) : Nat) : Int) := by
        omega
      rw [shiftDigits, characterToInteger_of_isDigit digit]
      show shiftDigits 1 _ true text = _
      rw [shifted, ih others, Nat.ofDigitChars_cons, Bool.true_or]
      exact congrArg (Prod.mk _) (Bool.or_true valid).symm

/-- A digit is neither white space nor a sign. -/
theorem isDigit_ordinary {char : Char} (isDigit : char.isDigit = true) :
    isLeftSpace char = false ∧ char ≠ '+' ∧ char ≠ '-' := by
  have noChar : ∀ other : Char, other.isDigit = false → char ≠ other := by
    intro other noDigit same
    rw [same, noDigit] at isDigit
    cases isDigit
  constructor
  · apply decide_eq_false
    rintro (same | same | same | same | same)
    · exact noChar ' ' (by decide) same
    · exact noChar '\n' (by decide) same
    · exact noChar '\r' (by decide) same
    · exact noChar '\x0c' (by decide) same
    · exact noChar '\t' (by decide) same
  · exact ⟨noChar '+' (by decide), noChar '-' (by decide)⟩

theorem stringToInteger_numeral {text : List Char} {width value : Nat}
    (numeral : IsNumeral text (width + 1) value) :
    stringToInteger text = some (value : Int) := by
  cases text with
  | nil => cases numeral.length_eq
  | cons char rest =>
      obtain ⟨noSpace, noPlus, noMinus⟩ :=
        isDigit_ordinary (numeral.isDigit char List.mem_cons_self)
      have digits := shiftDigits_digits numeral.isDigit 0 false
      rw [numeral.value_eq] at digits
      have unsigned : readSign (char :: rest) = (1, char :: rest) := by
        unfold readSign
        split
        · rename_i same
          exact absurd (List.cons.inj same).1 noPlus
        · rename_i same
          exact absurd (List.cons.inj same).1 noMinus
        · rfl
      unfold stringToInteger
      rw [List.dropWhile_cons, noSpace, if_neg Bool.false_ne_true, unsigned]
      dsimp only
      rw [Nat.cast_zero] at digits
      rw [digits]
      rfl

theorem stringToInteger_space (text : List Char) :
    stringToInteger (' ' :: text) = stringToInteger text :=
  rfl

theorem stringToInteger_wrap_zero {integer : Int} (nonneg : 0 ≤ integer)
    (small : integer < 100) :
    stringToInteger (wrap ['0'] integer) = some integer := by
  rw [stringToInteger_numeral (wrap_zero nonneg small),
    Int.toNat_of_nonneg nonneg]

theorem wrap_space {integer : Int} (nonneg : 0 ≤ integer)
    (small : integer < 100) :
    (wrap [' '] integer).length = 2 ∧
      stringToInteger (wrap [' '] integer) = some integer := by
  unfold wrap
  split
  · rename_i single
    have numeral := integerToString_single nonneg single
    constructor
    · rw [List.length_append, numeral.length_eq]
      rfl
    · show stringToInteger (' ' :: integerToString integer) = _
      rw [stringToInteger_space, stringToInteger_numeral numeral,
        Int.toNat_of_nonneg nonneg]
  · rename_i notSingle
    have numeral := integerToString_double (Int.not_lt.1 notSingle) small
    constructor
    · exact numeral.length_eq
    · rw [stringToInteger_numeral numeral, Int.toNat_of_nonneg nonneg]

theorem digits_getD {digit : Nat} (small : digit < 10) :
    digits.getD digit '0' = digit.digitChar := by
  interval_cases digit <;> rfl

/-- The last digits of a number. -/
theorem formatInteger_numeral {integer : Int} (nonneg : 0 ≤ integer)
    (width : Nat) :
    IsNumeral (formatInteger integer width) width
      (integer.toNat % 10 ^ width) := by
  induction width generalizing integer with
  | zero =>
      rw [pow_zero, Nat.mod_one]
      exact IsNumeral.nil
  | succ width ih =>
      have quotient : integer.fdiv 10 = ((integer.toNat / 10 : Nat) : Int) := by
        rw [fdiv_positive integer (by decide)]
        omega
      have remainder : (integer.fmod 10).toNat = integer.toNat % 10 := by
        rw [fmod_positive integer (by decide)]
        omega
      have small : integer.toNat % 10 < 10 := Nat.mod_lt _ (by decide)
      have front := @ih (integer.fdiv 10)
        (by rw [quotient]; exact Int.natCast_nonneg _)
      have all := front.concat small
      rw [← digits_getD small, ← remainder, quotient, Int.toNat_natCast] at all
      have value : 10 * (integer.toNat / 10 % 10 ^ width) +
          (integer.fmod 10).toNat = integer.toNat % 10 ^ (width + 1) := by
        rw [remainder, Nat.pow_succ', Nat.mod_mul]
        exact Nat.add_comm _ _
      rw [value, ← quotient] at all
      exact all

theorem readNumber_append {text : List Char} {count : Nat} {integer : Int}
    (length : text.length = count)
    (parses : stringToInteger text = some integer) (rest : List Char) :
    readNumber count (text ++ rest) = .ok (integer, rest) := by
  have within : count ≤ (text ++ rest).length := by
    rw [List.length_append, length]
    exact Nat.le_add_right _ _
  unfold readNumber read
  rw [if_pos within, ← length, List.take_left, List.drop_left]
  dsimp only [bind, Except.bind]
  rw [parses]
  rfl

/-! ## Reading the names of months -/

/-- No name is the beginning of another. -/
def Apart (names : List (List Char)) : Prop :=
  names.Pairwise fun first second => ¬first <+: second ∧ ¬second <+: first

instance (names : List (List Char)) : Decidable (Apart names) :=
  inferInstanceAs (Decidable (names.Pairwise _))

theorem monthNames_apart : Apart monthNames := by decide

theorem shortMonthNames_apart : Apart shortMonthNames := by decide

theorem read_append {text : List Char} {count : Nat}
    (length : text.length = count) (rest : List Char) :
    read count (text ++ rest) = .ok (text, rest) := by
  have within : count ≤ (text ++ rest).length := by
    rw [List.length_append, length]
    exact Nat.le_add_right _ _
  unfold read
  rw [if_pos within, ← length, List.take_left, List.drop_left]

theorem read_within {count : Nat} {stream : List Char}
    (within : count ≤ stream.length) :
    read count stream = .ok (stream.take count, stream.drop count) := by
  unfold read
  rw [if_pos within]

theorem read_beyond {count : Nat} {stream : List Char}
    (beyond : ¬count ≤ stream.length) :
    ∃ failure, read count stream = .error failure := by
  unfold read
  rw [if_neg beyond]
  split
  · exact ⟨_, rfl⟩
  · exact ⟨_, rfl⟩

/-- A name apart from the one that a text begins with does not match. -/
theorem ne_take {first second : List Char} (rest : List Char)
    (apart : ¬first <+: second ∧ ¬second <+: first) :
    first ≠ (second ++ rest).take first.length := by
  intro same
  have isPrefix : first <+: second ++ rest := by
    rw [same]
    exact List.take_prefix _ _
  rcases List.prefix_or_prefix_of_prefix isPrefix
    (List.prefix_append second rest) with before | after
  · exact apart.1 before
  · exact apart.2 after

/-- The names up to that of the month are tried with enough characters. -/
theorem parseMonth_append {names : List (List Char)} (apart : Apart names)
    {index : Nat} {name : List Char} (isName : names[index]? = some name)
    (rest : List Char) (room : ∀ other ∈ names.take index,
      other.length ≤ (name ++ rest).length) (month : Int) :
    parseMonth (name ++ rest) month names = .ok (month + index, rest) := by
  induction names generalizing index month with
  | nil => cases isName
  | cons first names ih =>
      have parts := List.pairwise_cons.1 apart
      cases index with
      | zero =>
          have same : first = name := Option.some.inj isName
          rw [parseMonth, same, read_append rfl]
          show (if name = name then Except.ok (month, rest) else _) = _
          rw [if_pos rfl]
          show _ = Except.ok (month + 0, rest)
          rw [Int.add_zero]
      | succ index =>
          have inNames : name ∈ names := List.mem_of_getElem? isName
          have within := room first List.mem_cons_self
          rw [parseMonth, read_within within]
          show (if first = (name ++ rest).take first.length then
              Except.ok (month, (name ++ rest).drop first.length)
            else parseMonth (name ++ rest) (month + 1) names) = _
          rw [if_neg (ne_take rest (parts.1 name inNames)),
            ih parts.2 isName fun other inTaken =>
              room other (List.mem_cons_of_mem _ inTaken)]
          congr 2
          omega

/-- Without enough characters for one of these names the month is not
found. -/
theorem parseMonth_stops {names : List (List Char)} (apart : Apart names)
    {index : Nat} {name : List Char} (isName : names[index]? = some name)
    (rest : List Char) (noRoom : ¬∀ other ∈ names.take index,
      other.length ≤ (name ++ rest).length) (month : Int) :
    ∃ failure, parseMonth (name ++ rest) month names = .error failure := by
  induction names generalizing index month with
  | nil => cases isName
  | cons first names ih =>
      have parts := List.pairwise_cons.1 apart
      cases index with
      | zero =>
          apply absurd _ noRoom
          intro other inTaken
          cases inTaken
      | succ index =>
          have inNames : name ∈ names := List.mem_of_getElem? isName
          by_cases within : first.length ≤ (name ++ rest).length
          · have stops := ih parts.2 isName (fun room => noRoom fun other
              inTaken => by
                rcases List.mem_cons.1 inTaken with isFirst | inRest
                · rw [isFirst]
                  exact within
                · exact room other inRest) (month + 1)
            rw [parseMonth, read_within within]
            show ∃ failure,
              (if first = (name ++ rest).take first.length then
                Except.ok (month, (name ++ rest).drop first.length)
              else parseMonth (name ++ rest) (month + 1) names) =
                .error failure
            rw [if_neg (ne_take rest (parts.1 name inNames))]
            exact stops
          · obtain ⟨failure, stops⟩ := read_beyond within
            rw [parseMonth, stops]
            exact ⟨failure, rfl⟩

/-! ## Reading the zone -/

/-- What is read of an offset as it is written: the minutes are added without
the sign. -/
def offsetAsRead (offset : Int) : Int :=
  (if offset < 0 then -1 else 1) * ((offset.natAbs : Int) / 60) * 60 +
    (offset.natAbs : Int) % 60

theorem offsetAsRead_eq_iff (offset : Int) :
    offsetAsRead offset = offset ↔ 0 ≤ offset ∨ offset % 60 = 0 := by
  unfold offsetAsRead
  split
  · omega
  · omega

theorem ok_bind {α β : Type} (value : α) (after : α → Except Failure β) :
    (Except.ok value >>= after) = after value :=
  rfl

/-- What is read of the parts that a zone is written in. -/
theorem readZone_parts {sign hoursText dots minutesText : List Char}
    {signNumber hours minutes : Int} {useDots : Bool}
    (signLength : sign.length = 1)
    (signParses : stringToInteger (sign ++ ['1']) = some signNumber)
    (hoursLength : hoursText.length = 2)
    (hoursParse : stringToInteger hoursText = some hours)
    (isDots : dots = if useDots then [':'] else [])
    (minutesLength : minutesText.length = 2)
    (minutesParse : stringToInteger minutesText = some minutes)
    (rest : List Char) :
    readZone useDots (sign ++ (hoursText ++ (dots ++ (minutesText ++ rest)))) =
      .ok (signNumber * hours * 60 + minutes, rest) := by
  unfold readZone
  rw [read_append signLength, ok_bind]
  show (read 2 (hoursText ++ (dots ++ (minutesText ++ rest))) >>= _) = _
  rw [read_append hoursLength, ok_bind, isDots]
  cases useDots with
  | false =>
      show (read 2 (minutesText ++ rest) >>= _) = _
      rw [read_append minutesLength, ok_bind]
      simp only [signParses, hoursParse, minutesParse]
      rfl
  | true =>
      show (read 1 ([':'] ++ (minutesText ++ rest)) >>= _) = _
      rw [read_append (show [':'].length = 1 from rfl), ok_bind]
      show (read 2 (minutesText ++ rest) >>= _) = _
      rw [read_append minutesLength, ok_bind]
      simp only [signParses, hoursParse, minutesParse]
      rfl

theorem readZone_formatDirective {date : Date}
    (offset : -1440 ≤ date.timeZoneOffset ∧ date.timeZoneOffset ≤ 1440)
    (useDots : Bool) (rest : List Char) :
    readZone useDots (formatDirective date useDots 'z' ++ rest) =
      .ok (offsetAsRead date.timeZoneOffset, rest) := by
  have hoursNonneg : 0 ≤ (date.timeZoneOffset.natAbs : Int) / 60 := by omega
  have minutesNonneg : 0 ≤ (date.timeZoneOffset.natAbs : Int) % 60 := by omega
  have hours := stringToInteger_wrap_zero hoursNonneg (by omega)
  have minutes := stringToInteger_wrap_zero minutesNonneg (by omega)
  have hoursLength := (wrap_zero hoursNonneg (by omega)).length_eq
  have minutesLength := (wrap_zero minutesNonneg (by omega)).length_eq
  rw [formatDirective_zone]
  unfold offsetAsRead
  split
  · rw [List.cons_append, List.append_assoc, List.append_assoc]
    have signParses : stringToInteger (['-'] ++ ['1']) = some (-1) := by decide
    exact readZone_parts rfl signParses hoursLength hours rfl minutesLength
      minutes rest
  · rw [List.cons_append, List.append_assoc, List.append_assoc]
    have signParses : stringToInteger (['+'] ++ ['1']) = some 1 := by decide
    exact readZone_parts rfl signParses hoursLength hours rfl minutesLength
      minutes rest

end OpenDylan.System.Dates
