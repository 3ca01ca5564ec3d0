import OpenDylan.Numbers.IntegerPowers

/-!
# Printing and reading integers

An integer is printed from its last digit on, and its first digit by hand if it
is negative, so that the least integer can be printed.  It is read with its
sign at every digit, so that the least integer can be read.  A machine word is
printed as two integers of half its size.
-/

namespace OpenDylan.Numbers.IntegerStrings

open OpenDylan.Lib OpenDylan.Lib.TwoWords

/-! ## Characters -/

/-- `$number-characters` -/
def numberCharacters : List Char := "0123456789ABCDEFGHIJKLMNOPQRSTUVWXYZ".toList

/-- The numbers from one to another below it, as elements of a vector. -/
def numbers (first past : Nat) : List (Option Nat) :=
  (List.range' first (past - first)).map some

/-- `$character-numbers` -/
def characterNumbers : List (Option Nat) :=
  List.replicate 48 none ++ numbers 0 10 ++ List.replicate 7 none ++
    numbers 10 36 ++ List.replicate 6 none ++ numbers 10 36 ++
    List.replicate 5 none

/-- What keeps an operation from returning; `unending` stands for a loop that
does not end. -/
inductive Stop where
  | arithmetic (failure : Failure)
  | elementRange (index : Int)
  | baseAssertion (base : Nat)
  | startAssertion (start length : Nat)
  | endAssertion (stop length : Nat)
  | noInteger (string : List Char)
  | unending
deriving DecidableEq

/-- `integer-to-character` -/
def integerToCharacter (integer : Int) : Except Stop Char :=
  match numberCharacters[integer.toNat]? with
  | some character =>
      if 0 ≤ integer then .ok character else .error (.elementRange integer)
  | none => .error (.elementRange integer)

/-- `character-to-integer` -/
def characterToInteger (character : Char) : Option Nat :=
  (characterNumbers[character.toNat]?).join

/-- `as-lowercase` of a character of a number. -/
def asLowercase (character : Char) : Char := character.toLower

/-- An arithmetic result, which an `<integer>` must hold. -/
def checked (bits : Nat) (value : Int) : Except Stop Int :=
  if Holds bits value then .ok value
  else .error (.arithmetic .arithmeticOverflow)

/-! ## Printing -/

/-- The loop of `integer-to-string`, with a bound on its rounds. -/
def digitsLoop (base : Nat) :
    Nat → Int → List Char → Except Stop (List Char)
  | 0, _, _ => .error .unending
  | rounds + 1, integer, buffer =>
      if integer = 0 then
        .ok buffer
      else do
        let character ← integerToCharacter (integer.tmod base)
        digitsLoop base rounds (integer.tdiv base) (buffer ++ [character])

/-- What `integer-to-string` puts into the buffer before the loop, and the
integer that is left; the first digit of a negative integer is done by hand. -/
def firstDigit (bits base : Nat) (integer : Int) :
    Except Stop (List Char × Int) :=
  if integer = 0 then
    .ok (['0'], integer)
  else if integer < 0 then do
    let remainder ← checked bits (-integer.tmod base)
    let character ← integerToCharacter remainder
    let integer ← checked bits (-integer.tdiv base)
    return ([character], integer)
  else
    .ok ([], integer)

/-- How often `integer-to-string` puts in the fill character. -/
def remaining (bits : Nat) (integer size : Int) (count : Nat) :
    Except Stop Int := do
  let remaining ← checked bits (size - count)
  if integer < 0 then checked bits (remaining - 1) else return remaining

/-- `integer-to-string` -/
def integerToString (bits : Nat) (integer : Int) (base : Nat) (size : Int)
    (fill : Char) (isLowercase : Bool) : Except Stop (List Char) :=
  if 2 ≤ base ∧ base ≤ 36 then do
    let (buffer, rest) ← firstDigit bits base integer
    let buffer ← digitsLoop base (rest.natAbs + 1) rest buffer
    let remaining ← remaining bits integer size buffer.length
    let sign := if integer < 0 then ['-'] else []
    let buffer := buffer ++ List.replicate remaining.toNat fill ++ sign
    return buffer.reverse.map (if isLowercase then asLowercase else id)
  else
    .error (.baseAssertion base)

/-! ## Reading -/

/-- The characters that are skipped on the left. -/
def isSpace (character : Char) : Bool :=
  character ∈ [' ', '\n', '\r', Char.ofNat 12, '\t']

/-- The loop that skips whitespace: what is left of the string, and its
start. -/
def skipSpace : List Char → Nat → List Char × Nat
  | [], start => ([], start)
  | character :: rest, start =>
      if isSpace character then skipSpace rest (start + 1)
      else (character :: rest, start)

/-- The sign of what is left of a string. -/
def readSign : List Char → Nat → Int × List Char × Nat
  | '+' :: rest, start => (1, rest, start + 1)
  | '-' :: rest, start => (-1, rest, start + 1)
  | rest, start => (1, rest, start)

/-- The loop of `string-to-integer`: the value, whether it is valid, and the
next key. -/
def readDigits (bits base : Nat) (sign : Int) :
    List Char → Nat → Int → Bool → Except Stop (Int × Bool × Nat)
  | [], stop, value, isValid => .ok (value, isValid, stop)
  | character :: rest, i, value, isValid =>
      match characterToInteger character with
      | none => .ok (value, isValid, i)
      | some digit =>
          if digit ≥ base then
            .ok (value, isValid, i)
          else do
            let product ← checked bits (value * base)
            let signed ← checked bits (digit * sign)
            let value ← checked bits (product + signed)
            readDigits bits base sign rest (i + 1) value true

/-- `string-to-integer`; `none` is an end or a default that is not supplied. -/
def stringToInteger (bits : Nat) (string : List Char) (base start : Nat)
    (stop : Option Nat) (default : Option Int) : Except Stop (Int × Nat) :=
  let finish := stop.getD string.length
  if ¬ (start = 0 ∨ (start > 0 ∧ start < string.length)) then
    .error (.startAssertion start string.length)
  else if ¬ (finish ≥ start ∧ finish ≤ string.length) then
    .error (.endAssertion finish string.length)
  else if ¬ (2 ≤ base ∧ base ≤ 36) then
    .error (.baseAssertion base)
  else do
    let (left, next) := skipSpace ((string.take finish).drop start) start
    let (sign, left, next) := readSign left next
    let (value, isValid, nextKey) ← readDigits bits base sign left next 0 false
    if isValid then return (value, nextKey)
    else match default with
      | none => .error (.noInteger string)
      | some value => return (value, start)

/-! ## Machine words -/

variable {bits : Nat}

/-- `coerce-machine-word-to-integer` within a conversion. -/
def coerced (word : Word bits) : Except Stop Int :=
  ((coerceMachineWordToInteger word).map SmallInteger.value).mapError
    .arithmetic

/-- `machine-word-to-string` -/
def machineWordToString (word : Word bits) (pre : Option (List Char)) :
    Except Stop (List Char) := do
  let halfwordSize := machineWordSize bits / 2
  let digitsPerHalfword := halfwordSize / 4
  let high ← coerced (word >>> halfwordSize)
  let low ← coerced ((word <<< halfwordSize) >>> halfwordSize)
  let highDigits ←
    integerToString bits high 16 digitsPerHalfword '0' false
  let lowDigits ←
    integerToString bits low 16 digitsPerHalfword '0' false
  return pre.getD [] ++ highDigits ++ lowDigits

/-- The loop of `string-to-machine-word`, from a start on. -/
def readWord (start : Nat) :
    List Char → Nat → Word bits → Word bits × Option Nat
  | [], stop, value => (value, some stop)
  | character :: rest, i, value =>
      match characterToInteger character with
      | none => (value, if i > start then some i else none)
      | some digit =>
          if digit ≥ 16 then
            (value, if i > start then some i else none)
          else
            readWord start rest (i + 1)
              (value <<< 4 ||| BitVec.ofNat (bits + 3) digit)

/-- Common prefixes are removed, if something is left. -/
def skipPrefix : List Char → Nat → List Char × Nat
  | '#' :: 'x' :: character :: rest, start => (character :: rest, start + 2)
  | '0' :: 'x' :: character :: rest, start => (character :: rest, start + 2)
  | left, start => (left, start)

/-- `string-to-machine-word` -/
def stringToMachineWord (string : List Char) (start : Nat)
    (stop : Option Nat) (default : Option (Word bits)) :
    Except Stop (Word bits × Nat) :=
  let finish := stop.getD string.length
  if ¬ start < string.length then
    .error (.startAssertion start string.length)
  else if ¬ (finish ≥ start ∧ finish ≤ string.length) then
    .error (.endAssertion finish string.length)
  else
    let (left, next) := skipSpace ((string.take finish).drop start) start
    let (left, next) := skipPrefix left next
    match readWord next left next 0 with
    | (value, some nextKey) => .ok (value, nextKey)
    | (_, none) =>
        match default with
        | none => .error (.noInteger string)
        | some value => .ok (value, next)

/-! ## Digits and characters -/

/-- The character of a digit, in either case. -/
def digitCharacter (isLowercase : Bool) (digit : Nat) : Char :=
  (if isLowercase then asLowercase else id)
    (numberCharacters.getD digit '0')

theorem characterToInteger_digit (isLowercase : Bool) {digit : Nat}
    (small : digit < 36) :
    characterToInteger (digitCharacter isLowercase digit) = some digit := by
  have all : ∀ isLowercase : Bool, ∀ digit : Fin 36,
      characterToInteger (digitCharacter isLowercase digit) =
        some (digit : Nat) := by
    decide +kernel
  exact all isLowercase ⟨digit, small⟩

theorem integerToCharacter_digit {digit : Nat} (small : digit < 36) :
    integerToCharacter digit = .ok (digitCharacter false digit) := by
  have all : ∀ digit : Fin 36, integerToCharacter (digit : Nat) =
      .ok (digitCharacter false digit) := by
    decide +kernel
  exact all ⟨digit, small⟩

theorem isSpace_digit (isLowercase : Bool) {digit : Nat}
    (small : digit < 36) :
    isSpace (digitCharacter isLowercase digit) = false := by
  have all : ∀ isLowercase : Bool, ∀ digit : Fin 36,
      isSpace (digitCharacter isLowercase digit) = false := by
    decide +kernel
  exact all isLowercase ⟨digit, small⟩

theorem digit_ne_sign (isLowercase : Bool) {digit : Nat}
    (small : digit < 36) :
    digitCharacter isLowercase digit ≠ '+' ∧
      digitCharacter isLowercase digit ≠ '-' := by
  have all : ∀ isLowercase : Bool, ∀ digit : Fin 36,
      digitCharacter isLowercase digit ≠ '+' ∧
        digitCharacter isLowercase digit ≠ '-' := by
    decide +kernel
  exact all isLowercase ⟨digit, small⟩

theorem holds_natCast_iff (magnitude : Nat) :
    Holds bits (magnitude : Int) ↔ magnitude < 2 ^ bits := by
  have cast : ((2 ^ bits : Nat) : Int) = 2 ^ bits := by
    push_cast
    rfl
  unfold Holds
  omega

theorem checked_holds {value : Int} (holds : Holds bits value) :
    checked bits value = .ok value :=
  if_pos holds

/-! ## What is printed -/

/-- The digits of a natural number, the last one first. -/
def writtenDigits (base magnitude : Nat) : List Nat :=
  if magnitude = 0 then [0] else Nat.digits base magnitude

theorem writtenDigits_ne_nil (base magnitude : Nat) :
    writtenDigits base magnitude ≠ [] := by
  unfold writtenDigits
  split
  · exact List.cons_ne_nil _ _
  · rwa [Nat.digits_ne_nil_iff_ne_zero]

theorem ofDigits_writtenDigits (base magnitude : Nat) :
    Nat.ofDigits base (writtenDigits base magnitude) = magnitude := by
  unfold writtenDigits
  split
  case isTrue zero => simp [zero]
  case isFalse => exact Nat.ofDigits_digits base magnitude

theorem writtenDigits_lt {base magnitude : Nat} (two : 2 ≤ base) :
    ∀ digit ∈ writtenDigits base magnitude, digit < base := by
  intro digit member
  unfold writtenDigits at member
  split at member
  · rw [List.mem_singleton] at member
    omega
  · exact Nat.digits_lt_base two member

/-- A number has no more digits than the power that is above it. -/
theorem writtenDigits_length_le {base magnitude count : Nat}
    (two : 2 ≤ base) (positive : 0 < count)
    (below : magnitude < base ^ count) :
    (writtenDigits base magnitude).length ≤ count := by
  unfold writtenDigits
  split
  · exact positive
  · exact (Nat.digits_length_le_iff two magnitude).mpr below

/-- The loop adds the digits of what is left. -/
theorem digitsLoop_eq {base : Nat} (two : 2 ≤ base) (top : base ≤ 36)
    (rounds magnitude : Nat) (buffer : List Char)
    (enough : magnitude < rounds) :
    digitsLoop base rounds magnitude buffer =
      .ok (buffer ++
        (Nat.digits base magnitude).map (digitCharacter false)) := by
  induction rounds generalizing magnitude buffer with
  | zero => omega
  | succ rounds step =>
      unfold digitsLoop
      by_cases zero : magnitude = 0
      · subst zero
        simp
      · have positive : 0 < magnitude := Nat.pos_of_ne_zero zero
        have nonzero : (magnitude : Int) ≠ 0 := by omega
        have less : magnitude / base < rounds := by
          have := Nat.div_lt_self positive two
          omega
        have small : magnitude % base < 36 := by
          have := Nat.mod_lt magnitude (show 0 < base by omega)
          omega
        rw [if_neg nonzero, ← Int.ofNat_tmod, ← Int.ofNat_tdiv,
          integerToCharacter_digit small, Nat.digits_def' two positive,
          List.map_cons, List.append_cons]
        exact step _ _ less

/-- The digits of an integer with the zeros in front of them, the last digit
first. -/
def paddedDigits (base : Nat) (integer : Int) (size : Nat) : List Nat :=
  let digits := writtenDigits base integer.natAbs
  let sign := if integer < 0 then 1 else 0
  digits ++ List.replicate (size - digits.length - sign) 0

/-- The first digit of a negative integer is taken from its magnitude. -/
theorem firstDigit_eq {base : Nat} (two : 2 ≤ base) (top : base ≤ 36)
    (baseHolds : Holds bits base) {integer : Int}
    (holds : Holds bits integer) :
    ∃ buffer, ∃ rest : Nat,
      firstDigit bits base integer = .ok (buffer, (rest : Int)) ∧
        buffer ++ (Nat.digits base rest).map (digitCharacter false) =
          (writtenDigits base integer.natAbs).map (digitCharacter false) := by
  by_cases zero : integer = 0
  · subst zero
    exact ⟨['0'], 0, rfl, by simp [writtenDigits]; rfl⟩
  by_cases negative : integer < 0
  · have magnitude : integer = -(integer.natAbs : Int) := by omega
    have positive : 0 < integer.natAbs := by omega
    have small : integer.natAbs % base < 36 := by
      have := Nat.mod_lt integer.natAbs (show 0 < base by omega)
      omega
    have remainder : -integer.tmod base =
        ((integer.natAbs % base : Nat) : Int) := by
      rw [magnitude, Int.neg_tmod, Int.neg_neg, Int.natAbs_neg,
        Int.natAbs_natCast, Int.ofNat_tmod]
    have quotient : -integer.tdiv base =
        ((integer.natAbs / base : Nat) : Int) := by
      rw [magnitude, Int.neg_tdiv, Int.neg_neg, Int.natAbs_neg,
        Int.natAbs_natCast, Int.ofNat_tdiv]
    have half : integer.natAbs / base < 2 ^ bits := by
      have := Nat.div_lt_self positive two
      have := holds.1
      have cast : ((2 ^ bits : Nat) : Int) = 2 ^ bits := by push_cast; rfl
      omega
    have digit : integer.natAbs % base < 2 ^ bits := by
      have := Nat.mod_lt integer.natAbs (show 0 < base by omega)
      have := (holds_natCast_iff base).mp baseHolds
      omega
    refine ⟨[digitCharacter false (integer.natAbs % base)],
      integer.natAbs / base, ?_, ?_⟩
    · unfold firstDigit
      rw [if_neg zero, if_pos negative, remainder, quotient,
        checked_holds ((holds_natCast_iff _).mpr digit),
        checked_holds ((holds_natCast_iff _).mpr half)]
      show (integerToCharacter _ >>= _) = _
      rw [integerToCharacter_digit small]
      rfl
    · rw [writtenDigits, if_neg (by omega), Nat.digits_def' two positive]
      rfl
  · refine ⟨[], integer.natAbs, ?_, ?_⟩
    · unfold firstDigit
      rw [if_neg zero, if_neg negative]
      congr 2
      omega
    · rw [writtenDigits, if_neg (by omega)]
      rfl

theorem paddedDigits_ne_nil (base : Nat) (integer : Int) (size : Nat) :
    paddedDigits base integer size ≠ [] :=
  List.append_ne_nil_of_left_ne_nil (writtenDigits_ne_nil _ _) _

theorem ofDigits_paddedDigits (base : Nat) (integer : Int) (size : Nat) :
    Nat.ofDigits base (paddedDigits base integer size) = integer.natAbs := by
  unfold paddedDigits
  rw [Nat.ofDigits_append_replicate_zero, ofDigits_writtenDigits]

theorem paddedDigits_lt {base : Nat} (two : 2 ≤ base) (integer : Int)
    (size : Nat) : ∀ digit ∈ paddedDigits base integer size, digit < base := by
  intro digit member
  rcases List.mem_append.mp member with written | zero
  · exact writtenDigits_lt two digit written
  · have := List.eq_of_mem_replicate zero
    omega

/-- What is printed for an integer. -/
def printed (base : Nat) (integer : Int) (size : Nat) (isLowercase : Bool) :
    List Char :=
  (if integer < 0 then ['-'] else []) ++
    (paddedDigits base integer size).reverse.map (digitCharacter isLowercase)

/-- A padding size leaves no more to fill than an integer holds. -/
theorem remaining_eq {integer : Int} {size count : Nat}
    (room : Holds bits (-(count : Int) - 1)) (sizeHolds : Holds bits size) :
    remaining bits integer size count =
      .ok (size - count - (if integer < 0 then 1 else 0)) := by
  have first : Holds bits ((size : Int) - count) := by
    unfold Holds at *
    omega
  have second : Holds bits ((size : Int) - count - 1) := by
    unfold Holds at *
    omega
  unfold remaining
  rw [checked_holds first]
  show (if integer < 0 then _ else _) = _
  split
  · exact checked_holds second
  · simp only [Int.sub_zero]
    rfl

/-- There are not more digits than an integer holds. -/
theorem holds_writtenDigits {base : Nat} (two : 2 ≤ base)
    (baseHolds : Holds bits base) {integer : Int}
    (holds : Holds bits integer) :
    Holds bits
      (-((writtenDigits base integer.natAbs).length : Int) - 1) := by
  have room : 1 < bits := by
    rw [holds_natCast_iff] at baseHolds
    by_contra few
    have : 2 ^ bits ≤ 2 ^ 1 := Nat.pow_le_pow_right (by decide) (by omega)
    omega
  have below : integer.natAbs < base ^ (bits + 1) := by
    have := Nat.pow_le_pow_left two (bits + 1)
    have := Nat.pow_lt_pow_right (show 1 < 2 by decide) (Nat.lt_succ_self bits)
    have cast : ((2 ^ bits : Nat) : Int) = 2 ^ bits := by push_cast; rfl
    unfold Holds at holds
    omega
  have length := writtenDigits_length_le two (Nat.succ_pos bits) below
  have large : bits + 2 ≤ 2 ^ bits := by
    obtain ⟨more, rfl⟩ := Nat.exists_eq_add_of_lt room
    have := @Nat.lt_two_pow_self more
    have split : 2 ^ (1 + more + 1) = 2 ^ more * 4 := by
      rw [show 1 + more + 1 = more + 2 by omega, Nat.pow_add]
    omega
  have cast : ((2 ^ bits : Nat) : Int) = 2 ^ bits := by push_cast; rfl
  unfold Holds
  omega

theorem map_digitCharacter (isLowercase : Bool) (digits : List Nat) :
    (digits.map (digitCharacter false)).map
        (if isLowercase then asLowercase else id) =
      digits.map (digitCharacter isLowercase) := by
  rw [List.map_map]
  rfl

/-- Every integer is printed, with its digits padded by zeros. -/
theorem integerToString_eq {base : Nat} (two : 2 ≤ base) (top : base ≤ 36)
    (baseHolds : Holds bits base) {integer : Int}
    (holds : Holds bits integer) {size : Nat} (sizeHolds : Holds bits size)
    (isLowercase : Bool) :
    integerToString bits integer base size '0' isLowercase =
      .ok (printed base integer size isLowercase) := by
  obtain ⟨buffer, rest, first, digits⟩ :=
    firstDigit_eq two top baseHolds holds
  have loop := digitsLoop_eq two top (rest + 1) rest buffer
    (Nat.lt_succ_self rest)
  rw [digits] at loop
  have left := @remaining_eq bits integer _ _
    (holds_writtenDigits two baseHolds holds) sizeHolds
  unfold integerToString
  rw [if_pos ⟨two, top⟩, first]
  show (digitsLoop base ((rest : Int).natAbs + 1) rest buffer >>= _) = _
  rw [Int.natAbs_natCast, loop]
  show (remaining bits integer size _ >>= _) = _
  rw [List.length_map, left]
  show Except.ok _ = _
  have fill : ((size : Int) - (writtenDigits base integer.natAbs).length -
      (if integer < 0 then 1 else 0)).toNat =
        size - (writtenDigits base integer.natAbs).length -
          (if integer < 0 then 1 else 0) := by
    split <;> omega
  have zero : (if isLowercase then asLowercase else id) '0' =
      digitCharacter isLowercase 0 := by
    cases isLowercase <;> decide
  have sign : ((if integer < 0 then ['-'] else []).map
      (if isLowercase then asLowercase else id)).reverse =
        if integer < 0 then ['-'] else [] := by
    by_cases negative : integer < 0
    · rw [if_pos negative]
      cases isLowercase <;> decide
    · rw [if_neg negative]
      rfl
  rw [printed, paddedDigits, fill]
  simp only [List.map_reverse, List.map_append, List.map_replicate,
    List.reverse_append, map_digitCharacter, zero, sign]

/-! ## What is read -/

/-- The magnitude of digits, the first of which is the highest. -/
def magnitudeOf (base : Nat) (digits : List Nat) (magnitude : Nat) : Nat :=
  digits.foldl (fun value digit => value * base + digit) magnitude

theorem magnitudeOf_reverse (base : Nat) (digits : List Nat) :
    magnitudeOf base digits.reverse 0 = Nat.ofDigits base digits := by
  unfold magnitudeOf
  rw [List.foldl_reverse, Nat.ofDigits_eq_foldr]
  congr 1
  funext digit value
  rw [Nat.cast_id, Nat.mul_comm, Nat.add_comm]

/-- A magnitude does not get smaller by more digits. -/
theorem le_magnitudeOf {base : Nat} (positive : 0 < base)
    (digits : List Nat) (magnitude : Nat) :
    magnitude ≤ magnitudeOf base digits magnitude := by
  induction digits generalizing magnitude with
  | nil => exact Nat.le_refl _
  | cons digit digits step =>
      have first := step (magnitude * base + digit)
      have more := Nat.le_mul_of_pos_right magnitude positive
      exact Nat.le_trans (by omega) first

/-- An integer holds what is smaller with the same sign. -/
theorem holds_of_le {sign : Int} (isSign : sign = 1 ∨ sign = -1)
    {magnitude more : Nat} (holds : Holds bits (sign * more))
    (le : magnitude ≤ more) : Holds bits (sign * magnitude) := by
  unfold Holds at *
  rcases isSign with rfl | rfl <;> omega

/-- The digits that a text begins with. -/
def leadingDigits (base : Nat) : List Char → List Nat
  | [] => []
  | character :: rest =>
      match characterToInteger character with
      | none => []
      | some digit =>
          if digit ≥ base then [] else digit :: leadingDigits base rest

/-- A check fails only for what is not smaller with the same sign. -/
theorem checked_of_le {sign : Int} (isSign : sign = 1 ∨ sign = -1)
    {magnitude more : Nat} (le : magnitude ≤ more) :
    checked bits (sign * magnitude) = .ok (sign * magnitude) ∨
      checked bits (sign * magnitude) =
          .error (.arithmetic .arithmeticOverflow) ∧
        ¬Holds bits (sign * more) := by
  by_cases holds : Holds bits (sign * magnitude)
  · exact .inl (checked_holds holds)
  · exact .inr ⟨if_neg holds, fun more => holds (holds_of_le isSign more le)⟩

/-- The loop answers with all the digits or signals that an integer does not
hold what they stand for. -/
theorem readDigits_total {base : Nat} (positive : 0 < base) {sign : Int}
    (isSign : sign = 1 ∨ sign = -1) (text : List Char) (i magnitude : Nat)
    (isValid : Bool) (holds : Holds bits (sign * magnitude)) :
    readDigits bits base sign text i (sign * magnitude) isValid =
      let digits := leadingDigits base text
      let value := sign * magnitudeOf base digits magnitude
      if Holds bits value then
        .ok (value, isValid || !digits.isEmpty, i + digits.length)
      else
        .error (.arithmetic .arithmeticOverflow) := by
  induction text generalizing i magnitude isValid with
  | nil => simp [readDigits, leadingDigits, magnitudeOf, holds]
  | cons character rest step =>
      rw [readDigits, leadingDigits]
      cases characterToInteger character with
      | none => simp [magnitudeOf, holds]
      | some digit =>
          dsimp only
          split
          · simp [magnitudeOf, holds]
          · have le := le_magnitudeOf positive (leadingDigits base rest)
              (magnitude * base + digit)
            have whole : magnitudeOf base (digit :: leadingDigits base rest)
                magnitude = magnitudeOf base (leadingDigits base rest)
                  (magnitude * base + digit) := rfl
            rw [whole, Int.mul_assoc, ← Int.natCast_mul, Int.mul_comm digit]
            rcases @checked_of_le bits _ isSign _ _ (Nat.le_trans
                (Nat.le_add_right _ _) le) with product | ⟨product, large⟩
            · rcases @checked_of_le bits _ isSign _ _ (Nat.le_trans
                  (Nat.le_add_left _ _) le) with signed | ⟨signed, large⟩
              · rcases @checked_of_le bits _ isSign _ _ le with sum | ⟨sum, large⟩
                · have next : Holds bits
                      (sign * (magnitude * base + digit : Nat)) := by
                    by_contra small
                    rw [checked, if_neg small] at sum
                    cases sum
                  have read := step (i + 1) _ true next
                  simp only [product, signed, ← Int.mul_add,
                    ← Int.natCast_add, sum, bind, Except.bind, read]
                  simp [Nat.add_assoc, Nat.add_comm 1]
                · simp only [product, signed, ← Int.mul_add,
                    ← Int.natCast_add, sum, bind, Except.bind, if_neg large]
              · simp only [product, signed, bind, Except.bind, if_neg large]
            · simp only [product, bind, Except.bind, if_neg large]

theorem leadingDigits_digits {base : Nat} (top : base ≤ 36)
    (isLowercase : Bool) (digits : List Nat)
    (below : ∀ digit ∈ digits, digit < base) :
    leadingDigits base (digits.map (digitCharacter isLowercase)) = digits := by
  induction digits with
  | nil => rfl
  | cons digit digits step =>
      have small : digit < base := below digit List.mem_cons_self
      rw [List.map_cons, leadingDigits,
        characterToInteger_digit isLowercase (Nat.lt_of_lt_of_le small top)]
      dsimp only
      rw [if_neg (Nat.not_le.mpr small),
        step fun other member => below other (List.mem_cons_of_mem _ member)]

/-- The loop reads digits as long as an integer holds what they stand for. -/
theorem readDigits_eq {base : Nat} (positive : 0 < base) (top : base ≤ 36)
    {sign : Int} (isSign : sign = 1 ∨ sign = -1) (isLowercase : Bool)
    (digits : List Nat) (below : ∀ digit ∈ digits, digit < base)
    (i magnitude : Nat) (isValid : Bool)
    (holds : Holds bits (sign * magnitudeOf base digits magnitude)) :
    readDigits bits base sign (digits.map (digitCharacter isLowercase)) i
        (sign * magnitude) isValid =
      .ok (sign * magnitudeOf base digits magnitude,
        isValid || !digits.isEmpty, i + digits.length) := by
  rw [readDigits_total positive isSign _ _ _ _ (holds_of_le isSign holds
    (le_magnitudeOf positive digits magnitude))]
  simp only [leadingDigits_digits top isLowercase digits below, if_pos holds]

/-- Nothing is skipped before digits. -/
theorem skipSpace_digits (isLowercase : Bool) (digits : List Nat)
    (small : ∀ digit ∈ digits, digit < 36) (start : Nat) :
    skipSpace (digits.map (digitCharacter isLowercase)) start =
      (digits.map (digitCharacter isLowercase), start) := by
  cases digits with
  | nil => rfl
  | cons digit digits =>
      have notSpace := isSpace_digit isLowercase
        (small digit List.mem_cons_self)
      simp [skipSpace, notSpace]

/-- Digits have no sign of their own. -/
theorem readSign_digits (isLowercase : Bool) (digits : List Nat)
    (small : ∀ digit ∈ digits, digit < 36) (start : Nat) :
    readSign (digits.map (digitCharacter isLowercase)) start =
      (1, digits.map (digitCharacter isLowercase), start) := by
  cases digits with
  | nil => rfl
  | cons digit digits =>
      obtain ⟨notPlus, notMinus⟩ := digit_ne_sign isLowercase
        (small digit List.mem_cons_self)
      rw [List.map_cons]
      unfold readSign
      split
      · next equal => exact absurd (List.cons.inj equal).1 notPlus
      · next equal => exact absurd (List.cons.inj equal).1 notMinus
      · rfl

/-- What is printed begins with its sign. -/
theorem readSign_printed {base : Nat} (two : 2 ≤ base) (top : base ≤ 36)
    (integer : Int) (size : Nat) (isLowercase : Bool) :
    skipSpace (printed base integer size isLowercase) 0 =
        (printed base integer size isLowercase, 0) ∧
      readSign (printed base integer size isLowercase) 0 =
        (if integer < 0 then -1 else 1,
          (paddedDigits base integer size).reverse.map
            (digitCharacter isLowercase),
          if integer < 0 then 1 else 0) := by
  have small : ∀ digit ∈ (paddedDigits base integer size).reverse,
      digit < 36 := fun digit member =>
    Nat.lt_of_lt_of_le
      (paddedDigits_lt two integer size digit (List.mem_reverse.mp member)) top
  unfold printed
  by_cases negative : integer < 0
  · simp only [if_pos negative]
    exact ⟨rfl, rfl⟩
  · simp only [if_neg negative, List.nil_append]
    exact ⟨skipSpace_digits isLowercase _ small 0,
      readSign_digits isLowercase _ small 0⟩

/-- Every printed integer is read back. -/
theorem stringToInteger_printed {base : Nat} (two : 2 ≤ base)
    (top : base ≤ 36) {integer : Int} (holds : Holds bits integer)
    (size : Nat) (isLowercase : Bool) :
    stringToInteger bits (printed base integer size isLowercase) base 0 none
        none =
      .ok (integer, (printed base integer size isLowercase).length) := by
  obtain ⟨skipped, signed⟩ :=
    readSign_printed two top integer size isLowercase
  have below : ∀ digit ∈ (paddedDigits base integer size).reverse,
      digit < base := fun digit member =>
    paddedDigits_lt two integer size digit (List.mem_reverse.mp member)
  have isSign : (if integer < 0 then (-1 : Int) else 1) = 1 ∨
      (if integer < 0 then (-1 : Int) else 1) = -1 := by
    split
    · exact .inr rfl
    · exact .inl rfl
  have value : (if integer < 0 then (-1 : Int) else 1) *
      magnitudeOf base (paddedDigits base integer size).reverse 0 =
        integer := by
    rw [magnitudeOf_reverse, ofDigits_paddedDigits]
    split <;> omega
  have read := readDigits_eq (show 0 < base by omega) top isSign isLowercase
    (paddedDigits base integer size).reverse below
    (if integer < 0 then 1 else 0) 0 false (by rwa [value])
  have nonempty : (paddedDigits base integer size).reverse.isEmpty = false := by
    rw [List.isEmpty_reverse, List.isEmpty_eq_false_iff]
    exact paddedDigits_ne_nil base integer size
  have length : (if integer < 0 then 1 else 0) +
      (paddedDigits base integer size).reverse.length =
        (printed base integer size isLowercase).length := by
    unfold printed
    split <;> simp [Nat.add_comm]
  rw [value, nonempty, length, Nat.cast_zero, Int.mul_zero] at read
  unfold stringToInteger
  rw [if_neg (not_not.mpr (.inl rfl)),
    if_neg (not_not.mpr ⟨Nat.zero_le _, Nat.le_refl _⟩),
    if_neg (not_not.mpr ⟨two, top⟩)]
  simp only [Option.getD_none, List.take_length, List.drop_zero, skipped,
    signed]
  show (readDigits bits base _ _ _ 0 false >>= _) = _
  rw [read]
  rfl

/-- A text is read up to the end of its digits: exactly, with an overflow just
when an integer does not hold them, or as no integer when there are none. -/
theorem stringToInteger_total {base start : Nat} {string : List Char}
    {stop : Option Nat} (default : Option Int) (two : 2 ≤ base)
    (top : base ≤ 36) (inside : start = 0 ∨ start < string.length)
    (ordered : start ≤ stop.getD string.length)
    (within : stop.getD string.length ≤ string.length) :
    stringToInteger bits string base start stop default =
      let text := (string.take (stop.getD string.length)).drop start
      let left := skipSpace text start
      let (sign, text, first) := readSign left.1 left.2
      let digits := leadingDigits base text
      let value := sign * Nat.ofDigits base digits.reverse
      if digits = [] then
        match default with
        | none => .error (.noInteger string)
        | some value => .ok (value, start)
      else if Holds bits value then
        .ok (value, first + digits.length)
      else
        .error (.arithmetic .arithmeticOverflow) := by
  have isSign (left : List Char × Nat) : (readSign left.1 left.2).1 = 1 ∨
      (readSign left.1 left.2).1 = -1 := by
    unfold readSign
    split
    · exact .inl rfl
    · exact .inr rfl
    · exact .inl rfl
  have zero : Holds bits 0 :=
    (holds_natCast_iff 0).mpr (Nat.two_pow_pos bits)
  unfold stringToInteger
  rw [if_neg (not_not.mpr (by omega)), if_neg (not_not.mpr ⟨ordered, within⟩),
    if_neg (not_not.mpr ⟨two, top⟩)]
  dsimp only
  generalize skipSpace _ start = left
  have signs := isSign left
  generalize readSign left.1 left.2 = signed at signs
  obtain ⟨sign, text, first⟩ := signed
  have read := @readDigits_total bits base (by omega) sign signs text first 0
    false (by simpa using zero)
  rw [Nat.cast_zero, Int.mul_zero] at read
  dsimp only at read ⊢
  rw [read, ← magnitudeOf_reverse, List.reverse_reverse]
  by_cases none : leadingDigits base text = []
  · rw [none, if_pos rfl, if_pos (by simpa [magnitudeOf] using zero)]
    rfl
  · rw [if_neg none]
    split
    · simp [bind, Except.bind, none]
      rfl
    · rfl

/-- A text whose first digits an integer holds, but not all of them. -/
theorem stringToInteger_total_overflow :
    stringToInteger 29 " +536870912 is too much".toList 10 0 none none =
      .error (.arithmetic .arithmeticOverflow) :=
  (stringToInteger_total none (by decide) (by decide) (by decide) (by decide)
    (by decide)).trans (by decide)

/-! ## Machine words as two numbers -/

/-- A digit is shifted into a word. -/
theorem shiftIn_eq (value : Word bits) {digit : Nat} (small : digit < 16) :
    value <<< 4 ||| BitVec.ofNat (bits + 3) digit =
      BitVec.ofNat (bits + 3) (value.toNat * 16 + digit) := by
  have apart : value <<< 4 &&& BitVec.ofNat (bits + 3) digit = 0 := by
    ext index inside
    by_cases low : index < 4
    · simp [low]
    · have high : digit < 2 ^ index := by
        have := Nat.pow_le_pow_right (show 0 < 2 by decide)
          (Nat.not_lt.mp low)
        omega
      have clear : (BitVec.ofNat (bits + 3) digit)[index] = false := by
        rw [← BitVec.getLsbD_eq_getElem, BitVec.getLsbD_ofNat,
          Nat.testBit_lt_two_pow high, Bool.and_false]
      simp [clear]
  have shifted : value <<< 4 = BitVec.ofNat (bits + 3) (value.toNat * 16) := by
    apply BitVec.eq_of_toNat_eq
    rw [BitVec.toNat_shiftLeft, Nat.shiftLeft_eq, BitVec.toNat_ofNat]
  rw [← BitVec.add_eq_or_of_and_eq_zero _ _ apart, shifted, ← BitVec.ofNat_add]

/-- The loop reads all the digits into a word. -/
theorem readWord_eq (isLowercase : Bool) (start : Nat) (digits : List Nat)
    (small : ∀ digit ∈ digits, digit < 16) (i magnitude : Nat) :
    readWord start (digits.map (digitCharacter isLowercase)) i
        (BitVec.ofNat (bits + 3) magnitude) =
      (BitVec.ofNat (bits + 3) (magnitudeOf 16 digits magnitude),
        some (i + digits.length)) := by
  induction digits generalizing i magnitude with
  | nil => rfl
  | cons digit digits step =>
      have less : digit < 16 := small digit List.mem_cons_self
      have shifted : (BitVec.ofNat (bits + 3) magnitude) <<< 4 |||
          BitVec.ofNat (bits + 3) digit =
            BitVec.ofNat (bits + 3) (magnitude * 16 + digit) := by
        rw [shiftIn_eq _ less, BitVec.ofNat_add, BitVec.ofNat_add]
        congr 1
        apply BitVec.eq_of_toNat_eq
        simp [Nat.mod_mul_mod]
      rw [List.map_cons, readWord,
        characterToInteger_digit isLowercase (by omega)]
      show (if digit ≥ 16 then _ else _) = _
      rw [if_neg (Nat.not_le.mpr less), shifted,
        step (fun other member => small other (List.mem_cons_of_mem _ member))]
      simp [magnitudeOf, Nat.add_assoc, Nat.add_comm 1]

/-- The machine word of an integer is coerced to it. -/
theorem coerced_eq {word : Word bits} (small : word.toNat < 2 ^ bits) :
    coerced word = .ok (word.toNat : Int) := by
  have natural : word.toInt = word.toNat := by
    apply BitVec.toInt_eq_toNat_of_lt
    have : 2 ^ (bits + 3) = 2 ^ bits * 8 := Nat.pow_add 2 bits 3
    omega
  obtain ⟨result, coerce, value⟩ := coerceMachineWordToInteger_ok
    (x := word) (by rw [natural]; exact (holds_natCast_iff _).mpr small)
  unfold coerced
  rw [coerce, ← natural, ← value]
  rfl

/-- A half of a machine word is printed with all its digits. -/
theorem length_paddedDigits {base magnitude size : Nat} (two : 2 ≤ base)
    (positive : 0 < size) (below : magnitude < base ^ size) :
    (paddedDigits base magnitude size).length = size := by
  have length := writtenDigits_length_le two positive below
  have notNegative : ¬ (magnitude : Int) < 0 := by omega
  unfold paddedDigits
  rw [Int.natAbs_natCast]
  simp only [if_neg notNegative, List.length_append, List.length_replicate]
  omega

/-- The digits of a machine word, the last one first. -/
def wordDigits (word : Word bits) : List Nat :=
  let size := machineWordSize bits / 2 / 4
  let half := 2 ^ (machineWordSize bits / 2)
  paddedDigits 16 ((word.toNat % half : Nat) : Int) size ++
    paddedDigits 16 ((word.toNat / half : Nat) : Int) size

/-- The halves of a machine word of a whole number of bytes. -/
theorem halves_eq {size : Nat} (width : bits + 3 = 8 * size)
    (word : Word bits) :
    (word >>> (4 * size)).toNat = word.toNat / 2 ^ (4 * size) ∧
      ((word <<< (4 * size)) >>> (4 * size)).toNat =
        word.toNat % 2 ^ (4 * size) := by
  have square : 2 ^ (bits + 3) = 2 ^ (4 * size) * 2 ^ (4 * size) := by
    rw [width, ← Nat.pow_add]
    congr 1
    omega
  constructor
  · rw [BitVec.toNat_ushiftRight, Nat.shiftRight_eq_div_pow]
  · rw [BitVec.toNat_ushiftRight, BitVec.toNat_shiftLeft, Nat.shiftLeft_eq,
      Nat.shiftRight_eq_div_pow, square, Nat.mul_mod_mul_right,
      Nat.mul_div_cancel _ (Nat.two_pow_pos _)]

/-- A natural number is printed without a sign. -/
theorem printed_natCast (base magnitude size : Nat) (isLowercase : Bool) :
    printed base magnitude size isLowercase =
      (paddedDigits base magnitude size).reverse.map
        (digitCharacter isLowercase) := by
  have notNegative : ¬ (magnitude : Int) < 0 := by omega
  rw [printed, if_neg notNegative, List.nil_append]

/-- A machine word is printed by the digits of its halves. -/
theorem machineWordToString_eq {size : Nat} (width : bits + 3 = 8 * size)
    (word : Word bits) (pre : Option (List Char)) :
    machineWordToString word pre =
      .ok (pre.getD [] ++
        (wordDigits word).reverse.map (digitCharacter false)) := by
  have half : machineWordSize bits / 2 = 4 * size := by
    unfold machineWordSize
    omega
  have digits : 4 * size / 4 = size := by omega
  obtain ⟨high, low⟩ := halves_eq width word
  have square : 2 ^ (bits + 3) = 2 ^ (4 * size) * 2 ^ (4 * size) := by
    rw [width, ← Nat.pow_add]
    congr 1
    omega
  have room : 2 ^ (4 * size) ≤ 2 ^ bits :=
    Nat.pow_le_pow_right (by decide) (by omega)
  have highSmall : word.toNat / 2 ^ (4 * size) < 2 ^ bits := by
    have := Nat.div_lt_of_lt_mul (square ▸ word.isLt)
    omega
  have lowSmall : word.toNat % 2 ^ (4 * size) < 2 ^ bits := by
    have := Nat.mod_lt word.toNat (Nat.two_pow_pos (4 * size))
    omega
  have five : 2 ^ 5 ≤ 2 ^ bits :=
    Nat.pow_le_pow_right (by decide) (by omega)
  have baseHolds : Holds bits ((16 : Nat) : Int) :=
    (holds_natCast_iff 16).mpr (by omega)
  have sizeHolds : Holds bits (size : Int) := by
    rw [holds_natCast_iff]
    have := @Nat.lt_two_pow_self bits
    omega
  have print : ∀ magnitude : Nat, magnitude < 2 ^ bits →
      integerToString bits magnitude 16 size '0' false =
        .ok (printed 16 magnitude size false) := fun magnitude small =>
    integerToString_eq (by decide) (by decide) baseHolds
      ((holds_natCast_iff magnitude).mpr small) sizeHolds false
  unfold machineWordToString
  simp only [half, digits]
  rw [coerced_eq (by rwa [high]), coerced_eq (by rwa [low]), high, low]
  show (integerToString bits _ 16 size '0' false >>= _) = _
  rw [print _ highSmall]
  show (integerToString bits _ 16 size '0' false >>= _) = _
  rw [print _ lowSmall]
  show Except.ok _ = _
  rw [printed_natCast, printed_natCast, wordDigits, List.reverse_append,
    List.map_append, List.append_assoc, half, digits]

/-- The digits of a machine word stand for it. -/
theorem ofDigits_wordDigits {size : Nat} (width : bits + 3 = 8 * size)
    (word : Word bits) : Nat.ofDigits 16 (wordDigits word) = word.toNat := by
  have half : machineWordSize bits / 2 = 4 * size := by
    unfold machineWordSize
    omega
  have digits : 4 * size / 4 = size := by omega
  have power : 16 ^ size = 2 ^ (4 * size) := (Nat.pow_mul 2 4 size).symm
  have length := length_paddedDigits (show 2 ≤ 16 by decide)
    (show 0 < size by omega)
    (show word.toNat % 2 ^ (4 * size) < 16 ^ size by
      rw [power]
      exact Nat.mod_lt _ (Nat.two_pow_pos _))
  unfold wordDigits
  simp only [half, digits]
  rw [Nat.ofDigits_append, length, ofDigits_paddedDigits, ofDigits_paddedDigits,
    Int.natAbs_natCast, Int.natAbs_natCast, power]
  exact Nat.mod_add_div _ _

/-- Every printed machine word is read back. -/
theorem stringToMachineWord_printed {size : Nat} (width : bits + 3 = 8 * size)
    (word : Word bits) :
    stringToMachineWord
        ("#x".toList ++ (wordDigits word).reverse.map (digitCharacter false))
        0 none none =
      .ok (word, ("#x".toList ++
        (wordDigits word).reverse.map (digitCharacter false)).length) := by
  have nonempty : (wordDigits word).reverse ≠ [] := by
    rw [Ne, List.reverse_eq_nil_iff]
    exact List.append_ne_nil_of_left_ne_nil (paddedDigits_ne_nil _ _ _) _
  have small : ∀ digit ∈ (wordDigits word).reverse, digit < 16 := by
    intro digit member
    rcases List.mem_append.mp (List.mem_reverse.mp member) with low | high
    · exact paddedDigits_lt (by decide) _ _ digit low
    · exact paddedDigits_lt (by decide) _ _ digit high
  have value : BitVec.ofNat (bits + 3)
      (magnitudeOf 16 (wordDigits word).reverse 0) = word := by
    rw [magnitudeOf_reverse, ofDigits_wordDigits width, BitVec.ofNat_toNat,
      BitVec.setWidth_eq]
  have read := @readWord_eq bits false 2 (wordDigits word).reverse
    small 2 0
  rw [value] at read
  obtain ⟨first, rest, digits⟩ := List.exists_cons_of_ne_nil nonempty
  rw [digits] at read ⊢
  unfold stringToMachineWord
  rw [if_neg (by simp), if_neg (by simp)]
  simp only [Option.getD_none, List.take_length, List.drop_zero]
  show (match readWord 2 ((first :: rest).map (digitCharacter false)) 2
    (BitVec.ofNat (bits + 3) 0) with
    | (value, some nextKey) => Except.ok (value, nextKey)
    | (_, none) => _) = _
  rw [read]
  simp only [List.length_append, List.length_map]
  rfl

/-- Every integer and every machine word is read back as it was printed. -/
theorem printed_read_back (wide : 6 ≤ bits) (bytes : 8 ∣ bits + 3) :
    (∀ integer : Int, Holds bits integer → ∀ base : Nat, 2 ≤ base →
      base ≤ 36 → ∀ size : Nat, Holds bits size → ∀ isLowercase : Bool,
        ∃ string, integerToString bits integer base size '0' isLowercase =
            .ok string ∧
          stringToInteger bits string base 0 none none =
            .ok (integer, string.length)) ∧
      ∀ word : Word bits, ∃ string,
        machineWordToString word (some "#x".toList) = .ok string ∧
          stringToMachineWord string 0 none none =
            .ok (word, string.length) := by
  constructor
  · intro integer holds base two top size sizeHolds isLowercase
    have baseHolds : Holds bits (base : Int) := by
      have : 2 ^ 6 ≤ 2 ^ bits := Nat.pow_le_pow_right (by decide) wide
      rw [holds_natCast_iff]
      omega
    exact ⟨_, integerToString_eq two top baseHolds holds sizeHolds isLowercase,
      stringToInteger_printed two top holds size isLowercase⟩
  · intro word
    obtain ⟨size, width⟩ := bytes
    exact ⟨_, machineWordToString_eq width word _,
      stringToMachineWord_printed width word⟩

/-- The least integer of a word of sixty-four bits is printed and read. -/
theorem printed_read_back_least :
    ∃ string, integerToString 61 (-(2 ^ 61)) 10 30 '0' true = .ok string ∧
      stringToInteger 61 string 10 0 none none =
        .ok (-(2 ^ 61), string.length) :=
  (printed_read_back (by decide) (by decide)).1 (-(2 ^ 61)) (by decide) 10
    (by decide) (by decide) 30 (by decide) true

end OpenDylan.Numbers.IntegerStrings
