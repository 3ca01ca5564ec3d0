import OpenDylan.Lib.Word
import OpenDylan.Numbers.DoubleIntegerArithmetic

/-!
# Shifts and powers of tagged integers

The arithmetic of tagged integers works on machine words that hold an integer
with its tag, and signals an overflow when a word cannot hold a result.  A
shift to the right negates its count first, and a power of a negative base is
that of its negation: what cannot be negated is the least integer.
-/

namespace OpenDylan.Numbers

open OpenDylan.Lib OpenDylan.Lib.TwoWords

variable {bits : Nat}

/-! ## Machine words -/

/-- `machine-word-multiply-signal-overflow` -/
def machineWordMultiplySignalOverflow (x y : Word bits) :
    Except Failure (Word bits) :=
  if BitVec.smulOverflow x y then .error .arithmeticOverflow else .ok (x * y)

/-- `machine-word-negative-signal-overflow` -/
def machineWordNegativeSignalOverflow (x : Word bits) :
    Except Failure (Word bits) :=
  if BitVec.ssubOverflow 0 x then .error .arithmeticOverflow else .ok (0 - x)

/-- `$integer-tag-mask` -/
def integerTagMask : Word bits := BitVec.ofInt (bits + 3) (-4)

/-- `force-integer-tag` -/
def forceIntegerTag (x : Word bits) : Word bits :=
  insertIntegerTag (x &&& integerTagMask)

/-! ## Integers -/

/-- An integer that is written in the program. -/
def literal (value : Int) : SmallInteger bits :=
  interpretMachineWordAsInteger (BitVec.ofInt (bits + 3) (4 * value + 1))

/-- `*` -/
def times (x y : SmallInteger bits) : Except Failure (SmallInteger bits) := do
  let mx := stripIntegerTag (interpretIntegerAsMachineWord x)
  let my := coerceIntegerToMachineWord y
  let result ← machineWordMultiplySignalOverflow mx my
  return interpretMachineWordAsInteger (insertIntegerTag result)

/-- `negative` -/
def SmallInteger.negative (x : SmallInteger bits) :
    Except Failure (SmallInteger bits) := do
  let mx := stripIntegerTag (interpretIntegerAsMachineWord x)
  let mresult ← machineWordNegativeSignalOverflow mx
  return interpretMachineWordAsInteger (insertIntegerTag mresult)

/-- `$machine-word-size` -/
def machineWordSize (bits : Nat) : Nat := bits + 3

/-- `ash-right`, for a count that is not negative. -/
def ashRight (x : SmallInteger bits) (shift : Int) : SmallInteger bits :=
  if shift < machineWordSize bits then
    let mx := interpretIntegerAsMachineWord x
    let shiftResult := mx.sshiftRight shift.toNat
    interpretMachineWordAsInteger (forceIntegerTag shiftResult)
  else if x.value < 0 then
    literal (-1)
  else
    literal 0

/-- `ash-left`, for a count that is not negative. -/
def ashLeft (x : SmallInteger bits) (shift : Int) :
    Except Failure (SmallInteger bits) := do
  let shift := min shift (machineWordSize bits)
  let mx := stripIntegerTag (interpretIntegerAsMachineWord x)
  let half := machineWordSize bits / 2
  let shiftResult ←
    if shift = machineWordSize bits then do
      let mx ← shiftLeftSignalOverflow mx half
      shiftLeftSignalOverflow mx half
    else
      shiftLeftSignalOverflow mx shift.toNat
  return interpretMachineWordAsInteger (insertIntegerTag shiftResult)

/-- `ash` -/
def ash (x shift : SmallInteger bits) : Except Failure (SmallInteger bits) :=
  if shift.value < 0 then do
    let count ← shift.negative
    return ashRight x count.value
  else
    ashLeft x shift.value

/-! ## Powers -/

/-- What keeps `^` from returning; `unending` stands for a loop that does not
end. -/
inductive PowerFailure where
  | arithmetic (failure : Failure)
  | negativePower (base power : Int)
  | unending
deriving DecidableEq

/-- An arithmetic operation within `^`. -/
def arithmetic {Value : Type} (value : Except Failure Value) :
    Except PowerFailure Value :=
  value.mapError .arithmetic

/-- The next `base` of the loop of `^`: it is not squared for the last bit of
the power. -/
def nextBase (base p : SmallInteger bits) :
    Except PowerFailure (SmallInteger bits) :=
  if p.value > 1 then arithmetic (times base base) else .ok base

/-- The next `x` of the loop of `^`. -/
def nextProduct (base p x : SmallInteger bits) :
    Except PowerFailure (SmallInteger bits) :=
  if p.value % 2 = 1 then arithmetic (times base x) else .ok x

/-- The loop of `^`. -/
def powerLoop : Nat → SmallInteger bits → SmallInteger bits →
    SmallInteger bits → Except PowerFailure (SmallInteger bits)
  | 0, _, _, _ => .error .unending
  | fuel + 1, base, p, x =>
      if p.value = 0 then
        .ok x
      else do
        let square ← nextBase base p
        let half ← arithmetic (ash p (literal (-1)))
        let product ← nextProduct base p x
        powerLoop fuel square half product

/-- `^` of a base that is not negative. -/
def powerOfNonnegative (base power : SmallInteger bits) :
    Except PowerFailure (SmallInteger bits) :=
  if base.value = 2 then
    arithmetic (ash (literal 1) power)
  else do
    let square ← nextBase base power
    let half ← arithmetic (ash power (literal (-1)))
    powerLoop (power.value.toNat + 1) square half
      (if power.value % 2 = 1 then base else literal 1)

/-- `^` -/
def power (base exponent : SmallInteger bits) :
    Except PowerFailure (SmallInteger bits) :=
  if exponent.value < 0 then
    .error (.negativePower base.value exponent.value)
  else if base.value ≠ 2 ∧ base.value < 0 then do
    let opposite ← arithmetic base.negative
    let result ← powerOfNonnegative opposite exponent
    if exponent.value % 2 = 1 then arithmetic result.negative
    else return result
  else
    powerOfNonnegative base exponent

/-! ## Exact results -/

/-- An integer, or the overflow of one that is not representable. -/
def exactly (value : Int) : Except Failure (SmallInteger bits) :=
  if holds : Holds bits value then .ok ⟨value, holds⟩
  else .error .arithmeticOverflow

theorem SmallInteger.eq_of_value {x y : SmallInteger bits}
    (same : x.value = y.value) : x = y := by
  cases x
  cases y
  cases same
  rfl

theorem exactly_of_holds {value : Int} {x : SmallInteger bits}
    (same : x.value = value) : exactly value = .ok x := by
  have holds := x.holds
  rw [same] at holds
  rw [exactly, dif_pos holds]
  exact congrArg _ (SmallInteger.eq_of_value same.symm)

theorem exactly_of_not {value : Int} (beyond : ¬ Holds bits value) :
    (exactly value : Except Failure (SmallInteger bits)) =
      .error .arithmeticOverflow :=
  dif_neg beyond

theorem holds_tagged {value : Int} :
    Holds (bits + 2) (4 * value) ↔ Holds bits value := by
  unfold Holds
  rw [pow_add]
  omega

/-- A word that holds four times an integer becomes that integer. -/
theorem interpret_insert {x : Word bits} {value : Int}
    (word : x.toInt = 4 * value) :
    (interpretMachineWordAsInteger (insertIntegerTag x)).value = value := by
  have range := toInt_holds x
  rw [word, holds_tagged] at range
  have one : (integerTagValue : Word bits).toInt = 1 := toInt_one
  have tagged : (insertIntegerTag x).toInt = 4 * value + 1 := by
    rw [insertIntegerTag, toInt_add, word, one]
    rw [word, one]
    exact (Holds.wider range).2
  show (insertIntegerTag x).toInt / 4 = value
  rw [tagged]
  omega

/-- `*` is exact, or signals an overflow. -/
theorem times_eq (x y : SmallInteger bits) :
    times x y = exactly (x.value * y.value) := by
  have words : (stripIntegerTag (interpretIntegerAsMachineWord x)).toInt *
      (coerceIntegerToMachineWord y).toInt = 4 * (x.value * y.value) := by
    rw [toInt_strip, toInt_coerce, mul_assoc]
  unfold times machineWordMultiplySignalOverflow
  dsimp only
  by_cases holds : Holds bits (x.value * y.value)
  · have fits : Holds (bits + 2)
        ((stripIntegerTag (interpretIntegerAsMachineWord x)).toInt *
          (coerceIntegerToMachineWord y).toInt) := by
      rwa [words, holds_tagged]
    rw [(smulOverflow_iff _ _).mpr fits]
    refine (exactly_of_holds (interpret_insert ?_)).symm
    rw [toInt_mul fits, words]
  · have beyond : BitVec.smulOverflow
        (stripIntegerTag (interpretIntegerAsMachineWord x))
        (coerceIntegerToMachineWord y) = true := by
      rw [← Bool.not_eq_false, smulOverflow_iff, words, holds_tagged]
      exact holds
    rw [beyond, exactly_of_not holds]
    rfl

/-- `negative` is exact, or signals an overflow. -/
theorem SmallInteger.negative_eq (x : SmallInteger bits) :
    x.negative = exactly (-x.value) := by
  have words : (0 : Word bits).toInt -
      (stripIntegerTag (interpretIntegerAsMachineWord x)).toInt =
        4 * -x.value := by
    have zero : (0 : Word bits).toInt = 0 := BitVec.toInt_zero
    rw [toInt_strip, zero]
    omega
  unfold SmallInteger.negative machineWordNegativeSignalOverflow
  dsimp only
  by_cases holds : Holds bits (-x.value)
  · have fits : Holds (bits + 2) ((0 : Word bits).toInt -
        (stripIntegerTag (interpretIntegerAsMachineWord x)).toInt) := by
      rwa [words, holds_tagged]
    rw [(ssubOverflow_iff _ _).mpr fits]
    refine (exactly_of_holds (interpret_insert ?_)).symm
    rw [toInt_sub fits, words]
  · have beyond : BitVec.ssubOverflow (0 : Word bits)
        (stripIntegerTag (interpretIntegerAsMachineWord x)) = true := by
      rw [← Bool.not_eq_false, ssubOverflow_iff, words, holds_tagged]
      exact holds
    rw [beyond, exactly_of_not holds]
    rfl

/-! ## Shifts -/

theorem literal_value {value : Int} (holds : Holds bits value) :
    (literal value : SmallInteger bits).value = value := by
  have word : (BitVec.ofInt (bits + 3) (4 * value + 1)).toInt =
      4 * value + 1 := toInt_ofInt (Holds.wider holds).2
  show (BitVec.ofInt (bits + 3) (4 * value + 1)).toInt / 4 = value
  rw [word]
  omega

/-- A shift to the left that signals an overflow is exact. -/
theorem shiftLeftSignalOverflow_eq (x : Word bits) {shift : Nat}
    (bounded : shift ≤ bits + 3) :
    shiftLeftSignalOverflow x shift =
      if Holds (bits + 2) (x.toInt * 2 ^ shift) then
        .ok (BitVec.ofInt (bits + 3) (x.toInt * 2 ^ shift))
      else .error .arithmeticOverflow := by
  have positive : (0 : Int) < 2 ^ shift := by positivity
  have back : x = (x <<< shift).sshiftRight shift ↔
      Holds (bits + 2) (x.toInt * 2 ^ shift) := by
    rw [← BitVec.toInt_inj, BitVec.toInt_sshiftRight,
      Int.shiftRight_eq_div_pow]
    push_cast
    constructor
    · intro same
      obtain ⟨wraps, wrapped⟩ :=
        @exists_toInt_ofInt (bits + 2) (x.toInt * 2 ^ shift)
      rw [← Lib.Word.shiftLeft_eq_ofInt] at wrapped
      have divides : (2 : Int) ^ shift ∣ (x <<< shift).toInt := by
        rw [wrapped]
        exact dvd_add (dvd_mul_left _ _)
          (dvd_mul_of_dvd_left (pow_dvd_pow 2 bounded) wraps)
      have whole := Int.ediv_mul_cancel divides
      rw [← same] at whole
      rw [whole]
      exact toInt_holds (x <<< shift)
    · intro holds
      rw [Lib.Word.shiftLeft_eq_ofInt, toInt_ofInt holds,
        Int.mul_ediv_cancel _ positive.ne']
  unfold shiftLeftSignalOverflow
  dsimp only
  by_cases holds : Holds (bits + 2) (x.toInt * 2 ^ shift)
  · rw [if_neg (not_not.mpr (back.mpr holds)), if_pos holds,
      Lib.Word.shiftLeft_eq_ofInt]
  · rw [if_pos (fun same => holds (back.mp same)), if_neg holds]

/-- Masking the tag away rounds down to a multiple of four. -/
theorem toInt_land_mask (x : Word bits) :
    (x &&& integerTagMask).toInt = 4 * (x.toInt / 4) := by
  have cleared : x &&& integerTagMask = (x.sshiftRight 2) <<< 2 := by
    apply BitVec.eq_of_getElem_eq
    intro index inside
    have mask : (integerTagMask : Word bits)[index] = !decide (index < 2) := by
      rw [integerTagMask, Lib.Word.getElem_ofInt (-4) inside]
      rcases index with _ | _ | index
      · rfl
      · rfl
      · show (Int.negSucc 3).testBit (index + 2) = _
        have past : Nat.testBit 3 (index + 2) = false :=
          Nat.testBit_lt_two_pow (by
            rw [pow_add]
            have := Nat.one_le_two_pow (n := index)
            omega)
        simp [Int.testBit, past]
    rw [BitVec.getElem_and, mask, BitVec.getElem_shiftLeft]
    by_cases low : index < 2
    · simp [low]
    · have room : 2 + (index - 2) < bits + 3 := by omega
      have same : 2 + (index - 2) = index := by omega
      simp [low, BitVec.getElem_sshiftRight, same, inside]
  have shifted : (x.sshiftRight 2).toInt = x.toInt / 4 := by
    rw [BitVec.toInt_sshiftRight, Int.shiftRight_eq_div_pow]
    rfl
  have holds : Holds bits (x.sshiftRight 2).toInt := by
    have range := toInt_holds x
    rw [shifted]
    unfold Holds at range ⊢
    rw [pow_add] at range
    omega
  rw [cleared, toInt_shiftLeft_two holds, shifted]

/-- `ash-right` rounds down. -/
theorem ashRight_value (x : SmallInteger bits) {shift : Int}
    (nonnegative : 0 ≤ shift) :
    (ashRight x shift).value = x.value / 2 ^ shift.toNat := by
  have positive : (0 : Int) < 2 ^ shift.toNat := by positivity
  unfold ashRight
  split
  · have word : ((interpretIntegerAsMachineWord x).sshiftRight shift.toNat &&&
        integerTagMask).toInt = 4 * (x.value / 2 ^ shift.toNat) := by
      rw [toInt_land_mask, BitVec.toInt_sshiftRight, toInt_interpret,
        Int.shiftRight_eq_div_pow]
      push_cast
      rw [Int.ediv_ediv_of_nonneg positive.le, mul_comm (2 ^ shift.toNat) 4,
        ← Int.ediv_ediv_of_nonneg (by omega : (0 : Int) ≤ 4)]
      congr 2
      omega
    exact interpret_insert word
  · next large =>
    have range := x.holds
    have grows : (2 : Int) ^ bits ≤ 2 ^ shift.toNat := by
      refine pow_le_pow_right₀ (by omega) ?_
      unfold machineWordSize at large
      omega
    unfold Holds at range
    split
    · rw [literal_value (holds_minusOne bits)]
      refine (Int.ediv_eq_neg_one_of_neg_of_le ?_ ?_).symm
      · assumption
      · omega
    · rw [literal_value (holds_zero bits)]
      exact (Int.ediv_eq_zero_of_lt (by omega) (by omega)).symm

/-- An integer that is not zero has no room for this many bits. -/
theorem not_holds_shifted {value : Int} {shift width : Nat}
    (nonzero : value ≠ 0) (large : width + 1 ≤ shift) :
    ¬ Holds width (value * 2 ^ shift) := by
  have grows : (2 : Int) ^ (width + 1) ≤ 2 ^ shift :=
    pow_le_pow_right₀ (by omega) large
  have positive : (0 : Int) < 2 ^ width := by positivity
  rw [pow_succ] at grows
  unfold Holds
  rcases lt_or_gt_of_ne nonzero with below | above
  · have : value * 2 ^ shift ≤ -1 * 2 ^ shift :=
      mul_le_mul_of_nonneg_right (by omega) (by omega)
    omega
  · have : 1 * 2 ^ shift ≤ value * 2 ^ shift :=
      mul_le_mul_of_nonneg_right (by omega) (by omega)
    omega

/-- A shift of a tagged integer within a word. -/
theorem shiftLeft_exactly (x : SmallInteger bits) {shift : Nat}
    (bounded : shift ≤ bits + 3) :
    (do
      let shiftResult ← shiftLeftSignalOverflow
        (stripIntegerTag (interpretIntegerAsMachineWord x)) shift
      return interpretMachineWordAsInteger (insertIntegerTag shiftResult)) =
      exactly (x.value * 2 ^ shift) := by
  have words : (stripIntegerTag (interpretIntegerAsMachineWord x)).toInt *
      2 ^ shift = 4 * (x.value * 2 ^ shift) := by
    rw [toInt_strip, mul_assoc]
  rw [shiftLeftSignalOverflow_eq _ bounded, words]
  by_cases holds : Holds bits (x.value * 2 ^ shift)
  · have fits : Holds (bits + 2) (4 * (x.value * 2 ^ shift)) :=
      holds_tagged.mpr holds
    rw [if_pos fits]
    exact (exactly_of_holds (interpret_insert (toInt_ofInt fits))).symm
  · rw [if_neg (fun fits => holds (holds_tagged.mp fits)),
      exactly_of_not holds]
    rfl

/-- Two shifts by half a word leave nothing of an integer but zero. -/
theorem shiftLeft_halves (x : SmallInteger bits) :
    (do
      let mx ← shiftLeftSignalOverflow
        (stripIntegerTag (interpretIntegerAsMachineWord x)) ((bits + 3) / 2)
      shiftLeftSignalOverflow mx ((bits + 3) / 2)) =
      if x.value = 0 then .ok (BitVec.ofInt (bits + 3) 0)
      else .error .arithmeticOverflow := by
  have bounded : (bits + 3) / 2 ≤ bits + 3 := Nat.div_le_self _ _
  rw [shiftLeftSignalOverflow_eq _ bounded, toInt_strip, mul_assoc]
  by_cases zero : x.value = 0
  · have none : ∀ factor : Int, 4 * (0 * factor) = 0 := fun factor => by omega
    rw [if_pos zero, zero, none, if_pos (holds_zero _)]
    show shiftLeftSignalOverflow _ _ = _
    rw [shiftLeftSignalOverflow_eq _ bounded, toInt_ofInt (holds_zero _),
      zero_mul, if_pos (holds_zero _)]
  · rw [if_neg zero]
    by_cases holds : Holds (bits + 2) (4 * (x.value * 2 ^ ((bits + 3) / 2)))
    · rw [if_pos holds]
      show shiftLeftSignalOverflow _ _ = _
      have beyond := not_holds_shifted zero
        (by omega : bits + 1 ≤ (bits + 3) / 2 + (bits + 3) / 2)
      rw [← holds_tagged, pow_add, ← mul_assoc, ← mul_assoc] at beyond
      rw [shiftLeftSignalOverflow_eq _ bounded, toInt_ofInt holds,
        ← mul_assoc, if_neg beyond]
    · rw [if_neg holds]
      rfl

/-- `ash-left` is exact, or signals an overflow. -/
theorem ashLeft_eq (x : SmallInteger bits) {shift : Int}
    (nonnegative : 0 ≤ shift) :
    ashLeft x shift = exactly (x.value * 2 ^ shift.toNat) := by
  unfold ashLeft
  dsimp only
  by_cases whole : min shift (machineWordSize bits) = machineWordSize bits
  · rw [if_pos whole]
    unfold machineWordSize at whole ⊢
    rw [← bind_assoc, shiftLeft_halves]
    by_cases zero : x.value = 0
    · have word : (BitVec.ofInt (bits + 3) 0).toInt = 4 * 0 :=
        toInt_ofInt (holds_zero _)
      rw [if_pos zero, zero, zero_mul]
      exact (exactly_of_holds (interpret_insert word)).symm
    · rw [if_neg zero, exactly_of_not (not_holds_shifted zero (by omega))]
      rfl
  · rw [if_neg whole]
    unfold machineWordSize at whole ⊢
    have small : min shift ((bits + 3 : Nat) : Int) = shift := by omega
    rw [small]
    exact shiftLeft_exactly x (by omega)

/-! ## The result of a shift -/

/-- The integer that a shift is to return, rounded down to the right. -/
def shifted (value shift : Int) : Int :=
  if shift < 0 then value / 2 ^ (-shift).toNat else value * 2 ^ shift.toNat

theorem holds_ediv {width : Nat} {value divisor : Int}
    (holds : Holds width value) (positive : 0 < divisor) :
    Holds width (value / divisor) := by
  unfold Holds at holds ⊢
  constructor
  · rw [Int.le_ediv_iff_mul_le positive]
    nlinarith [positive]
  · exact Int.ediv_lt_of_lt_mul positive (by nlinarith)

theorem ash_nonnegative (x : SmallInteger bits) {shift : SmallInteger bits}
    (nonnegative : 0 ≤ shift.value) :
    ash x shift = exactly (x.value * 2 ^ shift.value.toNat) := by
  unfold ash
  rw [if_neg (by omega), ashLeft_eq x nonnegative]

theorem ash_negative (x : SmallInteger bits) {shift : SmallInteger bits}
    (below : shift.value < 0) (negatable : shift.value ≠ -2 ^ bits) :
    ash x shift = exactly (x.value / 2 ^ (-shift.value).toNat) := by
  have range := shift.holds
  have holds : Holds bits (-shift.value) := by
    unfold Holds at range ⊢
    omega
  unfold ash
  rw [if_pos below, SmallInteger.negative_eq, exactly, dif_pos holds]
  refine (exactly_of_holds (ashRight_value x ?_)).symm
  show 0 ≤ -shift.value
  omega

/-- The count of a shift to the right is negated first. -/
theorem ash_exact_iff (x shift : SmallInteger bits) :
    ash x shift = exactly (shifted x.value shift.value) ↔
      shift.value ≠ -2 ^ bits := by
  have positive : (0 : Int) < 2 ^ bits := by positivity
  unfold shifted
  split
  · next below =>
    constructor
    · intro same least
      have holds : Holds bits (x.value / 2 ^ (-shift.value).toNat) :=
        holds_ediv x.holds (by positivity)
      have beyond : ¬ Holds bits (-shift.value) := by
        unfold Holds
        omega
      unfold ash at same
      rw [if_pos below, SmallInteger.negative_eq, exactly_of_not beyond,
        exactly, dif_pos holds] at same
      cases same
    · exact ash_negative x below
  · exact ⟨fun _ => by omega, fun _ => ash_nonnegative x (by omega)⟩

/-! ## The loop of a power -/

theorem exactly_value (x : SmallInteger bits) : exactly x.value = .ok x :=
  exactly_of_holds rfl

/-- A larger integer is not representable either. -/
theorem not_holds_mono {width : Nat} {value larger : Int}
    (beyond : ¬ Holds width value) (nonnegative : 0 ≤ value)
    (larger_ge : value ≤ larger) : ¬ Holds width larger := by
  have positive : (0 : Int) < 2 ^ width := by positivity
  unfold Holds at beyond ⊢
  omega

theorem arithmetic_exactly {value : Int} (holds : Holds bits value) :
    arithmetic (exactly value : Except Failure (SmallInteger bits)) =
      .ok ⟨value, holds⟩ := by
  rw [exactly, dif_pos holds]
  rfl

theorem arithmetic_overflow {value : Int} (beyond : ¬ Holds bits value) :
    arithmetic (exactly value : Except Failure (SmallInteger bits)) =
      .error (.arithmetic .arithmeticOverflow) := by
  rw [exactly_of_not beyond]
  rfl

theorem holds_literals (room : 0 < bits) :
    Holds bits 1 ∧ Holds bits (-1) := by
  have large : (2 : Int) ^ 1 ≤ 2 ^ bits := pow_le_pow_right₀ (by omega) room
  unfold Holds
  omega

/-- The power is halved. -/
theorem halve_eq (room : 0 < bits) (p : SmallInteger bits) :
    ash p (literal (-1)) = exactly (p.value / 2) := by
  have least : (literal (-1) : SmallInteger bits).value = -1 :=
    literal_value (holds_literals room).2
  have large : (2 : Int) ^ 1 ≤ 2 ^ bits := pow_le_pow_right₀ (by omega) room
  rw [ash_negative p (by omega) (by omega), least]
  rfl

/-- One round of the loop keeps what the product and the power of the base
stand for. -/
theorem pow_round (base x : Int) (p : Nat) :
    x * base ^ p =
      (if p % 2 = 1 then base * x else x) * (base * base) ^ (p / 2) := by
  have halves := Nat.div_add_mod p 2
  rcases Nat.mod_two_eq_zero_or_one p with even | odd
  · rw [if_neg (by omega), ← pow_two, ← pow_mul]
    rw [even] at halves
    exact congrArg (fun count => x * base ^ count) halves.symm
  · rw [if_pos odd, ← pow_two, ← pow_mul]
    rw [odd] at halves
    rw [mul_comm base x, mul_assoc, ← pow_succ']
    exact congrArg (fun count => x * base ^ count) halves.symm

/-- The square of the base overflows only if the result does: it is not taken
for the last bit of the power. -/
theorem not_holds_of_square {base x : Int} {p : Nat} (more : 1 < p)
    (base_nonneg : 0 ≤ base) (x_nonneg : 0 ≤ x) (zero : x = 0 → base = 0)
    (beyond : ¬ Holds bits (base * base)) :
    ¬ Holds bits (x * base ^ p) := by
  have base_pos : base ≠ 0 := by
    intro none
    rw [none, mul_zero] at beyond
    exact beyond (holds_zero bits)
  have x_pos : 1 ≤ x := by
    have : x ≠ 0 := fun none => base_pos (zero none)
    omega
  refine not_holds_mono beyond (mul_nonneg base_nonneg base_nonneg) ?_
  calc base * base = 1 * base ^ 2 := by rw [one_mul, pow_two]
    _ ≤ x * base ^ 2 := mul_le_mul_of_nonneg_right x_pos (by positivity)
    _ ≤ x * base ^ p :=
        mul_le_mul_of_nonneg_left (pow_le_pow_right₀ (by omega) more) x_nonneg

/-- A product within the loop overflows only if the result does. -/
theorem not_holds_of_product {base x : Int} {p : Nat} (more : 0 < p)
    (base_nonneg : 0 ≤ base) (x_nonneg : 0 ≤ x)
    (beyond : ¬ Holds bits (base * x)) : ¬ Holds bits (x * base ^ p) := by
  have base_pos : base ≠ 0 := by
    intro none
    rw [none, zero_mul] at beyond
    exact beyond (holds_zero bits)
  refine not_holds_mono beyond (mul_nonneg base_nonneg x_nonneg) ?_
  calc base * x = x * base ^ 1 := by rw [pow_one, mul_comm]
    _ ≤ x * base ^ p :=
        mul_le_mul_of_nonneg_left (pow_le_pow_right₀ (by omega) more) x_nonneg

/-- The next base is exact, or the result overflows. -/
theorem nextBase_cases (base p : SmallInteger bits) {x : Int}
    (base_nonneg : 0 ≤ base.value) (x_nonneg : 0 ≤ x)
    (zero : x = 0 → base.value = 0) :
    (∃ square, nextBase base p = .ok square ∧ square.value =
      if p.value > 1 then base.value * base.value else base.value) ∨
    (nextBase base p = .error (.arithmetic .arithmeticOverflow) ∧
      ¬ Holds bits (x * base.value ^ p.value.toNat)) := by
  unfold nextBase
  by_cases more : p.value > 1
  · rw [if_pos more, if_pos more, times_eq]
    by_cases holds : Holds bits (base.value * base.value)
    · exact .inl ⟨_, arithmetic_exactly holds, rfl⟩
    · exact .inr ⟨arithmetic_overflow holds, not_holds_of_square (by omega)
        base_nonneg x_nonneg zero holds⟩
  · rw [if_neg more, if_neg more]
    exact .inl ⟨base, rfl, rfl⟩

/-- The next product is exact, or the result overflows. -/
theorem nextProduct_cases (base p x : SmallInteger bits)
    (power_nonneg : 0 ≤ p.value) (base_nonneg : 0 ≤ base.value)
    (x_nonneg : 0 ≤ x.value) :
    (∃ product, nextProduct base p x = .ok product ∧ product.value =
      if p.value.toNat % 2 = 1 then base.value * x.value else x.value) ∨
    (nextProduct base p x = .error (.arithmetic .arithmeticOverflow) ∧
      ¬ Holds bits (x.value * base.value ^ p.value.toNat)) := by
  unfold nextProduct
  by_cases odd : p.value % 2 = 1
  · rw [if_pos odd, if_pos (by omega), times_eq]
    by_cases holds : Holds bits (base.value * x.value)
    · exact .inl ⟨_, arithmetic_exactly holds, rfl⟩
    · exact .inr ⟨arithmetic_overflow holds, not_holds_of_product (by omega)
        base_nonneg x_nonneg holds⟩
  · rw [if_neg odd, if_neg (by omega)]
    exact .inl ⟨x, rfl, rfl⟩

/-- The loop multiplies by a power, and overflows only if the product does. -/
theorem powerLoop_eq (room : 0 < bits) (fuel : Nat)
    (base p x : SmallInteger bits) (enough : p.value < fuel)
    (power_nonneg : 0 ≤ p.value) (base_nonneg : 0 ≤ base.value)
    (x_nonneg : 0 ≤ x.value) (zero : x.value = 0 → base.value = 0) :
    powerLoop fuel base p x =
      arithmetic (exactly (x.value * base.value ^ p.value.toNat)) := by
  induction fuel generalizing base p x with
  | zero => omega
  | succ fuel ih =>
      rw [powerLoop]
      by_cases done : p.value = 0
      · rw [if_pos done, done]
        show _ = arithmetic (exactly (x.value * base.value ^ 0))
        rw [pow_zero, mul_one, exactly_value]
        rfl
      rw [if_neg done, halve_eq room,
        arithmetic_exactly (holds_ediv p.holds (by omega))]
      rcases nextBase_cases base p base_nonneg x_nonneg zero with
        ⟨square, squares, squareValue⟩ | ⟨fails, beyond⟩
      · rcases nextProduct_cases base p x power_nonneg base_nonneg x_nonneg
          with ⟨product, products, productValue⟩ | ⟨fails, beyond⟩
        · rw [squares, products]
          show powerLoop fuel square _ product = _
          have halved : (p.value / 2).toNat = p.value.toNat / 2 := by omega
          have base_square : base.value = 0 → square.value = 0 := by
            intro none
            rw [squareValue, none]
            split <;> rfl
          have squares_pow : square.value ^ (p.value.toNat / 2) =
              (base.value * base.value) ^ (p.value.toNat / 2) := by
            rw [squareValue]
            split
            · rfl
            · have one : p.value.toNat / 2 = 0 := by omega
              rw [one, pow_zero, pow_zero]
          rw [ih]
          · show arithmetic (exactly (_ * square.value ^
              (p.value / 2).toNat)) = _
            rw [productValue, halved, squares_pow, ← pow_round]
          · show p.value / 2 < fuel
            omega
          · show 0 ≤ p.value / 2
            omega
          · rw [squareValue]
            split
            · exact mul_nonneg base_nonneg base_nonneg
            · exact base_nonneg
          · rw [productValue]
            split
            · exact mul_nonneg base_nonneg x_nonneg
            · exact x_nonneg
          · intro none
            rw [productValue] at none
            refine base_square ?_
            split at none
            · exact (mul_eq_zero.mp none).elim id zero
            · exact zero none
        · rw [squares, fails, arithmetic_overflow beyond]
          rfl
      · rw [fails, arithmetic_overflow beyond]
        rfl

/-! ## Powers -/

/-- A power of a base that is not negative is exact, or overflows. -/
theorem powerOfNonnegative_eq (room : 0 < bits) (base power : SmallInteger bits)
    (power_nonneg : 0 ≤ power.value) (base_nonneg : 0 ≤ base.value) :
    powerOfNonnegative base power =
      arithmetic (exactly (base.value ^ power.value.toNat)) := by
  have one : (literal 1 : SmallInteger bits).value = 1 :=
    literal_value (holds_literals room).1
  unfold powerOfNonnegative
  by_cases two : base.value = 2
  · rw [if_pos two, ash_nonnegative _ power_nonneg, one, one_mul, two]
  · rw [if_neg two]
    -- what is done before the loop is a round of it that starts with one
    have entered : powerLoop (power.value.toNat + 1 + 1) base power
        (literal 1) = arithmetic (exactly (base.value ^ power.value.toNat)) := by
      rw [powerLoop_eq room _ base power _ (by omega) power_nonneg base_nonneg
        (by omega) (by omega), one, one_mul]
    rw [← entered, powerLoop, halve_eq room,
      arithmetic_exactly (holds_ediv power.holds (by omega))]
    by_cases done : power.value = 0
    · have same : nextBase base power = .ok base := if_neg (by omega)
      rw [if_pos done, same, if_neg (by omega)]
      show powerLoop _ _ _ _ = _
      rw [powerLoop, if_pos]
      show power.value / 2 = 0
      omega
    · have product : nextProduct base power (literal 1) =
          .ok (if power.value % 2 = 1 then base else literal 1) := by
        unfold nextProduct
        split
        · rw [times_eq, one, mul_one, exactly_value]
          rfl
        · rfl
      rw [if_neg done, product]
      rfl

/-- The least integer has no opposite. -/
theorem holds_neg_iff (x : SmallInteger bits) :
    Holds bits (-x.value) ↔ x.value ≠ -2 ^ bits := by
  have range := x.holds
  unfold Holds at range ⊢
  omega

/-- A power of two that is as large as the least integer. -/
def ReachesLeast (bits : Nat) (base : Int) (power : Nat) : Prop :=
  ∃ exponent : Nat, base = -2 ^ exponent ∧ exponent * power = bits ∧
    power % 2 = 1

/-- A power of an opposite is just too large if the base is a power of two. -/
theorem reachesLeast_iff {base : Int} {power : Nat} (odd : power % 2 = 1)
    (below : base < 0) :
    ReachesLeast bits base power ↔ (-base) ^ power = 2 ^ bits := by
  constructor
  · rintro ⟨exponent, rfl, product, -⟩
    rw [neg_neg, ← pow_mul, product]
  · intro same
    obtain ⟨size, rfl⟩ : ∃ size : Nat, base = -(size : Int) :=
      ⟨base.natAbs, by omega⟩
    rw [neg_neg] at same
    have natural : size ^ power = 2 ^ bits := by exact_mod_cast same
    have divides : size ∣ 2 ^ bits := by
      rw [← natural]
      exact dvd_pow_self size (by omega)
    obtain ⟨exponent, -, rfl⟩ := (Nat.dvd_prime_pow Nat.prime_two).mp divides
    rw [← pow_mul] at natural
    exact ⟨exponent, by push_cast; rfl,
      Nat.pow_right_injective (le_refl 2) natural, odd⟩

/-- A power of the least integer is representable for no larger power than
one. -/
theorem not_holds_leastPower (room : 0 < bits) {power : Nat}
    (more : 1 < power) : ¬ Holds bits ((-2 ^ bits) ^ power) := by
  have magnitude : ((-2 ^ bits : Int) ^ power).natAbs = 2 ^ (bits * power) := by
    rw [Int.natAbs_pow, Int.natAbs_neg, Int.natAbs_pow, ← pow_mul]
    rfl
  have larger : bits + 1 ≤ bits * power := by nlinarith
  have grows : 2 ^ (bits + 1) ≤ 2 ^ (bits * power) :=
    Nat.pow_le_pow_right (by omega) larger
  have positive : 0 < 2 ^ bits := by positivity
  have cast : ((2 ^ bits : Nat) : Int) = 2 ^ bits := by push_cast; rfl
  rw [pow_succ] at grows
  unfold Holds
  omega

/-- What `^` does with a base that is not positive but has an opposite. -/
theorem power_of_negative (room : 0 < bits) {base exponent : SmallInteger bits}
    (power_nonneg : 0 ≤ exponent.value) (below : base.value < 0)
    (negatable : base.value ≠ -2 ^ bits) :
    power base exponent = (do
      let result ← arithmetic
        (exactly ((-base.value) ^ exponent.value.toNat))
      if exponent.value % 2 = 1 then arithmetic result.negative
      else return result) := by
  unfold power
  rw [if_neg (by omega), if_pos ⟨by omega, below⟩, SmallInteger.negative_eq,
    arithmetic_exactly ((holds_neg_iff base).mpr negatable)]
  show (do
    let result ← powerOfNonnegative ⟨-base.value, _⟩ exponent
    _) = _
  rw [powerOfNonnegative_eq room _ _ power_nonneg]
  show 0 ≤ -base.value
  omega

/-- The least integer: only where its power overflows is `^` right. -/
theorem power_of_least (room : 0 < bits) {base exponent : SmallInteger bits}
    (power_nonneg : 0 ≤ exponent.value) (least : base.value = -2 ^ bits) :
    power base exponent =
        arithmetic (exactly (base.value ^ exponent.value.toNat)) ↔
      1 < exponent.value.toNat := by
  have positive : (0 : Int) < 2 ^ bits := by positivity
  have fails : power base exponent =
      .error (.arithmetic .arithmeticOverflow) := by
    unfold power
    rw [if_neg (by omega), if_pos (by omega), SmallInteger.negative_eq,
      arithmetic_overflow fun holds => (holds_neg_iff base).mp holds least]
    rfl
  rw [fails]
  constructor
  · intro same
    by_contra few
    have holds : Holds bits (base.value ^ exponent.value.toNat) := by
      rcases (by omega : exponent.value.toNat = 0 ∨ exponent.value.toNat = 1)
        with none | one
      · rw [none, pow_zero]
        exact (holds_literals room).1
      · rw [one, pow_one]
        exact base.holds
    rw [arithmetic_exactly holds] at same
    cases same
  · intro more
    rw [least, arithmetic_overflow (not_holds_leastPower room more)]

/-- A negative base that has an opposite: `^` fails only where the power of
the opposite, but not the power, is too large. -/
theorem power_of_negative_iff (room : 0 < bits)
    {base exponent : SmallInteger bits} (power_nonneg : 0 ≤ exponent.value)
    (below : base.value < 0) (negatable : base.value ≠ -2 ^ bits) :
    power base exponent =
        arithmetic (exactly (base.value ^ exponent.value.toNat)) ↔
      ¬ ReachesLeast bits base.value exponent.value.toNat := by
  have opposite_pos : 0 < (-base.value) ^ exponent.value.toNat :=
    pow_pos (by omega) _
  rw [power_of_negative room power_nonneg below negatable]
  rcases Nat.even_or_odd exponent.value.toNat with even | odd
  · have same : (-base.value) ^ exponent.value.toNat =
        base.value ^ exponent.value.toNat := even.neg_pow base.value
    have parity : exponent.value.toNat % 2 = 0 := Nat.even_iff.mp even
    have exact : (do
        let result ← arithmetic
          (exactly ((-base.value) ^ exponent.value.toNat))
        if exponent.value % 2 = 1 then arithmetic result.negative
        else return result) =
        (arithmetic (exactly (base.value ^ exponent.value.toNat)) :
          Except PowerFailure (SmallInteger bits)) := by
      simp only [if_neg (by omega : ¬ exponent.value % 2 = 1), bind_pure, same]
    refine ⟨fun _ => ?_, fun _ => exact⟩
    rintro ⟨_, -, -, uneven⟩
    omega
  · have opposite : (-base.value) ^ exponent.value.toNat =
        -base.value ^ exponent.value.toNat := odd.neg_pow base.value
    have parity : exponent.value.toNat % 2 = 1 := Nat.odd_iff.mp odd
    have uneven : exponent.value % 2 = 1 := by omega
    rw [reachesLeast_iff parity below]
    by_cases holds : Holds bits ((-base.value) ^ exponent.value.toNat)
    · rw [arithmetic_exactly holds]
      refine ⟨fun _ reaches => ?_, fun _ => ?_⟩
      · unfold Holds at holds
        omega
      · show (if exponent.value % 2 = 1 then
          arithmetic (SmallInteger.negative _) else _) = _
        rw [if_pos uneven, SmallInteger.negative_eq]
        show arithmetic (exactly (-(-base.value) ^ exponent.value.toNat)) = _
        rw [opposite, neg_neg]
    · rw [arithmetic_overflow holds]
      constructor
      · intro same reaches
        have least : Holds bits (base.value ^ exponent.value.toNat) := by
          unfold Holds
          omega
        rw [arithmetic_exactly least] at same
        cases same
      · intro misses
        have beyond : ¬ Holds bits (base.value ^ exponent.value.toNat) := by
          unfold Holds at holds ⊢
          omega
        rw [arithmetic_overflow beyond]
        rfl

/-- `^` is exact, or signals an overflow, unless the power of the opposite is
just too large. -/
theorem power_exact_iff (room : 0 < bits) (base exponent : SmallInteger bits)
    (power_nonneg : 0 ≤ exponent.value) :
    power base exponent =
        arithmetic (exactly (base.value ^ exponent.value.toNat)) ↔
      ¬ ReachesLeast bits base.value exponent.value.toNat ∧
        ¬ (base.value = -2 ^ bits ∧ exponent.value = 0) := by
  have positive : (0 : Int) < 2 ^ bits := by positivity
  rcases lt_or_ge base.value 0 with below | base_nonneg
  · by_cases least : base.value = -2 ^ bits
    · rw [power_of_least room power_nonneg least]
      constructor
      · refine fun more => ⟨?_, fun none => by omega⟩
        rintro ⟨size, same, product, -⟩
        have size_eq : size = bits := by
          have powers : (2 : Int) ^ size = 2 ^ bits := by omega
          exact Nat.pow_right_injective (le_refl 2) (by exact_mod_cast powers)
        rw [size_eq] at product
        nlinarith
      · rintro ⟨misses, some⟩
        by_contra few
        refine misses ⟨bits, least, ?_, ?_⟩
        · have one : exponent.value.toNat = 1 := by omega
          rw [one, mul_one]
        · omega
    · rw [power_of_negative_iff room power_nonneg below least]
      exact ⟨fun misses => ⟨misses, fun same => least same.1⟩, fun both => both.1⟩
  · have exact : power base exponent =
        arithmetic (exactly (base.value ^ exponent.value.toNat)) := by
      unfold power
      rw [if_neg (by omega), if_neg (by omega),
        powerOfNonnegative_eq room _ _ power_nonneg base_nonneg]
    refine ⟨fun _ => ⟨?_, fun least => by omega⟩, fun _ => exact⟩
    rintro ⟨size, same, -⟩
    have sized : (0 : Int) < 2 ^ size := by positivity
    omega

/-- Powers and shifts are exact or signal an overflow, except for the least
integer and its powers of two. -/
theorem powers_and_shifts_exact_iff (room : 0 < bits)
    (base exponent x shift : SmallInteger bits)
    (power_nonneg : 0 ≤ exponent.value) :
    (power base exponent =
        arithmetic (exactly (base.value ^ exponent.value.toNat)) ↔
      ¬ ReachesLeast bits base.value exponent.value.toNat ∧
        ¬ (base.value = -2 ^ bits ∧ exponent.value = 0)) ∧
    (ash x shift = exactly (shifted x.value shift.value) ↔
      shift.value ≠ -2 ^ bits) :=
  ⟨power_exact_iff room base exponent power_nonneg, ash_exact_iff x shift⟩

/-- Machine words of 64 bits: three to the fourth power, and five shifted to
the right by one. -/
theorem powers_and_shifts_exact_small :
    power (literal 3 : SmallInteger 61) (literal 4) =
        arithmetic (exactly (3 ^ 4)) ∧
      ash (literal 5 : SmallInteger 61) (literal (-1)) = exactly 2 := by
  have exact := powers_and_shifts_exact_iff (by decide)
    (literal 3 : SmallInteger 61) (literal 4) (literal 5) (literal (-1))
    (by decide)
  refine ⟨exact.1.mpr ⟨?_, by decide⟩, exact.2.mpr (by decide)⟩
  rintro ⟨_, -, -, odd⟩
  exact absurd odd (by decide)

/-- Minus two to the power 61 is the least integer of 64-bit machine words, but
signals an overflow; so does its power of zero, and a shift to the right by
its magnitude. -/
theorem leastPower_overflows :
    power (literal (-2) : SmallInteger 61) (literal 61) =
        .error (.arithmetic .arithmeticOverflow) ∧
      Holds 61 ((-2) ^ 61) ∧
      power (literal (-2 ^ 61) : SmallInteger 61) (literal 0) =
        .error (.arithmetic .arithmeticOverflow) ∧
      ash (literal 5 : SmallInteger 61) (literal (-2 ^ 61)) =
        .error .arithmeticOverflow := by
  decide +kernel

end OpenDylan.Numbers
