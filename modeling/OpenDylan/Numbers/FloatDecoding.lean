import OpenDylan.Lib.BinaryFloat

/-!
# Classifying and decoding floats

A float is taken apart as one machine word or as two, each of which holds half
of a double float.  Its exponent tells its class; the exponent of a significand
is put in its place, and the fraction of a subnormal float is shifted first.
-/

namespace OpenDylan.Numbers.FloatDecoding

open OpenDylan.Lib.BinaryFloat

/-! ## Machine words -/

/-- What keeps an operation from returning. -/
inductive Failure where
  | invalidShiftQuantity (count : Int)
  | infinityOrNan
deriving DecidableEq

variable {size : Nat}

/-- `check-shift-quantity`; `size` is that of a machine word. -/
def checkShiftQuantity (size : Nat) (count : Int) : Except Failure Nat :=
  if 0 ≤ count ∧ count < size then .ok count.toNat
  else .error (.invalidShiftQuantity count)

/-- `u%shift-left` -/
def unsignedShiftLeft (x : BitVec size) (count : Int) :
    Except Failure (BitVec size) := do
  let count ← checkShiftQuantity size count
  return x <<< count

/-- `%shift-left`: the low word and the high word. -/
def shiftLeft (x : BitVec size) (count : Int) :
    Except Failure (BitVec size × BitVec size) := do
  let count ← checkShiftQuantity size count
  let full := x.setWidth (size + size) <<< count
  return (full.setWidth size, (full >>> size).setWidth size)

/-- `%count-high-zeros` -/
def countHighZeros (x : BitVec size) : Int :=
  if x.toNat = 0 then size else size - 1 - x.toNat.log2

/-! ## Single floats -/

/-- The fields of a single float. -/
def single : Format := ⟨8, 23, by decide⟩

namespace SingleFloat

/-- `$ieee-754-single-float-digits` -/
def digits : Int := 23 + 1

/-- `$ieee-754-single-float-exponent-bias` -/
def exponentBias : Int := 0x7F

/-- `$minimum-single-float-exponent` -/
def minimumExponent : Int := 0x01 - (exponentBias - 1)

/-- `$maximum-single-float-exponent` -/
def maximumExponent : Int := 0xFE - (exponentBias - 1)

/-- `decode-single-float` -/
def decode (size : Nat) (float : BitVec 32) : BitVec size :=
  float.setWidth size

/-- `encode-single-float` -/
def encode (x : BitVec size) : BitVec 32 := x.setWidth 32

/-- `negative?` -/
def isNegative (float : BitVec 32) : Bool := single.isLessThanZero float.toNat

/-- `abs` -/
def abs (float : BitVec 32) : BitVec 32 :=
  if isNegative float then float ^^^ 0x80000000 else float

/-- `-1.0s0` or `1.0s0` -/
def sign (float : BitVec 32) : BitVec 32 :=
  if isNegative float then 0xBF800000 else 0x3F800000

/-- `%float-exponent` -/
def floatExponent (size : Nat) (float : BitVec 32) : Int :=
  let decoded := decode size float
  let rawExponent := (decoded >>> (digits - 1).toNat) &&& 0xFF
  rawExponent.toInt - (exponentBias - 1)

/-- `significand-bits` -/
def significandBits (size : Nat) (float : BitVec 32) : BitVec size :=
  decode size float &&& 0x7FFFFF

/-- `classify-float` -/
def classifyFloat (size : Nat) (float : BitVec 32) : Classification :=
  let significandBits := significandBits size float
  let exponent := floatExponent size float
  if exponent < minimumExponent then
    if significandBits = 0 then .zero else .subnormal
  else if exponent > maximumExponent then
    if significandBits = 0 then .infinite else .nan
  else
    .normal

/-- The exponent of a significand, in its place. -/
def exponentInPlace (size : Nat) : BitVec size :=
  BitVec.ofInt size (exponentBias - 1) <<< (digits - 1).toNat

/-- `decode-single-subnormal` -/
def decodeSubnormal (size : Nat) (float : BitVec 32) :
    Except Failure (BitVec 32 × Int × BitVec 32) := do
  let significandBits := significandBits size float
  let shift := countHighZeros significandBits + digits - size
  let exponent := minimumExponent - shift
  let shifted ← unsignedShiftLeft significandBits shift
  let rawSignificand := exponentInPlace size ||| (shifted &&& 0x7FFFFF)
  return (encode rawSignificand, exponent, sign float)

/-- `decode-float` -/
def decodeFloat (size : Nat) (float : BitVec 32) :
    Except Failure (BitVec 32 × Int × BitVec 32) :=
  let significandBits := significandBits size float
  let exponent := floatExponent size float
  if exponent < minimumExponent then
    if significandBits = 0 then .ok (0, 0, sign float)
    else decodeSubnormal size float
  else if exponent > maximumExponent then
    .ok (abs float, 0, sign float)
  else
    let rawSignificand := exponentInPlace size ||| significandBits
    .ok (encode rawSignificand, exponent, sign float)

/-- `float-precision` -/
def floatPrecision (size : Nat) (float : BitVec 32) : Int :=
  if floatExponent size float > minimumExponent then digits
  else size - countHighZeros (significandBits size float)

end SingleFloat

/-! ## Double floats -/

/-- The fields of a double float. -/
def double : Format := ⟨11, 52, by decide⟩

namespace DoubleFloat

/-- `$ieee-754-double-float-digits` -/
def digits : Int := 52 + 1

/-- `$ieee-754-double-float-exponent-bias` -/
def exponentBias : Int := 0x3FF

/-- `$minimum-double-float-exponent` -/
def minimumExponent : Int := 0x001 - (exponentBias - 1)

/-- `$maximum-double-float-exponent` -/
def maximumExponent : Int := 0x7FE - (exponentBias - 1)

/-- `decode-double-float`: the low word and the high word. -/
def decode (size : Nat) (float : BitVec 64) : BitVec size × BitVec size :=
  ((float.setWidth 32).setWidth size, (float >>> 32).setWidth size)

/-- `encode-double-float` -/
def encode (low high : BitVec size) : BitVec 64 :=
  high.setWidth 64 <<< 32 ||| low.setWidth 64

/-- `negative?` -/
def isNegative (float : BitVec 64) : Bool := double.isLessThanZero float.toNat

/-- `-1.0d0` or `1.0d0` -/
def sign (float : BitVec 64) : BitVec 64 :=
  if isNegative float then 0xBFF0000000000000 else 0x3FF0000000000000

/-- `%float-exponent` -/
def floatExponent (size : Nat) (float : BitVec 64) : Int :=
  let (_, decodedHigh) := decode size float
  let rawExponent := (decodedHigh >>> (digits - 1 - 32).toNat) &&& 0x7FF
  rawExponent.toInt - (exponentBias - 1)

/-- `significand-high-bits` -/
def significandHighBits (size : Nat) (float : BitVec 64) : BitVec size :=
  (decode size float).2 &&& 0xFFFFF

/-- `classify-float` -/
def classifyFloat (size : Nat) (float : BitVec 64) : Classification :=
  let exponent := floatExponent size float
  let (decodedLow, _) := decode size float
  let significandHighBits := significandHighBits size float
  if exponent < minimumExponent then
    if significandHighBits = 0 ∧ decodedLow = 0 then .zero else .subnormal
  else if exponent > maximumExponent then
    -- The low word is not looked at.
    if significandHighBits = 0 then .infinite else .nan
  else
    .normal

/-- The exponent of a significand, in its place. -/
def exponentInPlace (size : Nat) : BitVec size :=
  BitVec.ofInt size (exponentBias - 1) <<< (digits - 1 - 32).toNat

/-- How far `decode-double-subnormal` shifts. -/
def subnormalShift (size : Nat) (float : BitVec 64) : Int :=
  let (significandLowBits, _) := decode size float
  let significandHighBits := significandHighBits size float
  if significandHighBits = 0 then
    countHighZeros significandLowBits - size + digits
  else
    countHighZeros significandHighBits - size - 32 + digits

/-- The low word of a significand, and what is carried to its high word. -/
def shiftLowBits (significandLowBits : BitVec size) (shift : Int) :
    Except Failure (BitVec size × BitVec size) :=
  if size = 32 then
    shiftLeft significandLowBits shift
  else do
    let shifted ← unsignedShiftLeft significandLowBits shift
    return (shifted &&& 0xFFFFFFFF, shifted.sshiftRight 32)

/-- `decode-double-subnormal` -/
def decodeSubnormal (size : Nat) (float : BitVec 64) :
    Except Failure (BitVec 64 × Int × BitVec 64) := do
  let (significandLowBits, _) := decode size float
  let significandHighBits := significandHighBits size float
  let shift := subnormalShift size float
  let exponent := minimumExponent - shift
  let (rawLowSignificand, carry) ← shiftLowBits significandLowBits shift
  let shifted ← unsignedShiftLeft significandHighBits shift
  let rawHighSignificand :=
    exponentInPlace size ||| ((shifted ||| carry) &&& 0xFFFFF)
  return (encode rawLowSignificand rawHighSignificand, exponent, sign float)

/-- `decode-float` -/
def decodeFloat (size : Nat) (float : BitVec 64) :
    Except Failure (BitVec 64 × Int × BitVec 64) :=
  let exponent := floatExponent size float
  let (decodedLow, _) := decode size float
  let significandHighBits := significandHighBits size float
  if exponent < minimumExponent then
    if significandHighBits = 0 ∧ decodedLow = 0 then .ok (0, 0, sign float)
    else decodeSubnormal size float
  else if exponent > maximumExponent then
    .error .infinityOrNan
  else
    let rawHighSignificand := exponentInPlace size ||| significandHighBits
    .ok (encode decodedLow rawHighSignificand, exponent, sign float)

/-- `float-precision` -/
def floatPrecision (size : Nat) (float : BitVec 64) : Int :=
  if floatExponent size float > minimumExponent then
    digits
  else
    let (decodedLow, _) := decode size float
    let significandHighBits := significandHighBits size float
    if significandHighBits = 0 then size - countHighZeros decodedLow
    else size - countHighZeros significandHighBits + 32

end DoubleFloat

/-! ## Machine words as numbers -/

theorem checkShiftQuantity_ok {count : Nat} (small : count < size) :
    checkShiftQuantity size count = .ok count := by
  unfold checkShiftQuantity
  rw [if_pos ⟨by omega, by omega⟩, Int.toNat_natCast]

theorem checkShiftQuantity_error {count : Nat} (large : size ≤ count) :
    checkShiftQuantity size count = .error (.invalidShiftQuantity count) := by
  unfold checkShiftQuantity
  rw [if_neg fun ⟨_, small⟩ => by omega]

theorem toNat_mask (x : BitVec size) {count : Nat} (le : count ≤ size) :
    (x &&& BitVec.ofNat size (2 ^ count - 1)).toNat = x.toNat % 2 ^ count := by
  have power := Nat.pow_le_pow_right (show 0 < 2 by decide) le
  have positive := Nat.two_pow_pos count
  rw [BitVec.toNat_and, BitVec.toNat_ofNat, Nat.mod_eq_of_lt (by omega),
    Nat.and_two_pow_sub_one_eq_mod]

theorem unsignedShiftLeft_ok (x : BitVec size) {count : Nat}
    (small : count < size) :
    unsignedShiftLeft x (count : Int) = .ok (x <<< count) := by
  unfold unsignedShiftLeft
  rw [checkShiftQuantity_ok small]
  rfl

/-- The bits that a shift loses are above a mask. -/
theorem toNat_shift_mask (x : BitVec size) (shift : Nat) {count : Nat}
    (le : count ≤ size) :
    ((x <<< shift) &&& BitVec.ofNat size (2 ^ count - 1)).toNat =
      x.toNat * 2 ^ shift % 2 ^ count := by
  rw [toNat_mask _ le, BitVec.toNat_shiftLeft, Nat.shiftLeft_eq,
    Nat.mod_mod_of_dvd _ (Nat.pow_dvd_pow 2 le)]

theorem toInt_small (wide : 32 ≤ size) {x : BitVec size}
    (small : x.toNat < 2 ^ 31) : x.toInt = x.toNat := by
  have power := Nat.pow_le_pow_right (show 0 < 2 by decide) wide
  apply BitVec.toInt_eq_toNat_of_lt
  omega

theorem countHighZeros_eq {x : BitVec size} (nonzero : x.toNat ≠ 0) :
    countHighZeros x = size - 1 - x.toNat.log2 :=
  if_neg nonzero

/-- There are no more bits than the width of a field. -/
theorem countBits_le {x : BitVec size} {count : Nat}
    (small : x.toNat < 2 ^ count) :
    size - countHighZeros x ≤ count := by
  unfold countHighZeros
  split
  · omega
  · next nonzero =>
      have := (Nat.log2_lt nonzero).mpr small
      omega

/-! ## Decoding single floats -/

namespace SingleFloat

variable (wide : 32 ≤ size) (float : BitVec 32)

include wide

theorem toNat_decode : (decode size float).toNat = float.toNat := by
  have power := Nat.pow_le_pow_right (show 0 < 2 by decide) wide
  unfold decode
  rw [BitVec.toNat_setWidth,
    Nat.mod_eq_of_lt (Nat.lt_of_lt_of_le float.isLt power)]

theorem toNat_significandBits :
    (significandBits size float).toNat = single.fraction float.toNat := by
  unfold significandBits
  rw [show (0x7FFFFF : BitVec size) = BitVec.ofNat size (2 ^ 23 - 1) from rfl,
    toNat_mask _ (by omega), toNat_decode wide]
  rfl

theorem floatExponent_eq :
    floatExponent size float = single.exponent float.toNat - 126 := by
  have raw : ((decode size float >>> (digits - 1).toNat) &&& 0xFF).toNat =
      single.exponent float.toNat := by
    rw [show (0xFF : BitVec size) = BitVec.ofNat size (2 ^ 8 - 1) from rfl,
      toNat_mask _ (by omega), BitVec.toNat_ushiftRight, toNat_decode wide,
      Nat.shiftRight_eq_div_pow]
    rfl
  have low : single.exponent float.toNat < 2 ^ 8 := Format.exponent_lt
  unfold floatExponent
  simp only
  rw [toInt_small wide (by omega), raw]
  rfl

theorem significandBits_eq_zero_iff :
    significandBits size float = 0 ↔ single.fraction float.toNat = 0 := by
  rw [← toNat_significandBits wide float]
  exact BitVec.toNat_eq

theorem lt_minimum_iff :
    floatExponent size float < minimumExponent ↔
      single.exponent float.toNat = 0 := by
  rw [floatExponent_eq wide]
  unfold minimumExponent exponentBias
  omega

theorem gt_maximum_iff :
    floatExponent size float > maximumExponent ↔
      single.exponent float.toNat = 2 ^ single.exponentBits - 1 := by
  have low : single.exponent float.toNat < 2 ^ 8 := Format.exponent_lt
  rw [floatExponent_eq wide, show 2 ^ single.exponentBits - 1 = 255 from rfl]
  unfold maximumExponent exponentBias
  omega

/-- Every single float is classified as its pattern is. -/
theorem classifyFloat_eq :
    classifyFloat size float = single.classify float.toNat := by
  unfold classifyFloat Format.classify
  simp only [lt_minimum_iff wide, gt_maximum_iff wide,
    significandBits_eq_zero_iff wide]

/-- The precision is the number of digits, if the exponent is not one of the
two least. -/
theorem floatPrecision_eq_iff
    (normal : single.classify float.toNat = .normal) :
    floatPrecision size float = digits ↔ single.exponent float.toNat ≠ 1 := by
  have nonzero : single.exponent float.toNat ≠ 0 :=
    Format.exponent_ne_zero_of_normal normal
  have bits := @countBits_le size (significandBits size float) 23 (by
      rw [toNat_significandBits wide]
      exact Format.fraction_lt)
  unfold floatPrecision
  rw [floatExponent_eq wide]
  unfold minimumExponent exponentBias digits
  split <;> omega

theorem toNat_exponentInPlace :
    (exponentInPlace size).toNat = 126 <<< 23 := by
  have power := Nat.pow_le_pow_right (show 0 < 2 by decide) wide
  unfold exponentInPlace exponentBias digits
  rw [show (0x7F - 1 : Int) = ((126 : Nat) : Int) from rfl,
    BitVec.ofInt_natCast, BitVec.toNat_shiftLeft, BitVec.toNat_ofNat,
    Nat.mod_eq_of_lt (show 126 < 2 ^ size by omega)]
  exact Nat.mod_eq_of_lt (show 126 <<< 23 < 2 ^ size by
    have : 126 <<< 23 < 2 ^ 32 := by decide
    omega)

/-- The exponent of a significand is put above its fraction. -/
theorem toNat_encode {fraction : BitVec size}
    (small : fraction.toNat < 2 ^ 23) :
    (encode (exponentInPlace size ||| fraction)).toNat =
      single.half fraction.toNat := by
  unfold encode
  rw [BitVec.toNat_setWidth, BitVec.toNat_or, toNat_exponentInPlace wide,
    ← Nat.shiftLeft_add_eq_or_of_lt small, Nat.mod_eq_of_lt (by
      have : 126 <<< 23 < 2 ^ 32 - 2 ^ 23 := by decide
      omega)]
  rfl

omit wide in
theorem toNat_sign
    (nonzero : single.exponent float.toNat ≠ 0 ∨
      single.fraction float.toNat ≠ 0)
    (finite : single.exponent float.toNat ≠ 2 ^ single.exponentBits - 1) :
    (sign float).toNat = single.one (single.isNegative float.toNat) := by
  unfold sign isNegative
  rw [Format.isLessThanZero_eq nonzero finite]
  cases single.isNegative float.toNat <;> rfl

/-- A subnormal single float is shifted to a significand. -/
theorem decodeSubnormal_eq (zero : single.exponent float.toNat = 0)
    (fraction : single.fraction float.toNat ≠ 0) :
    ∃ significand, decodeSubnormal size float =
        .ok (significand, single.scale float.toNat, sign float) ∧
      significand.toNat = single.significand float.toNat := by
  have value := toNat_significandBits wide float
  have below : (single.fraction float.toNat).log2 < 23 :=
    (Nat.log2_lt fraction).mpr Format.fraction_lt
  have shift : countHighZeros (significandBits size float) + digits - size =
      (single.shift float.toNat : Int) := by
    rw [countHighZeros_eq (by rwa [value]), value]
    unfold digits Format.shift
    rw [show single.fractionBits = 23 from rfl]
    omega
  have small : single.shift float.toNat < size := by
    unfold Format.shift
    rw [show single.fractionBits = 23 from rfl]
    omega
  have scale : single.scale float.toNat =
      minimumExponent - single.shift float.toNat := by
    unfold Format.scale
    rw [if_pos zero]
    rfl
  refine ⟨encode (exponentInPlace size |||
    ((significandBits size float <<< single.shift float.toNat) &&&
      0x7FFFFF)), ?_, ?_⟩
  · unfold decodeSubnormal
    simp only [shift]
    rw [unsignedShiftLeft_ok _ small, scale]
    rfl
  · have shifted := toNat_shift_mask (significandBits size float)
      (single.shift float.toNat) (show 23 ≤ size by omega)
    rw [value] at shifted
    change ((significandBits size float <<< single.shift float.toNat) &&&
      0x7FFFFF).toNat = _ at shifted
    rw [toNat_encode wide (by
      rw [shifted]
      exact Nat.mod_lt _ (Nat.two_pow_pos _)), shifted]
    unfold Format.significand
    rw [if_pos zero]
    rfl

/-- Every finite single float other than zero is decoded. -/
theorem decodeFloat_eq
    (nonzero : single.exponent float.toNat ≠ 0 ∨
      single.fraction float.toNat ≠ 0)
    (finite : single.exponent float.toNat ≠ 2 ^ single.exponentBits - 1) :
    ∃ significand sign, decodeFloat size float =
        .ok (significand, single.scale float.toNat, sign) ∧
      significand.toNat = single.significand float.toNat ∧
      sign.toNat = single.one (single.isNegative float.toNat) := by
  have isSign := toNat_sign float nonzero finite
  unfold decodeFloat
  simp only [lt_minimum_iff wide, gt_maximum_iff wide,
    significandBits_eq_zero_iff wide]
  by_cases zero : single.exponent float.toNat = 0
  · have fraction := nonzero.resolve_left (not_not.mpr zero)
    obtain ⟨significand, decoded, value⟩ :=
      decodeSubnormal_eq wide float zero fraction
    rw [if_pos zero, if_neg fraction]
    exact ⟨significand, sign float, decoded, value, isSign⟩
  · rw [if_neg zero, if_neg finite]
    refine ⟨encode (exponentInPlace size ||| significandBits size float),
      sign float, ?_, ?_, isSign⟩
    · rw [floatExponent_eq wide, Format.scale, if_neg zero]
      rfl
    · rw [toNat_encode wide (by
        rw [toNat_significandBits wide]
        exact Format.fraction_lt), toNat_significandBits wide,
        Format.significand, if_neg zero]

end SingleFloat

/-! ## Decoding double floats -/

namespace DoubleFloat

variable (wide : 32 ≤ size) (float : BitVec 64)

include wide

theorem toNat_decode :
    (decode size float).1.toNat = float.toNat % 2 ^ 32 ∧
      (decode size float).2.toNat = float.toNat / 2 ^ 32 := by
  have power := Nat.pow_le_pow_right (show 0 < 2 by decide) wide
  have bound := float.isLt
  unfold decode
  constructor
  · rw [BitVec.toNat_setWidth, BitVec.toNat_setWidth]
    exact Nat.mod_eq_of_lt (by omega)
  · rw [BitVec.toNat_setWidth, BitVec.toNat_ushiftRight,
      Nat.shiftRight_eq_div_pow]
    exact Nat.mod_eq_of_lt (by omega)

theorem toNat_significandHighBits :
    (significandHighBits size float).toNat =
      float.toNat / 2 ^ 32 % 2 ^ 20 := by
  unfold significandHighBits
  rw [show (0xFFFFF : BitVec size) = BitVec.ofNat size (2 ^ 20 - 1) from rfl,
    toNat_mask _ (by omega), (toNat_decode wide float).2]

/-- The fraction of a double float is in both its words. -/
theorem fraction_eq :
    double.fraction float.toNat =
      (significandHighBits size float).toNat * 2 ^ 32 +
        (decode size float).1.toNat := by
  rw [toNat_significandHighBits wide, (toNat_decode wide float).1]
  unfold Format.fraction
  rw [show 2 ^ double.fractionBits = 2 ^ 32 * 2 ^ 20 from rfl, Nat.mod_mul,
    Nat.add_comm, Nat.mul_comm]

theorem floatExponent_eq :
    floatExponent size float = double.exponent float.toNat - 1022 := by
  have raw : (((decode size float).2 >>> (digits - 1 - 32).toNat) &&&
      0x7FF).toNat = double.exponent float.toNat := by
    rw [show (0x7FF : BitVec size) = BitVec.ofNat size (2 ^ 11 - 1) from rfl,
      toNat_mask _ (by omega), BitVec.toNat_ushiftRight,
      (toNat_decode wide float).2, Nat.shiftRight_eq_div_pow,
      Nat.div_div_eq_div_mul]
    rfl
  have low : double.exponent float.toNat < 2 ^ 11 := Format.exponent_lt
  unfold floatExponent
  simp only
  rw [toInt_small wide (by omega), raw]
  rfl

theorem words_eq_zero_iff :
    (significandHighBits size float = 0 ∧ (decode size float).1 = 0) ↔
      double.fraction float.toNat = 0 := by
  rw [fraction_eq wide, BitVec.toNat_eq, BitVec.toNat_eq]
  show (_ = 0 ∧ _ = 0) ↔ _
  omega

theorem lt_minimum_iff :
    floatExponent size float < minimumExponent ↔
      double.exponent float.toNat = 0 := by
  rw [floatExponent_eq wide]
  unfold minimumExponent exponentBias
  omega

theorem gt_maximum_iff :
    floatExponent size float > maximumExponent ↔
      double.exponent float.toNat = 2 ^ double.exponentBits - 1 := by
  have low : double.exponent float.toNat < 2 ^ 11 := Format.exponent_lt
  rw [floatExponent_eq wide, show 2 ^ double.exponentBits - 1 = 2047 from rfl]
  unfold maximumExponent exponentBias
  omega

omit wide in
/-- A pattern that is no number, but has nothing in its high word that shows
it. -/
def LowNan (float : BitVec 64) : Prop :=
  double.classify float.toNat = .nan ∧ float.toNat / 2 ^ 32 % 2 ^ 20 = 0

/-- A double float is classified as its pattern is, unless only its low word
shows that it is no number. -/
theorem classifyFloat_eq_iff :
    classifyFloat size float = double.classify float.toNat ↔
      ¬ LowNan float := by
  have words := words_eq_zero_iff wide float
  have high : significandHighBits size float = 0 ↔
      float.toNat / 2 ^ 32 % 2 ^ 20 = 0 := by
    rw [← toNat_significandHighBits wide]
    exact BitVec.toNat_eq
  unfold LowNan classifyFloat Format.classify
  simp only [lt_minimum_iff wide, gt_maximum_iff wide]
  generalize float.toNat / 2 ^ 32 % 2 ^ 20 = highBits at high ⊢
  by_cases zero : double.exponent float.toNat = 0
  · simp only [if_pos zero, words]
    split <;> simp
  by_cases top : double.exponent float.toNat = 2 ^ double.exponentBits - 1
  · simp only [if_neg zero, if_pos top, high]
    by_cases fraction : double.fraction float.toNat = 0
    · have highZero := high.mp (words.mpr fraction).1
      simp [fraction, highZero]
    · by_cases highZero : highBits = 0
      · simp [fraction, highZero]
      · simp [fraction, highZero]
  · simp only [if_neg zero, if_neg top]
    simp

/-- The precision is the number of digits, if the exponent is not one of the
two least. -/
theorem floatPrecision_eq_iff
    (normal : double.classify float.toNat = .normal) :
    floatPrecision size float = digits ↔ double.exponent float.toNat ≠ 1 := by
  have nonzero : double.exponent float.toNat ≠ 0 :=
    Format.exponent_ne_zero_of_normal normal
  have lowBits := @countBits_le size (decode size float).1 32 (by
    rw [(toNat_decode wide float).1]
    exact Nat.mod_lt _ (Nat.two_pow_pos _))
  have highBits := @countBits_le size (significandHighBits size float) 20 (by
      rw [toNat_significandHighBits wide]
      exact Nat.mod_lt _ (Nat.two_pow_pos _))
  unfold floatPrecision
  rw [floatExponent_eq wide]
  unfold minimumExponent exponentBias digits
  simp only
  split
  · omega
  · split <;> omega

theorem toNat_exponentInPlace :
    (exponentInPlace size).toNat = 1022 <<< 20 := by
  have power := Nat.pow_le_pow_right (show 0 < 2 by decide) wide
  unfold exponentInPlace exponentBias digits
  rw [show (0x3FF - 1 : Int) = ((1022 : Nat) : Int) from rfl,
    BitVec.ofInt_natCast, BitVec.toNat_shiftLeft, BitVec.toNat_ofNat,
    Nat.mod_eq_of_lt (show 1022 < 2 ^ size by omega)]
  exact Nat.mod_eq_of_lt (show 1022 <<< 20 < 2 ^ size by
    have : 1022 <<< 20 < 2 ^ 32 := by decide
    omega)

/-- The exponent of a significand is put above both words of its fraction. -/
theorem toNat_encode {low high : BitVec size} (lowSmall : low.toNat < 2 ^ 32)
    (highSmall : high.toNat < 2 ^ 20) :
    (encode low (exponentInPlace size ||| high)).toNat =
      double.half (high.toNat * 2 ^ 32 + low.toNat) := by
  have word : 1022 <<< 20 + high.toNat < 2 ^ 32 := by
    have : 1022 <<< 20 + 2 ^ 20 ≤ 2 ^ 32 := by decide
    omega
  have merged : (1022 <<< 20 + high.toNat) <<< 32 + low.toNat =
      double.half (high.toNat * 2 ^ 32 + low.toNat) := by
    unfold Format.half Format.assemble
    rw [Nat.shiftLeft_eq, Nat.shiftLeft_eq,
      show double.fractionBits = 20 + 32 from rfl, Nat.pow_add]
    show _ = (0 * 2 ^ double.exponentBits + 1022) * _ + _
    ring
  unfold encode
  rw [BitVec.toNat_or, BitVec.toNat_shiftLeft, BitVec.toNat_setWidth,
    BitVec.toNat_setWidth, BitVec.toNat_or, toNat_exponentInPlace wide,
    ← Nat.shiftLeft_add_eq_or_of_lt highSmall,
    Nat.mod_eq_of_lt (show 1022 <<< 20 + high.toNat < 2 ^ 64 by omega),
    Nat.mod_eq_of_lt (show low.toNat < 2 ^ 64 by omega),
    Nat.mod_eq_of_lt (by rw [Nat.shiftLeft_eq]; omega),
    ← Nat.shiftLeft_add_eq_or_of_lt lowSmall, merged]

omit wide in
theorem toNat_sign
    (nonzero : double.exponent float.toNat ≠ 0 ∨
      double.fraction float.toNat ≠ 0)
    (finite : double.exponent float.toNat ≠ 2 ^ double.exponentBits - 1) :
    (sign float).toNat = double.one (double.isNegative float.toNat) := by
  unfold sign isNegative
  rw [Format.isLessThanZero_eq nonzero finite]
  cases double.isNegative float.toNat <;> rfl

omit wide in
/-- The leading bit of two words is that of the high word, if it has one. -/
theorem log2_words {high low : Nat} (nonzero : high ≠ 0)
    (small : low < 2 ^ 32) : (high * 2 ^ 32 + low).log2 = high.log2 + 32 := by
  have least := Nat.log2_self_le nonzero
  have most := @Nat.lt_log2_self high
  rw [Nat.log2_eq_iff (by omega), Nat.pow_add,
    Nat.add_right_comm high.log2 32 1, Nat.pow_add]
  omega

/-- A subnormal double float is shifted as its fraction is. -/
theorem subnormalShift_eq (fraction : double.fraction float.toNat ≠ 0) :
    subnormalShift size float = double.shift float.toNat := by
  have words := fraction_eq wide float
  have low : (decode size float).1.toNat < 2 ^ 32 := by
    rw [(toNat_decode wide float).1]
    exact Nat.mod_lt _ (Nat.two_pow_pos _)
  have below : (double.fraction float.toNat).log2 < 52 :=
    (Nat.log2_lt fraction).mpr Format.fraction_lt
  unfold subnormalShift Format.shift digits
  rw [show double.fractionBits = 52 from rfl]
  simp only
  split
  case isTrue zero =>
    have none : (significandHighBits size float).toNat = 0 :=
      BitVec.toNat_eq.mp zero
    rw [none, Nat.zero_mul, Nat.zero_add] at words
    rw [words] at fraction below ⊢
    rw [countHighZeros_eq fraction]
    omega
  case isFalse some =>
    have nonzero : (significandHighBits size float).toNat ≠ 0 :=
      fun none => some (BitVec.toNat_eq.mpr none)
    have leading := log2_words nonzero low
    rw [← words] at leading
    rw [countHighZeros_eq nonzero]
    omega

omit wide in
/-- A word of thirty-two bits is shifted into two words. -/
theorem shiftLowBits_narrow {low : BitVec 32} {shift : Nat}
    (valid : shift < 32) :
    ∃ rawLow carry, shiftLowBits low shift = .ok (rawLow, carry) ∧
      rawLow.toNat = low.toNat * 2 ^ shift % 2 ^ 32 ∧
        carry.toNat = low.toNat * 2 ^ shift / 2 ^ 32 := by
  have below : low.toNat * 2 ^ shift < 2 ^ 32 * 2 ^ 32 :=
    Nat.mul_lt_mul'' low.isLt (Nat.pow_lt_pow_right (by decide) valid)
  have full : (low.setWidth (32 + 32) <<< shift).toNat =
      low.toNat * 2 ^ shift := by
    rw [BitVec.toNat_shiftLeft, BitVec.toNat_setWidth, Nat.shiftLeft_eq,
      Nat.mod_eq_of_lt (show low.toNat < 2 ^ (32 + 32) by omega)]
    exact Nat.mod_eq_of_lt (by omega)
  refine ⟨(low.setWidth (32 + 32) <<< shift).setWidth 32,
    ((low.setWidth (32 + 32) <<< shift) >>> 32).setWidth 32, ?_, ?_, ?_⟩
  · unfold shiftLowBits shiftLeft
    rw [if_pos rfl, checkShiftQuantity_ok valid]
    rfl
  · rw [BitVec.toNat_setWidth, full]
  · rw [BitVec.toNat_setWidth, BitVec.toNat_ushiftRight, full,
      Nat.shiftRight_eq_div_pow]
    exact Nat.mod_eq_of_lt (Nat.div_lt_of_lt_mul below)

omit wide in
/-- A word of sixty-four bits has room for two halves. -/
theorem shiftLowBits_wide {low : BitVec 64} {shift : Nat} (valid : shift < 64)
    (room : low.toNat * 2 ^ shift < 2 ^ 53) :
    ∃ rawLow carry, shiftLowBits low shift = .ok (rawLow, carry) ∧
      rawLow.toNat = low.toNat * 2 ^ shift % 2 ^ 32 ∧
        carry.toNat = low.toNat * 2 ^ shift / 2 ^ 32 := by
  have shifted : (low <<< shift).toNat = low.toNat * 2 ^ shift := by
    rw [BitVec.toNat_shiftLeft, Nat.shiftLeft_eq]
    exact Nat.mod_eq_of_lt (by omega)
  have unsigned : (low <<< shift).msb = false := by
    rw [BitVec.msb_eq_false_iff_two_mul_lt, shifted]
    omega
  refine ⟨(low <<< shift) &&& 0xFFFFFFFF, (low <<< shift).sshiftRight 32,
    ?_, ?_, ?_⟩
  · unfold shiftLowBits
    rw [if_neg (by decide), unsignedShiftLeft_ok _ valid]
    rfl
  · rw [show (0xFFFFFFFF : BitVec 64) = BitVec.ofNat 64 (2 ^ 32 - 1) from rfl,
      toNat_mask _ (by decide), shifted]
  · rw [BitVec.sshiftRight_eq_of_msb_false unsigned, BitVec.toNat_ushiftRight,
      shifted, Nat.shiftRight_eq_div_pow]

/-- The high word of a shifted fraction takes what is carried to it. -/
theorem toNat_shiftedHigh {high carry : BitVec size} {shift low : Nat}
    (small : low < 2 ^ 32) (room : high.toNat * 2 ^ shift < 2 ^ 21)
    (carried : carry.toNat = low * 2 ^ shift / 2 ^ 32) :
    (((high <<< shift) ||| carry) &&& 0xFFFFF).toNat =
      (high.toNat * 2 ^ 32 + low) * 2 ^ shift / 2 ^ 32 % 2 ^ 20 := by
  have power := Nat.pow_le_pow_right (show 0 < 2 by decide) wide
  have shifted : (high <<< shift).toNat = high.toNat <<< shift := by
    rw [BitVec.toNat_shiftLeft]
    exact Nat.mod_eq_of_lt (by rw [Nat.shiftLeft_eq]; omega)
  have below : carry.toNat < 2 ^ shift := by
    rw [carried]
    exact Nat.div_lt_of_lt_mul
      (Nat.mul_lt_mul_of_pos_right small (Nat.two_pow_pos _))
  have whole : (high.toNat * 2 ^ 32 + low) * 2 ^ shift / 2 ^ 32 =
      high.toNat <<< shift + carry.toNat := by
    rw [carried, Nat.shiftLeft_eq, Nat.add_mul, Nat.mul_right_comm,
      Nat.mul_comm _ (2 ^ 32), Nat.mul_add_div (Nat.two_pow_pos _)]
  rw [show (0xFFFFF : BitVec size) = BitVec.ofNat size (2 ^ 20 - 1) from rfl,
    toNat_mask _ (by omega), BitVec.toNat_or, shifted,
    ← Nat.shiftLeft_add_eq_or_of_lt below, whole]

omit wide in
/-- The two words of a shifted fraction are its lowest bits. -/
theorem words_of_shifted (total : Nat) :
    total / 2 ^ 32 % 2 ^ 20 * 2 ^ 32 + total % 2 ^ 32 =
      total % 2 ^ double.fractionBits := by
  rw [show 2 ^ double.fractionBits = 2 ^ 32 * 2 ^ 20 from rfl, Nat.mod_mul,
    Nat.add_comm, Nat.mul_comm]

/-- A subnormal double float is shifted to a significand, if a word can be
shifted that far. -/
theorem decodeSubnormal_eq (sizes : size = 32 ∨ size = 64)
    (zero : double.exponent float.toNat = 0)
    (fraction : double.fraction float.toNat ≠ 0)
    (valid : double.shift float.toNat < size) :
    ∃ significand, decodeSubnormal size float =
        .ok (significand, double.scale float.toNat, sign float) ∧
      significand.toNat = double.significand float.toNat := by
  have words := fraction_eq wide float
  have low : (decode size float).1.toNat < 2 ^ 32 := by
    rw [(toNat_decode wide float).1]
    exact Nat.mod_lt _ (Nat.two_pow_pos _)
  have room : (significandHighBits size float).toNat *
        2 ^ double.shift float.toNat < 2 ^ 21 ∧
      (decode size float).1.toNat * 2 ^ double.shift float.toNat <
        2 ^ 53 := by
    have total : double.fraction float.toNat * 2 ^ double.shift float.toNat <
        2 ^ 53 := (Format.shifted_bounds fraction).2
    rw [words, Nat.add_mul, Nat.mul_right_comm] at total
    omega
  obtain ⟨rawLow, carry, shiftedLow, lowValue, carried⟩ :
      ∃ rawLow carry, shiftLowBits (decode size float).1
          (double.shift float.toNat : Int) = .ok (rawLow, carry) ∧
        rawLow.toNat = (decode size float).1.toNat *
          2 ^ double.shift float.toNat % 2 ^ 32 ∧
        carry.toNat = (decode size float).1.toNat *
          2 ^ double.shift float.toNat / 2 ^ 32 := by
    rcases sizes with rfl | rfl
    · exact shiftLowBits_narrow valid
    · exact shiftLowBits_wide valid room.2
  have highValue := toNat_shiftedHigh wide low room.1 carried
  rw [← words] at highValue
  have lowBits : rawLow.toNat = double.fraction float.toNat *
      2 ^ double.shift float.toNat % 2 ^ 32 := by
    rw [lowValue, words, Nat.add_mul, Nat.mul_right_comm, Nat.mul_comm _ (2 ^ 32),
      Nat.mul_add_mod]
  have scale : double.scale float.toNat =
      minimumExponent - double.shift float.toNat := by
    unfold Format.scale
    rw [if_pos zero]
    rfl
  refine ⟨encode rawLow (exponentInPlace size |||
    (((significandHighBits size float <<< double.shift float.toNat) |||
      carry) &&& 0xFFFFF)), ?_, ?_⟩
  · unfold decodeSubnormal
    simp only [subnormalShift_eq wide float fraction]
    rw [shiftedLow, unsignedShiftLeft_ok _ valid, scale]
    rfl
  · rw [toNat_encode wide
      (by rw [lowBits]; exact Nat.mod_lt _ (Nat.two_pow_pos _))
      (by rw [highValue]; exact Nat.mod_lt _ (Nat.two_pow_pos _)),
      highValue, lowBits, words_of_shifted, Format.significand, if_pos zero]

/-- A word cannot be shifted by its size or more. -/
theorem decodeSubnormal_error (sizes : size = 32 ∨ size = 64)
    (fraction : double.fraction float.toNat ≠ 0)
    (invalid : size ≤ double.shift float.toNat) :
    decodeSubnormal size float =
      .error (.invalidShiftQuantity (double.shift float.toNat)) := by
  have narrow : size = 32 := by
    unfold Format.shift at invalid
    rw [show double.fractionBits = 52 from rfl] at invalid
    omega
  have failed : shiftLowBits (decode size float).1
      (double.shift float.toNat : Int) =
        .error (.invalidShiftQuantity (double.shift float.toNat)) := by
    unfold shiftLowBits shiftLeft
    rw [if_pos narrow, checkShiftQuantity_error invalid]
    rfl
  unfold decodeSubnormal
  simp only [subnormalShift_eq wide float fraction]
  rw [failed]
  rfl

end DoubleFloat

/-! ## Floats that are decoded right -/

/-- A float is decoded exactly: into a significand from one half up to one, an
exponent and a sign. -/
def IsExact {width : Nat} (format : Format) (float : BitVec width)
    (decoded : Except Failure (BitVec width × Int × BitVec width)) : Prop :=
  ∃ significand exponent sign, decoded = .ok (significand, exponent, sign) ∧
    1 / 2 ≤ format.value significand.toNat ∧
    format.value significand.toNat < 1 ∧
    (format.value sign.toNat = 1 ∨ format.value sign.toNat = -1) ∧
    format.value significand.toNat * (2 : ℚ) ^ exponent *
        format.value sign.toNat =
      format.value float.toNat

/-- What is told about a float is right. -/
structure IsRight {width : Nat} (format : Format) (float : BitVec width)
    (classification : Classification)
    (decoded : Except Failure (BitVec width × Int × BitVec width))
    (precision : Int) : Prop where
  classification : classification = format.classify float.toNat
  exact : format.classify float.toNat = .subnormal ∨
    format.classify float.toNat = .normal → IsExact format float decoded
  precision : format.classify float.toNat = .normal →
    precision = format.fractionBits + 1

/-- A float is decoded exactly by its significand, its scale and its sign. -/
theorem isExact_of_eq {width : Nat} {format : Format} {float : BitVec width}
    {significand sign : BitVec width}
    (nonzero : format.exponent float.toNat ≠ 0 ∨
      format.fraction float.toNat ≠ 0)
    (isSignificand : significand.toNat = format.significand float.toNat)
    (isSign : sign.toNat = format.one (format.isNegative float.toNat)) :
    IsExact format float
      (.ok (significand, format.scale float.toNat, sign)) := by
  obtain ⟨least, less⟩ := Format.significand_bounds format float.toNat
  refine ⟨significand, format.scale float.toNat, sign, rfl, ?_, ?_, ?_, ?_⟩
  · rwa [isSignificand]
  · rwa [isSignificand]
  · rw [isSign, Format.value_one]
    cases format.isNegative float.toNat
    · exact .inl rfl
    · exact .inr rfl
  · rw [isSignificand, isSign]
    exact Format.value_eq nonzero

theorem SingleFloat.isRight_iff (wide : 32 ≤ size) (float : BitVec 32) :
    IsRight single float (classifyFloat size float) (decodeFloat size float)
        (floatPrecision size float) ↔
      single.exponent float.toNat ≠ 1 := by
  constructor
  · intro right least
    have normal : single.classify float.toNat = .normal := by
      unfold Format.classify
      rw [least]
      rfl
    exact (floatPrecision_eq_iff wide float normal).mp
      (right.precision normal) least
  · intro notLeast
    refine ⟨classifyFloat_eq wide float, ?_, ?_⟩
    · intro finite
      obtain ⟨nonzero, finite⟩ := Format.fields_of_finite finite
      obtain ⟨significand, sign, decoded, isSignificand, isSign⟩ :=
        decodeFloat_eq wide float nonzero finite
      rw [decoded]
      exact isExact_of_eq nonzero isSignificand isSign
    · intro normal
      exact (floatPrecision_eq_iff wide float normal).mpr notLeast

namespace DoubleFloat

/-- A subnormal float that a word of thirty-two bits cannot be shifted far
enough for. -/
def TooFar (size : Nat) (float : BitVec 64) : Prop :=
  size = 32 ∧ double.classify float.toNat = .subnormal ∧
    double.fraction float.toNat < 2 ^ 21

theorem le_shift_iff (sizes : size = 32 ∨ size = 64) {float : BitVec 64}
    (zero : double.exponent float.toNat = 0)
    (fraction : double.fraction float.toNat ≠ 0) :
    size ≤ double.shift float.toNat ↔ TooFar size float := by
  have subnormal : double.classify float.toNat = .subnormal := by
    rw [Format.classify, if_pos zero, if_neg fraction]
  have small := @Nat.log2_lt (double.fraction float.toNat) 21 fraction
  unfold TooFar Format.shift
  rw [show double.fractionBits = 52 from rfl]
  simp only [subnormal, true_and, ← small]
  omega

/-- A finite double float other than zero is decoded, if a word can be shifted
far enough. -/
theorem isExact_iff (sizes : size = 32 ∨ size = 64) (float : BitVec 64)
    (finite : double.classify float.toNat = .subnormal ∨
      double.classify float.toNat = .normal) :
    IsExact double float (decodeFloat size float) ↔ ¬ TooFar size float := by
  have wide : 32 ≤ size := by omega
  obtain ⟨nonzero, notTop⟩ := Format.fields_of_finite finite
  have isSign := toNat_sign float nonzero notTop
  unfold decodeFloat
  simp only [lt_minimum_iff wide, gt_maximum_iff wide, words_eq_zero_iff wide]
  by_cases zero : double.exponent float.toNat = 0
  case pos =>
    have fraction := nonzero.resolve_left (not_not.mpr zero)
    rw [if_pos zero, if_neg fraction, ← le_shift_iff sizes zero fraction]
    constructor
    · rintro ⟨significand, exponent, sign, decoded, -⟩ invalid
      rw [decodeSubnormal_error wide float sizes fraction invalid] at decoded
      cases decoded
    · intro valid
      obtain ⟨significand, decoded, isSignificand⟩ := decodeSubnormal_eq wide
        float sizes zero fraction (Nat.not_le.mp valid)
      rw [decoded]
      exact isExact_of_eq nonzero isSignificand isSign
  case neg =>
    have near : ¬ TooFar size float := by
      rintro ⟨-, subnormal, -⟩
      rw [Format.classify, if_neg zero, if_neg notTop] at subnormal
      cases subnormal
    rw [if_neg zero, if_neg notTop, floatExponent_eq wide]
    refine iff_of_true ?_ near
    have scale : double.scale float.toNat =
        double.exponent float.toNat - 1022 := by
      rw [Format.scale, if_neg zero]
      rfl
    rw [← scale]
    refine isExact_of_eq nonzero ?_ isSign
    have words := fraction_eq wide float
    rw [toNat_encode wide
      (by rw [(toNat_decode wide float).1]
          exact Nat.mod_lt _ (Nat.two_pow_pos _))
      (by rw [toNat_significandHighBits wide]
          exact Nat.mod_lt _ (Nat.two_pow_pos _)),
      ← words, Format.significand, if_neg zero]

theorem isRight_iff (sizes : size = 32 ∨ size = 64) (float : BitVec 64) :
    IsRight double float (classifyFloat size float) (decodeFloat size float)
        (floatPrecision size float) ↔
      double.exponent float.toNat ≠ 1 ∧ ¬ LowNan float ∧
        ¬ TooFar size float := by
  have wide : 32 ≤ size := by omega
  constructor
  · intro right
    refine ⟨?_, ?_, ?_⟩
    · intro least
      have normal : double.classify float.toNat = .normal := by
        unfold Format.classify
        rw [least]
        rfl
      exact (floatPrecision_eq_iff wide float normal).mp
        (right.precision normal) least
    · exact (classifyFloat_eq_iff wide float).mp right.classification
    · intro far
      exact (isExact_iff sizes float (.inl far.2.1)).mp
        (right.exact (.inl far.2.1)) far
  · rintro ⟨notLeast, notLow, near⟩
    refine ⟨(classifyFloat_eq_iff wide float).mpr notLow, ?_, ?_⟩
    · intro finite
      exact (isExact_iff sizes float finite).mpr near
    · intro normal
      exact (floatPrecision_eq_iff wide float normal).mpr notLeast

end DoubleFloat

/-- Exactly which floats are classified, decoded and measured right. -/
theorem float_isRight_iff (sizes : size = 32 ∨ size = 64) :
    (∀ float : BitVec 32,
      IsRight single float (SingleFloat.classifyFloat size float)
          (SingleFloat.decodeFloat size float)
          (SingleFloat.floatPrecision size float) ↔
        single.exponent float.toNat ≠ 1) ∧
      ∀ float : BitVec 64,
        IsRight double float (DoubleFloat.classifyFloat size float)
            (DoubleFloat.decodeFloat size float)
            (DoubleFloat.floatPrecision size float) ↔
          double.exponent float.toNat ≠ 1 ∧ ¬ DoubleFloat.LowNan float ∧
            ¬ DoubleFloat.TooFar size float :=
  ⟨SingleFloat.isRight_iff (by omega), DoubleFloat.isRight_iff sizes⟩

/-- A subnormal single float on a machine of sixty-four bits. -/
theorem float_isRight_subnormal :
    IsRight single (0x80000005 : BitVec 32)
      (SingleFloat.classifyFloat 64 0x80000005)
      (SingleFloat.decodeFloat 64 0x80000005)
      (SingleFloat.floatPrecision 64 0x80000005) :=
  ((float_isRight_iff (.inr rfl)).1 0x80000005).mpr (by decide)

/-- The least normal floats have a precision of no digits, and what is no
number only by its low word is infinite. -/
theorem not_float_isRight :
    SingleFloat.floatPrecision 64 0x00800000 = 0 ∧
      DoubleFloat.floatPrecision 64 0x0010000000000000 = 0 ∧
      DoubleFloat.classifyFloat 64 0x7FF0000000000001 = .infinite ∧
      double.classify 0x7FF0000000000001 = .nan ∧
      ¬ ∀ float : BitVec 32,
        IsRight single float (SingleFloat.classifyFloat 64 float)
          (SingleFloat.decodeFloat 64 float)
          (SingleFloat.floatPrecision 64 float) := by
  refine ⟨by decide, by decide, by decide, by decide, fun all => ?_⟩
  have precision := (all 0x00800000).precision (by decide)
  exact absurd precision (by decide)

end OpenDylan.Numbers.FloatDecoding
