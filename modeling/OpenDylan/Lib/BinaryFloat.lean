import Mathlib

/-!
# Binary floating-point formats

A pattern of a format has a sign, a biased exponent and a fraction.  These
determine the class of the pattern and, where it is finite, a rational number.
A finite number other than zero is that of a significand from one half up to
one, scaled by a power of two.
-/

namespace OpenDylan.Lib.BinaryFloat

/-- The widths of the fields of a pattern. -/
structure Format where
  exponentBits : Nat
  fractionBits : Nat
  wide : 3 ≤ exponentBits

/-- The classes of patterns. -/
inductive Classification where
  | nan
  | infinite
  | zero
  | subnormal
  | normal
deriving DecidableEq

namespace Format

variable (format : Format) (pattern : Nat)

/-! ## Fields -/

/-- The lowest bits of a pattern. -/
def fraction : Nat := pattern % 2 ^ format.fractionBits

/-- The biased exponent of a pattern. -/
def exponent : Nat :=
  pattern / 2 ^ format.fractionBits % 2 ^ format.exponentBits

/-- The highest bit of a pattern. -/
def isNegative : Bool :=
  pattern / 2 ^ (format.fractionBits + format.exponentBits) % 2 = 1

/-- The bias of the exponent. -/
def bias : Nat := 2 ^ (format.exponentBits - 1) - 1

/-- The class of a pattern. -/
def classify : Classification :=
  if format.exponent pattern = 0 then
    if format.fraction pattern = 0 then .zero else .subnormal
  else if format.exponent pattern = 2 ^ format.exponentBits - 1 then
    if format.fraction pattern = 0 then .infinite else .nan
  else
    .normal

/-- Whether a pattern is ordered before zero, which no pattern of the class
`nan` is. -/
def isLessThanZero : Bool :=
  format.isNegative pattern && format.classify pattern ≠ .zero &&
    format.classify pattern ≠ .nan

/-- The sign of a pattern. -/
def sign : ℚ := if format.isNegative pattern then -1 else 1

/-- The rational number of a finite pattern. -/
def value : ℚ :=
  format.sign pattern *
    if format.exponent pattern = 0 then
      (format.fraction pattern : ℚ) *
        (2 : ℚ) ^ (1 - format.bias - format.fractionBits : Int)
    else
      ((2 : ℚ) ^ format.fractionBits + format.fraction pattern) *
        (2 : ℚ) ^
          (format.exponent pattern - format.bias - format.fractionBits : Int)

variable {format pattern}

theorem fraction_lt : format.fraction pattern < 2 ^ format.fractionBits :=
  Nat.mod_lt _ (Nat.two_pow_pos _)

theorem exponent_lt : format.exponent pattern < 2 ^ format.exponentBits :=
  Nat.mod_lt _ (Nat.two_pow_pos _)

/-- The largest biased exponent is that of no number. -/
theorem two_le_bias (format : Format) :
    2 ≤ format.bias ∧ 2 * format.bias + 2 = 2 ^ format.exponentBits := by
  obtain ⟨more, wide⟩ := Nat.exists_eq_add_of_le format.wide
  have positive := Nat.two_pow_pos more
  have half : 2 ^ (format.exponentBits - 1) = 2 ^ more * 4 := by
    rw [wide, show 3 + more - 1 = more + 2 by omega, Nat.pow_add]
  have whole : 2 ^ format.exponentBits = 2 ^ more * 8 := by
    rw [wide, Nat.add_comm, Nat.pow_add]
  unfold bias
  omega

theorem isLessThanZero_eq
    (nonzero : format.exponent pattern ≠ 0 ∨ format.fraction pattern ≠ 0)
    (finite : format.exponent pattern ≠ 2 ^ format.exponentBits - 1) :
    format.isLessThanZero pattern = format.isNegative pattern := by
  have notZero : format.classify pattern ≠ .zero := by
    unfold classify
    rcases nonzero with exponent | fraction
    · rw [if_neg exponent, if_neg finite]
      decide
    · rw [if_neg fraction, if_neg finite]
      split <;> decide
  have notNan : format.classify pattern ≠ .nan := by
    unfold classify
    rw [if_neg finite]
    split
    · split <;> decide
    · decide
  simp [isLessThanZero, notZero, notNan]

/-- The patterns of finite numbers other than zero. -/
theorem fields_of_finite
    (finite : format.classify pattern = .subnormal ∨
      format.classify pattern = .normal) :
    (format.exponent pattern ≠ 0 ∨ format.fraction pattern ≠ 0) ∧
      format.exponent pattern ≠ 2 ^ format.exponentBits - 1 := by
  have positive : 2 ^ format.exponentBits - 1 ≠ 0 := by
    have := Nat.pow_le_pow_right (show 0 < 2 by decide) format.wide
    omega
  unfold classify at finite
  constructor
  · by_contra both
    rw [not_or, not_not, not_not] at both
    rw [if_pos both.1, if_pos both.2] at finite
    rcases finite with finite | finite <;> cases finite
  · intro top
    rw [if_neg (by omega), if_pos top] at finite
    split at finite <;> rcases finite with finite | finite <;> cases finite

theorem exponent_ne_zero_of_normal
    (normal : format.classify pattern = .normal) :
    format.exponent pattern ≠ 0 := by
  intro zero
  unfold classify at normal
  rw [if_pos zero] at normal
  split at normal <;> cases normal

/-! ## Patterns from fields -/

/-- The pattern of a sign, a biased exponent and a fraction. -/
def assemble (format : Format) (isNegative : Bool) (exponent fraction : Nat) :
    Nat :=
  (isNegative.toNat * 2 ^ format.exponentBits + exponent) *
    2 ^ format.fractionBits + fraction

section Assemble

variable {isNegative : Bool} {exponent fraction : Nat}

theorem fraction_assemble (small : fraction < 2 ^ format.fractionBits) :
    format.fraction (format.assemble isNegative exponent fraction) =
      fraction := by
  unfold Format.fraction assemble
  rw [Nat.mul_comm, Nat.mul_add_mod, Nat.mod_eq_of_lt small]

theorem assemble_div (small : fraction < 2 ^ format.fractionBits) :
    format.assemble isNegative exponent fraction / 2 ^ format.fractionBits =
      isNegative.toNat * 2 ^ format.exponentBits + exponent := by
  unfold assemble
  rw [Nat.mul_comm, Nat.mul_add_div (Nat.two_pow_pos _),
    Nat.div_eq_of_lt small, Nat.add_zero]

theorem exponent_assemble (low : exponent < 2 ^ format.exponentBits)
    (small : fraction < 2 ^ format.fractionBits) :
    format.exponent (format.assemble isNegative exponent fraction) =
      exponent := by
  unfold Format.exponent
  rw [assemble_div small, Nat.mul_comm, Nat.mul_add_mod,
    Nat.mod_eq_of_lt low]

theorem isNegative_assemble (low : exponent < 2 ^ format.exponentBits)
    (small : fraction < 2 ^ format.fractionBits) :
    format.isNegative (format.assemble isNegative exponent fraction) =
      isNegative := by
  unfold Format.isNegative
  rw [Nat.pow_add, ← Nat.div_div_eq_div_mul, assemble_div small, Nat.mul_comm,
    Nat.mul_add_div (Nat.two_pow_pos _), Nat.div_eq_of_lt low]
  cases isNegative <;> rfl

end Assemble

/-! ## Significand, scale and sign -/

/-- The pattern of a number from one half up to one. -/
def half (format : Format) (fraction : Nat) : Nat :=
  format.assemble false (format.bias - 1) fraction

/-- The pattern of one or of its negation. -/
def one (format : Format) (isNegative : Bool) : Nat :=
  format.assemble isNegative format.bias 0

theorem value_half {fraction : Nat}
    (small : fraction < 2 ^ format.fractionBits) :
    format.value (format.half fraction) =
      ((2 : ℚ) ^ format.fractionBits + fraction) *
        (2 : ℚ) ^ (-1 - format.fractionBits : Int) := by
  obtain ⟨two, top⟩ := two_le_bias format
  have low : format.bias - 1 < 2 ^ format.exponentBits := by omega
  have nonzero : format.bias - 1 ≠ 0 := by omega
  have scale : ((format.bias - 1 : Nat) : Int) - format.bias =
      -1 := by omega
  unfold half value Format.sign
  rw [isNegative_assemble low small, exponent_assemble low small,
    fraction_assemble small, if_neg nonzero, scale]
  simp

/-- The number of a significand is at least one half and less than one. -/
theorem half_bounds {fraction : Nat}
    (small : fraction < 2 ^ format.fractionBits) :
    1 / 2 ≤ format.value (format.half fraction) ∧
      format.value (format.half fraction) < 1 := by
  have less : (fraction : ℚ) < 2 ^ format.fractionBits := by
    exact_mod_cast small
  have nonneg : (0 : ℚ) ≤ fraction := Nat.cast_nonneg _
  have positive : (0 : ℚ) < 2 ^ format.fractionBits := by positivity
  have scale : (2 : ℚ) ^ (-1 - format.fractionBits : Int) =
      1 / (2 * 2 ^ format.fractionBits) := by
    rw [sub_eq_add_neg, zpow_add₀ two_ne_zero, zpow_neg, zpow_neg,
      zpow_natCast, zpow_one]
    field_simp
  rw [value_half small, scale]
  constructor
  · rw [mul_one_div, div_le_div_iff₀ (by norm_num) (by positivity)]
    linarith
  · rw [mul_one_div, div_lt_iff₀ (by positivity)]
    linarith

theorem value_one (format : Format) (isNegative : Bool) :
    format.value (format.one isNegative) = if isNegative then -1 else 1 := by
  obtain ⟨two, top⟩ := two_le_bias format
  have low : format.bias < 2 ^ format.exponentBits := by omega
  have nonzero : format.bias ≠ 0 := by omega
  have small : 0 < 2 ^ format.fractionBits := Nat.two_pow_pos _
  unfold one value Format.sign
  rw [isNegative_assemble low small, exponent_assemble low small,
    fraction_assemble small, if_neg nonzero, sub_self, zero_sub, zpow_neg,
    zpow_natCast, Nat.cast_zero, add_zero, mul_inv_cancel₀ (by positivity),
    mul_one]

/-- How far the fraction of a subnormal pattern is shifted. -/
def shift (format : Format) (pattern : Nat) : Nat :=
  format.fractionBits - (format.fraction pattern).log2

/-- The pattern of the significand of a finite number other than zero. -/
def significand (format : Format) (pattern : Nat) : Nat :=
  format.half
    (if format.exponent pattern = 0 then
      format.fraction pattern * 2 ^ format.shift pattern %
        2 ^ format.fractionBits
    else
      format.fraction pattern)

/-- The power of two that a significand is scaled by. -/
def scale (format : Format) (pattern : Nat) : Int :=
  if format.exponent pattern = 0 then
    2 - format.bias - format.shift pattern
  else
    format.exponent pattern - (format.bias - 1)

/-- The significand of any pattern is a significand. -/
theorem significand_bounds (format : Format) (pattern : Nat) :
    1 / 2 ≤ format.value (format.significand pattern) ∧
      format.value (format.significand pattern) < 1 := by
  unfold significand
  apply half_bounds
  split
  · exact Nat.mod_lt _ (Nat.two_pow_pos _)
  · exact fraction_lt

/-- The leading bit of a fraction is shifted just above the fraction. -/
theorem shifted_bounds (nonzero : format.fraction pattern ≠ 0) :
    2 ^ format.fractionBits ≤
        format.fraction pattern * 2 ^ format.shift pattern ∧
      format.fraction pattern * 2 ^ format.shift pattern <
        2 ^ (format.fractionBits + 1) := by
  have below : (format.fraction pattern).log2 < format.fractionBits :=
    (Nat.log2_lt nonzero).mpr fraction_lt
  have least := Nat.log2_self_le nonzero
  have most := @Nat.lt_log2_self (format.fraction pattern)
  have positive := Nat.two_pow_pos (format.shift pattern)
  have width : (format.fraction pattern).log2 + format.shift pattern =
      format.fractionBits := by
    unfold shift
    omega
  constructor
  · calc 2 ^ format.fractionBits
        = 2 ^ (format.fraction pattern).log2 * 2 ^ format.shift pattern := by
          rw [← Nat.pow_add, width]
      _ ≤ _ := Nat.mul_le_mul_right _ least
  · calc format.fraction pattern * 2 ^ format.shift pattern
        < 2 ^ ((format.fraction pattern).log2 + 1) *
            2 ^ format.shift pattern :=
          Nat.mul_lt_mul_of_pos_right most positive
      _ = 2 ^ (format.fractionBits + 1) := by
          rw [← Nat.pow_add, Nat.add_right_comm, width]

theorem shifted_fraction (nonzero : format.fraction pattern ≠ 0) :
    2 ^ format.fractionBits +
        format.fraction pattern * 2 ^ format.shift pattern %
          2 ^ format.fractionBits =
      format.fraction pattern * 2 ^ format.shift pattern := by
  obtain ⟨least, most⟩ := shifted_bounds nonzero
  rw [Nat.pow_succ] at most
  rw [Nat.mod_eq_sub_mod least, Nat.mod_eq_of_lt (by omega)]
  omega

/-- A finite number other than zero is its significand, scaled and signed. -/
theorem value_eq
    (nonzero : format.exponent pattern ≠ 0 ∨ format.fraction pattern ≠ 0) :
    format.value (format.significand pattern) *
        (2 : ℚ) ^ format.scale pattern *
          format.value (format.one (format.isNegative pattern)) =
      format.value pattern := by
  rw [value_one, mul_comm]
  conv_rhs => rw [value, Format.sign]
  congr 1
  unfold significand scale
  split
  case isTrue zero =>
    have fraction : format.fraction pattern ≠ 0 :=
      nonzero.resolve_left (not_not.mpr zero)
    have shifted : (2 : ℚ) ^ format.fractionBits +
        (format.fraction pattern * 2 ^ format.shift pattern %
          2 ^ format.fractionBits : Nat) =
        format.fraction pattern * (2 : ℚ) ^ (format.shift pattern : Int) := by
      have := shifted_fraction fraction
      rw [zpow_natCast]
      exact_mod_cast this
    rw [value_half (Nat.mod_lt _ (Nat.two_pow_pos _)), shifted, mul_assoc,
      mul_assoc, ← zpow_add₀ two_ne_zero, ← zpow_add₀ two_ne_zero]
    congr 2
    ring
  case isFalse =>
    rw [value_half fraction_lt, mul_assoc, ← zpow_add₀ two_ne_zero]
    congr 2
    ring

end Format

end OpenDylan.Lib.BinaryFloat
