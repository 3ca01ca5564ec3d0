import Mathlib

/-!
# Integers of two words

A word with a sign on top of a word without one is an integer of twice the
width.  What the low words carry or borrow is added to the high words, and the
value fits exactly if the high word does.
-/

namespace OpenDylan.Lib.TwoWords

variable {width : Nat}

/-- The integers that a word of this many bits and a sign holds. -/
def Holds (width : Nat) (value : Int) : Prop :=
  -2 ^ width ≤ value ∧ value < 2 ^ width

instance (width : Nat) (value : Int) : Decidable (Holds width value) :=
  inferInstanceAs (Decidable (_ ∧ _))

/-! ## One word -/

theorem toInt_holds (word : BitVec (width + 1)) : Holds width word.toInt :=
  ⟨BitVec.le_toInt word, BitVec.toInt_lt⟩

theorem toInt_ofInt {value : Int} (holds : Holds width value) :
    (BitVec.ofInt (width + 1) value).toInt = value :=
  BitVec.toInt_ofInt_eq_self (Nat.succ_pos width) holds.1 holds.2

/-- A word without its sign. -/
theorem toNat_eq (word : BitVec (width + 1)) :
    (word.toNat : Int) =
      if word.toInt < 0 then word.toInt + 2 ^ (width + 1)
      else word.toInt := by
  have small : (word.toNat : Int) < 2 ^ (width + 1) := by
    exact_mod_cast word.isLt
  rw [BitVec.toInt_eq_toNat_cond]
  by_cases half : 2 * word.toNat < 2 ^ (width + 1)
  · rw [if_pos half, if_neg (by omega)]
  · rw [if_neg half]
    push_cast
    rw [if_pos (by omega)]
    omega

theorem saddOverflow_iff (x y : BitVec (width + 1)) :
    BitVec.saddOverflow x y = false ↔ Holds width (x.toInt + y.toInt) := by
  unfold BitVec.saddOverflow Holds
  rw [Nat.add_sub_cancel, Bool.or_eq_false_iff, decide_eq_false_iff_not,
    decide_eq_false_iff_not]
  omega

theorem ssubOverflow_iff (x y : BitVec (width + 1)) :
    BitVec.ssubOverflow x y = false ↔ Holds width (x.toInt - y.toInt) := by
  unfold BitVec.ssubOverflow Holds
  rw [Nat.add_sub_cancel, Bool.or_eq_false_iff, decide_eq_false_iff_not,
    decide_eq_false_iff_not]
  omega

theorem toInt_add {x y : BitVec (width + 1)}
    (holds : Holds width (x.toInt + y.toInt)) :
    (x + y).toInt = x.toInt + y.toInt := by
  apply BitVec.toInt_add_of_not_saddOverflow
  rw [(saddOverflow_iff x y).2 holds]
  exact Bool.false_ne_true

theorem toInt_sub {x y : BitVec (width + 1)}
    (holds : Holds width (x.toInt - y.toInt)) :
    (x - y).toInt = x.toInt - y.toInt := by
  apply BitVec.toInt_sub_of_not_ssubOverflow
  rw [(ssubOverflow_iff x y).2 holds]
  exact Bool.false_ne_true

theorem smulOverflow_iff (x y : BitVec (width + 1)) :
    BitVec.smulOverflow x y = false ↔ Holds width (x.toInt * y.toInt) := by
  unfold BitVec.smulOverflow Holds
  rw [Nat.add_sub_cancel, Bool.or_eq_false_iff, decide_eq_false_iff_not,
    decide_eq_false_iff_not]
  omega

theorem toInt_mul {x y : BitVec (width + 1)}
    (holds : Holds width (x.toInt * y.toInt)) :
    (x * y).toInt = x.toInt * y.toInt := by
  apply BitVec.toInt_mul_of_not_smulOverflow
  rw [(smulOverflow_iff x y).2 holds]
  exact Bool.false_ne_true

/-- A longer word holds what a shorter one does. -/
theorem Holds.mono {wider : Nat} {value : Int} (holds : Holds width value)
    (longer : width ≤ wider) : Holds wider value := by
  have powers : (2 : Int) ^ width ≤ 2 ^ wider :=
    pow_le_pow_right₀ (by omega) longer
  unfold Holds at holds ⊢
  omega

/-- The product of what two words hold. -/
theorem Holds.mul {left right : Int} (leftHolds : Holds width left)
    (rightHolds : Holds width right) :
    Holds (width + width + 1) (left * right) := by
  have leftAbs : |left| ≤ 2 ^ width := by
    rw [abs_le]
    exact ⟨leftHolds.1, le_of_lt leftHolds.2⟩
  have rightAbs : |right| ≤ 2 ^ width := by
    rw [abs_le]
    exact ⟨rightHolds.1, le_of_lt rightHolds.2⟩
  have product : |left * right| ≤ 2 ^ width * 2 ^ width := by
    rw [abs_mul]
    exact mul_le_mul leftAbs rightAbs (abs_nonneg right) (by positivity)
  have positive : (0 : Int) < 2 ^ width * 2 ^ width := by positivity
  rw [abs_le] at product
  unfold Holds
  rw [pow_succ, pow_add]
  omega

/-! ## Carrying and borrowing -/

/-- What the sum of two words without sign carries. -/
def carry {size : Nat} (x y : BitVec size) : Nat :=
  if BitVec.uaddOverflow x y then 1 else 0

/-- What the difference of two words without sign borrows. -/
def borrow {size : Nat} (x y : BitVec size) : Nat :=
  if BitVec.usubOverflow x y then 1 else 0

theorem carry_le {size : Nat} (x y : BitVec size) : carry x y ≤ 1 := by
  unfold carry
  split
  · exact Nat.le_refl 1
  · exact Nat.zero_le 1

theorem borrow_le {size : Nat} (x y : BitVec size) : borrow x y ≤ 1 := by
  unfold borrow
  split
  · exact Nat.le_refl 1
  · exact Nat.zero_le 1

theorem toNat_add_carry {size : Nat} (x y : BitVec size) :
    (x + y).toNat + 2 ^ size * carry x y = x.toNat + y.toNat := by
  have first := x.isLt
  have second := y.isLt
  unfold carry BitVec.uaddOverflow
  rw [BitVec.toNat_add]
  by_cases large : 2 ^ size ≤ x.toNat + y.toNat
  · rw [if_pos (decide_eq_true large), Nat.mod_eq_sub_mod large,
      Nat.mod_eq_of_lt (by omega)]
    omega
  · rw [if_neg (by rw [decide_eq_false large]; exact Bool.false_ne_true),
      Nat.mod_eq_of_lt (by omega)]
    omega

theorem toNat_sub_borrow {size : Nat} (x y : BitVec size) :
    (x - y).toNat + y.toNat = x.toNat + 2 ^ size * borrow x y := by
  have first := x.isLt
  have second := y.isLt
  unfold borrow BitVec.usubOverflow
  rw [BitVec.toNat_sub]
  by_cases small : x.toNat < y.toNat
  · rw [if_pos (decide_eq_true small), Nat.mod_eq_of_lt (by omega)]
    omega
  · rw [if_neg (by rw [decide_eq_false small]; exact Bool.false_ne_true),
      Nat.mod_eq_sub_mod (by omega), Nat.mod_eq_of_lt (by omega)]
    omega

/-! ## Two words -/

/-- The integer that two words stand for. -/
def value (low high : BitVec (width + 1)) : Int :=
  low.toNat + 2 ^ (width + 1) * high.toInt

/-- The low word is what one word keeps of the integer. -/
theorem ofInt_value (low high : BitVec (width + 1)) :
    BitVec.ofInt (width + 1) (value low high) = low := by
  apply BitVec.eq_of_toInt_eq
  have modulus : (2 : Int) ^ (width + 1) = ((2 ^ (width + 1) : Nat) : Int) := by
    push_cast
    rfl
  unfold value
  rw [BitVec.toInt_ofInt, BitVec.toInt_eq_toNat_bmod low, modulus,
    Int.add_mul_bmod_self_left]

/-- Two words hold an integer exactly if its high part fits into a word. -/
theorem holds_iff {low : Nat} (small : low < 2 ^ (width + 1)) (high : Int) :
    Holds (width + 1 + width) (low + 2 ^ (width + 1) * high) ↔
      Holds width high := by
  have positive : (0 : Int) < 2 ^ (width + 1) := by positivity
  have lowLt : (low : Int) < 2 ^ (width + 1) := by exact_mod_cast small
  have lowNonneg : (0 : Int) ≤ low := Int.natCast_nonneg low
  unfold Holds
  rw [pow_add, ← mul_neg]
  constructor
  · rintro ⟨above, below⟩
    constructor
    · by_contra small
      have step : high + 1 ≤ -2 ^ width := by omega
      have scaled := mul_le_mul_of_nonneg_left step (le_of_lt positive)
      rw [mul_add, mul_one] at scaled
      omega
    · by_contra large
      have step : (2 : Int) ^ width ≤ high := by omega
      have scaled := mul_le_mul_of_nonneg_left step (le_of_lt positive)
      omega
  · rintro ⟨above, below⟩
    constructor
    · have scaled := mul_le_mul_of_nonneg_left above (le_of_lt positive)
      omega
    · have step : high + 1 ≤ 2 ^ width := by omega
      have scaled := mul_le_mul_of_nonneg_left step (le_of_lt positive)
      rw [mul_add, mul_one] at scaled
      omega

/-- Two words are determined by the integer. -/
theorem value_holds (low high : BitVec (width + 1)) :
    Holds (width + 1 + width) (value low high) :=
  (holds_iff low.isLt high.toInt).2 (toInt_holds high)

/-- The sum of two integers of two words, from the low words and the high. -/
theorem value_add (xLow xHigh yLow yHigh : BitVec (width + 1)) :
    value xLow xHigh + value yLow yHigh =
      (xLow + yLow).toNat + 2 ^ (width + 1) *
        (xHigh.toInt + yHigh.toInt + carry xLow yLow) := by
  have low := toNat_add_carry xLow yLow
  have lowInt : ((xLow + yLow).toNat : Int) +
      2 ^ (width + 1) * (carry xLow yLow : Int) =
        xLow.toNat + yLow.toNat := by
    exact_mod_cast low
  unfold value
  rw [mul_add, mul_add]
  omega

theorem value_sub (xLow xHigh yLow yHigh : BitVec (width + 1)) :
    value xLow xHigh - value yLow yHigh =
      (xLow - yLow).toNat + 2 ^ (width + 1) *
        (xHigh.toInt - yHigh.toInt - borrow xLow yLow) := by
  have low := toNat_sub_borrow xLow yLow
  have lowInt : ((xLow - yLow).toNat : Int) + yLow.toNat =
      xLow.toNat + 2 ^ (width + 1) * (borrow xLow yLow : Int) := by
    exact_mod_cast low
  unfold value
  rw [mul_sub, mul_sub]
  omega

/-- The sign of the integer is that of the high word. -/
theorem value_neg_iff (low high : BitVec (width + 1)) :
    value low high < 0 ↔ high.toInt < 0 := by
  have positive : (0 : Int) < 2 ^ (width + 1) := by positivity
  have small : (low.toNat : Int) < 2 ^ (width + 1) := by
    exact_mod_cast low.isLt
  unfold value
  constructor
  · intro negative
    by_contra notNegative
    have scaled := mul_nonneg (le_of_lt positive) (not_lt.1 notNegative)
    omega
  · intro negative
    have step : high.toInt + 1 ≤ 0 := negative
    have scaled := mul_le_mul_of_nonneg_left step (le_of_lt positive)
    rw [mul_add, mul_one, mul_zero] at scaled
    omega

/-- The two words of an integer. -/
theorem value_ofInt {number : Int}
    (holds : Holds (width + 1 + width) number) :
    value (BitVec.ofInt (width + 1) number)
      (BitVec.ofInt (width + 1) (number / 2 ^ (width + 1))) = number := by
  have positive : (0 : Int) < 2 ^ (width + 1) := by positivity
  have highHolds : Holds width (number / 2 ^ (width + 1)) := by
    have parts := Int.emod_add_mul_ediv number (2 ^ (width + 1))
    have low := Int.toNat_of_nonneg
      (Int.emod_nonneg number (ne_of_gt positive))
    have small := Int.emod_lt_of_pos number positive
    apply (@holds_iff width (number % 2 ^ (width + 1)).toNat ?_ _).1
    · rw [low, parts]
      exact holds
    · rw [← low] at small
      exact_mod_cast small
  unfold value
  rw [toInt_ofInt highHolds, BitVec.toNat_ofInt, Int.toNat_of_nonneg]
  · push_cast
    exact Int.emod_add_mul_ediv number _
  · apply Int.emod_nonneg
    push_cast
    exact ne_of_gt positive

/-! ## Products -/

/-- A word is the integer that it is made from, but for what it cannot
hold. -/
theorem exists_toInt_ofInt (number : Int) :
    ∃ wraps : Int, (BitVec.ofInt (width + 1) number).toInt =
      number + 2 ^ (width + 1) * wraps := by
  have wrapped := Int.bmod_eq_self_sub_mul_bdiv number (2 ^ (width + 1))
  push_cast at wrapped
  refine ⟨-Int.bdiv number (2 ^ (width + 1)), ?_⟩
  rw [BitVec.toInt_ofInt, wrapped, mul_neg, sub_eq_add_neg]

/-- The product of two integers of two words, but for what two words cannot
hold: the product of the high words counts for nothing. -/
theorem exists_value_mul (xLow xHigh yLow yHigh : BitVec (width + 1)) :
    ∃ wraps : Int,
      value (xLow * yLow)
          (BitVec.ofNat (width + 1)
              (xLow.toNat * yLow.toNat / 2 ^ (width + 1)) +
            (xLow * yHigh + xHigh * yLow)) =
        value xLow xHigh * value yLow yHigh +
          2 ^ (width + 1 + width + 1) * wraps := by
  let carried := xLow.toNat * yLow.toNat / 2 ^ (width + 1)
  have highWord : BitVec.ofNat (width + 1) carried +
      (xLow * yHigh + xHigh * yLow) =
        BitVec.ofInt (width + 1) (carried +
          (xLow.toNat * yHigh.toInt + xHigh.toInt * yLow.toNat)) := by
    rw [BitVec.ofInt_add, BitVec.ofInt_add, BitVec.ofInt_mul,
      BitVec.ofInt_mul, BitVec.ofInt_toInt, BitVec.ofInt_toInt,
      BitVec.ofInt_natCast, BitVec.ofInt_natCast, BitVec.ofInt_natCast,
      BitVec.ofNat_toNat, BitVec.ofNat_toNat, BitVec.setWidth_eq,
      BitVec.setWidth_eq]
  obtain ⟨wraps, high⟩ := @exists_toInt_ofInt width (carried +
    (xLow.toNat * yHigh.toInt + xHigh.toInt * yLow.toNat))
  have low : ((xLow * yLow).toNat : Int) + 2 ^ (width + 1) * carried =
      xLow.toNat * yLow.toNat := by
    rw [BitVec.toNat_mul]
    exact_mod_cast Nat.mod_add_div _ _
  have square : (2 : Int) ^ (width + 1 + width + 1) =
      2 ^ (width + 1) * 2 ^ (width + 1) := by
    rw [← pow_add]
    rfl
  refine ⟨wraps - xHigh.toInt * yHigh.toInt, ?_⟩
  unfold value
  rw [highWord, high, square]
  linear_combination low

end OpenDylan.Lib.TwoWords
