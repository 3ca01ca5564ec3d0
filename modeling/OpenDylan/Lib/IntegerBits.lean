import Mathlib.Data.Int.Bitwise

/-!
# Integers as strings of bits

Fields of bits are put together with shifts and disjunctions, and taken apart
with shifts and masks.  On natural numbers that fit into their fields the
first is a sum of multiples of powers of two and the second a remainder.
-/

namespace OpenDylan.Lib.IntegerBits

/-- Shift to the left, or to the right for a negative count, rounding down. -/
def ash (number count : Int) : Int :=
  if 0 ≤ count then number * 2 ^ count.toNat
  else number / 2 ^ (-count).toNat

/-- The bits that are in both. -/
def logand (first second : Int) : Int :=
  Int.land first second

/-- The bits that are in either. -/
def logior (first second : Int) : Int :=
  Int.lor first second

theorem ash_left (number : Int) (count : Nat) :
    ash number count = number * 2 ^ count := by
  rw [ash, if_pos (Int.natCast_nonneg count), Int.toNat_natCast]

theorem ash_right (number : Int) (count : Nat) :
    ash number (-count) = number / 2 ^ count := by
  rw [ash]
  split
  · next nonnegative =>
      have zero : count = 0 := by omega
      rw [zero]
      simp
  · rw [neg_neg, Int.toNat_natCast]

theorem logior_natCast (first second : Nat) :
    logior first second = ((first ||| second : Nat) : Int) := rfl

theorem logand_natCast (first second : Nat) :
    logand first second = ((first &&& second : Nat) : Int) := rfl

/-- A mask for the low bits takes a remainder. -/
theorem logand_mask (number width : Nat) :
    logand number (2 ^ width - 1) = number % 2 ^ width := by
  have mask : (2 : Int) ^ width - 1 = ((2 ^ width - 1 : Nat) : Int) := by
    rw [Int.natCast_sub (Nat.two_pow_pos width)]
    push_cast
    rfl
  rw [mask, logand_natCast, Nat.and_two_pow_sub_one_eq_mod]
  push_cast
  rfl

/-- A field is masked where it is and then shifted to the right. -/
theorem ash_logand_mask (number low width : Nat) :
    ash (logand number (ash (2 ^ width - 1) low)) (-low) =
      number / 2 ^ low % 2 ^ width := by
  have mask : ash (2 ^ width - 1) low =
      (((2 ^ width - 1) <<< low : Nat) : Int) := by
    rw [ash_left, Nat.shiftLeft_eq]
    push_cast [Nat.two_pow_pos width]
    rfl
  rw [mask, logand_natCast, ash_right]
  have shifted : (number &&& (2 ^ width - 1) <<< low) / 2 ^ low =
      number / 2 ^ low % 2 ^ width := by
    rw [← Nat.shiftRight_eq_div_pow, Nat.shiftRight_and_distrib,
      Nat.shiftLeft_shiftRight, Nat.and_two_pow_sub_one_eq_mod,
      Nat.shiftRight_eq_div_pow]
  exact_mod_cast shifted

/-- A field is shifted to the right and then masked. -/
theorem logand_ash (number low width : Nat) :
    logand (ash number (-low)) (2 ^ width - 1) =
      number / 2 ^ low % 2 ^ width := by
  have shifted : (number : Int) / 2 ^ low =
      ((number / 2 ^ low : Nat) : Int) := by
    push_cast
    rfl
  rw [ash_right, shifted, logand_mask]

/-- What is shifted above a field has no bits in common with it. -/
theorem or_eq_add {low width : Nat} (fits : low < 2 ^ width) (high : Nat) :
    high * 2 ^ width ||| low = high * 2 ^ width + low := by
  rw [← Nat.shiftLeft_eq, Nat.shiftLeft_add_eq_or_of_lt fits]

/-- A field is put below what is shifted above it. -/
theorem logior_ash {low width : Nat} (fits : low < 2 ^ width) (high : Nat) :
    logior (ash high width) low = high * 2 ^ width + low := by
  have shifted : ash high width = ((high * 2 ^ width : Nat) : Int) := by
    rw [ash_left]
    push_cast
    rfl
  rw [shifted, logior_natCast, or_eq_add fits]
  push_cast
  rfl

end OpenDylan.Lib.IntegerBits
