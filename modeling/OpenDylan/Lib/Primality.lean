import Mathlib.Data.Nat.Prime.Basic

/-!
# Testing many numbers for primality

An odd number is prime when it has no factor in common with the product of the
odd numbers up to its square root.  Products are taken in halves, so that they
can be evaluated for large numbers.
-/

namespace OpenDylan.Lib.Primality

/-- The product of as many odd numbers as a power of two, from an odd one. -/
def oddProduct : Nat → Nat → Nat
  | 0, start => start
  | size + 1, start =>
      oddProduct size start * oddProduct size (start + 2 ^ (size + 1))

/-- Every one of these numbers is a factor. -/
theorem dvd_oddProduct {size start index : Nat} (inside : index < 2 ^ size) :
    start + 2 * index ∣ oddProduct size start := by
  induction size generalizing start index with
  | zero =>
      have first : index = 0 := by omega
      subst first
      exact Nat.dvd_refl start
  | succ size ih =>
      rw [oddProduct]
      rcases Nat.lt_or_ge index (2 ^ size) with lower | upper
      · exact Nat.dvd_mul_right_of_dvd (ih lower) _
      · have shifted : start + 2 * index =
            start + 2 ^ (size + 1) + 2 * (index - 2 ^ size) := by
          rw [Nat.pow_succ]
          omega
        have later : index - 2 ^ size < 2 ^ size := by
          rw [Nat.pow_succ] at inside
          omega
        rw [shifted]
        exact Nat.dvd_mul_left_of_dvd (ih later) _

/-- A number is odd and has no odd factor up to its square root. -/
def testPrime (number : Nat) : Bool :=
  let size := number.log2 / 2
  Nat.beq (number % 2) 1 &&
    Nat.blt number ((2 ^ (size + 1) + 3) * (2 ^ (size + 1) + 3)) &&
    Nat.beq (Nat.gcd number (oddProduct size 3)) 1

theorem prime_of_testPrime {number : Nat} (several : 1 < number)
    (tested : testPrime number = true) : Nat.Prime number := by
  simp only [testPrime, Bool.and_eq_true, Nat.blt_eq] at tested
  obtain ⟨⟨isOdd, bound⟩, isApart⟩ := tested
  have odd : number % 2 = 1 := Nat.eq_of_beq_eq_true isOdd
  have apart : Nat.gcd number (oddProduct (number.log2 / 2) 3) = 1 :=
    Nat.eq_of_beq_eq_true isApart
  by_contra composite
  have isPrime := Nat.minFac_prime (Nat.ne_of_gt several)
  have square : number.minFac * number.minFac ≤ number := by
    have small := Nat.minFac_sq_le_self (by omega) composite
    rwa [Nat.pow_two] at small
  have divides := Nat.minFac_dvd number
  generalize number.minFac = factor at isPrime square divides
  have factorOdd : factor % 2 = 1 := by
    rcases Nat.mod_two_eq_zero_or_one factor with even | isOdd
    · have two := Nat.dvd_trans (Nat.dvd_of_mod_eq_zero even) divides
      omega
    · exact isOdd
  have least := isPrime.two_le
  have small : factor < 2 ^ (number.log2 / 2 + 1) + 3 := by
    by_contra large
    have squares := Nat.mul_le_mul (Nat.le_of_not_lt large)
      (Nat.le_of_not_lt large)
    omega
  rw [Nat.pow_succ] at small
  have common : factor ∣ Nat.gcd number (oddProduct (number.log2 / 2) 3) := by
    apply Nat.dvd_gcd divides
    have shape : 3 + 2 * ((factor - 3) / 2) = factor := by omega
    rw [← shape]
    apply dvd_oddProduct
    omega
  rw [apart, Nat.dvd_one] at common
  omega

end OpenDylan.Lib.Primality
