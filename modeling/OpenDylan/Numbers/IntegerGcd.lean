import Mathlib.Data.Nat.Prime.Basic
import Mathlib.Tactic.Linarith
import OpenDylan.Lib.IntegerBits

/-!
# The greatest common divisor of integers

The divisor is computed with shifts and subtractions only.  Powers of two that
both numbers share are divided out first; then one of two numbers, the second
of which is always odd, is halved or replaced by half of their difference.
For two equal numbers the divisor is the number itself, whatever its sign.
-/

namespace OpenDylan.Numbers.IntegerGcd

open OpenDylan.Lib.IntegerBits

/-- What stops a computation: a division by zero, and endless running. -/
inductive Stop where
  | divisionByZero
  | endless
deriving DecidableEq

/-- `odd?` -/
def isOdd (number : Int) : Bool := number % 2 = 1

/-- The first loop of `gcd`, with a bound on its rounds. -/
def halveBoth : (rounds : Nat) → (k u v : Int) →
    Except Stop (Int × Int × Int)
  | 0, _, _, _ => .error .endless
  | rounds + 1, k, u, v =>
      if isOdd (logior u v) then .ok (k, u, v)
      else halveBoth rounds (k + 1) (ash u (-1)) (ash v (-1))

/-- The second loop of `gcd`, with a bound on its rounds. -/
def reduce (k : Int) : (rounds : Nat) → (u v tmp : Int) → Except Stop Int
  | 0, _, _, _ => .error .endless
  | rounds + 1, u, v, tmp =>
      if isOdd tmp then
        let (u, v) := if 0 < tmp then (tmp, v) else (u, -tmp)
        let tmp := u - v
        if tmp = 0 then .ok (ash u k)
        else reduce k rounds u v (ash tmp (-1))
      else
        reduce k rounds u v (ash tmp (-1))

/-- `gcd` -/
def gcd (rounds : Nat) (n m : Int) : Except Stop Int :=
  if n = 0 then .ok m
  else if m = 0 then .ok n
  else if n = m then .ok n
  else do
    let (k, u, v) ← halveBoth rounds 0 n.natAbs m.natAbs
    reduce k rounds u v (if isOdd u then -v else ash u (-1))

/-- `truncate/` -/
def truncateDivide (dividend divisor : Int) : Except Stop Int :=
  if divisor = 0 then .error .divisionByZero else .ok (dividend.tdiv divisor)

/-- `lcm` -/
def lcm (rounds : Nat) (n m : Int) : Except Stop Int := do
  let divisor ← gcd rounds n m
  let quotient ← truncateDivide (max n m) divisor
  return quotient * min n m

/-! ## The loops -/

theorem isOdd_natCast (number : Nat) :
    isOdd number = decide (number % 2 = 1) := by
  rw [isOdd, decide_eq_decide]
  omega

theorem isOdd_neg (number : Int) : isOdd (-number) = isOdd number := by
  rw [isOdd, isOdd, decide_eq_decide]
  omega

theorem ash_half (number : Int) : ash number (-1) = number / 2 :=
  ash_right number 1

/-- The powers of two that both numbers share are divided out. -/
theorem halveBoth_eq {rounds u v : Nat} (k : Nat) (positive : 0 < u)
    (enough : u < rounds) :
    ∃ k' u' v' : Nat, halveBoth rounds k u v = .ok ((k + k' : Nat), u', v') ∧
      u = u' * 2 ^ k' ∧ v = v' * 2 ^ k' ∧ (u' % 2 = 1 ∨ v' % 2 = 1) := by
  induction rounds generalizing k u v with
  | zero => omega
  | succ rounds ih =>
      rw [halveBoth, logior_natCast, isOdd_natCast]
      by_cases odd : (u ||| v) % 2 = 1
      · refine ⟨0, u, v, ?_, by simp, by simp, Nat.or_mod_two_eq_one.mp odd⟩
        rw [if_pos (by simpa using odd)]
        rfl
      · have even : ¬(u % 2 = 1 ∨ v % 2 = 1) :=
          fun either => odd (Nat.or_mod_two_eq_one.mpr either)
        obtain ⟨k', u', v', run, isU, isV, either⟩ :=
          ih (k + 1) (by omega : 0 < u / 2) (by omega) (v := v / 2)
        refine ⟨k' + 1, u', v', ?_, ?_, ?_, either⟩
        · rw [if_neg (by simpa using odd), ash_half, ash_half]
          push_cast at run ⊢
          rw [run, Int.add_assoc, Int.add_comm 1]
        · rw [pow_succ, ← Nat.mul_assoc, ← isU]
          omega
        · rw [pow_succ, ← Nat.mul_assoc, ← isV]
          omega

/-- Half of an even number has the same divisors in common with an odd one. -/
theorem gcd_half {a b : Nat} (even : a % 2 = 0) (odd : b % 2 = 1) :
    (a / 2).gcd b = a.gcd b := by
  have coprime : Nat.Coprime 2 b := by
    rw [Nat.coprime_comm, Nat.coprime_two_right]
    exact Nat.odd_iff.mpr odd
  have twice : 2 * (a / 2) = a := Nat.mul_div_cancel' (Nat.dvd_of_mod_eq_zero even)
  rw [← coprime.gcd_mul_left_cancel (a / 2), twice]

/-- Half of the difference of odd numbers has the same divisors in common with
either. -/
theorem gcd_half_sub {a b : Nat} (below : b ≤ a) (oddA : a % 2 = 1)
    (oddB : b % 2 = 1) : ((a - b) / 2).gcd b = a.gcd b := by
  rw [gcd_half (by omega) oddB, Nat.gcd_sub_self_left below]

/-- One number, with a sign that says which of the two it is, and the other,
odd one are reduced to their common divisor. -/
theorem reduce_eq {rounds k a b : Nat} {u v tmp : Int} (positive : 0 < a)
    (odd : b % 2 = 1)
    (state : tmp = a ∧ v = b ∨ tmp = -a ∧ u = b)
    (enough : a + b < rounds) :
    reduce k rounds u v tmp = .ok (ash (a.gcd b) k) := by
  induction rounds generalizing a b u v tmp with
  | zero => omega
  | succ rounds ih =>
      rw [reduce]
      have parity : isOdd tmp = decide (a % 2 = 1) := by
        rcases state with ⟨rfl, -⟩ | ⟨rfl, -⟩
        · exact isOdd_natCast a
        · rw [isOdd_neg, isOdd_natCast]
      by_cases oddA : a % 2 = 1
      · have both (p q : Nat) (oddP : p % 2 = 1) (oddQ : q % 2 = 1)
            (sum : p + q < rounds + 1) :
            (if (p : Int) - q = 0 then .ok (ash p k)
              else reduce k rounds p q (ash (p - q) (-1))) =
                .ok (ash (p.gcd q) k) := by
          rw [ash_half]
          rcases Nat.lt_trichotomy p q with below | same | above
          · rw [if_neg (by omega), Nat.gcd_comm, ← gcd_half_sub
              (Nat.le_of_lt below) oddQ oddP]
            exact ih (by omega) oddP (Or.inr ⟨by omega, rfl⟩) (by omega)
          · rw [if_pos (by omega), same, Nat.gcd_self]
          · rw [if_neg (by omega), ← gcd_half_sub (Nat.le_of_lt above) oddP oddQ]
            exact ih (by omega) oddQ (Or.inl ⟨by omega, rfl⟩) (by omega)
        rw [if_pos (by simpa [parity] using oddA)]
        rcases state with ⟨rfl, rfl⟩ | ⟨rfl, rfl⟩
        · simp only [if_pos (show (0 : Int) < a by omega)]
          exact both a b oddA odd enough
        · simp only [if_neg (show ¬(0 : Int) < -a by omega), Int.neg_neg]
          rw [Nat.gcd_comm]
          exact both b a odd oddA (by omega)
      · rw [if_neg (by simpa [parity] using oddA), ash_half]
        rw [← gcd_half (by omega) odd]
        apply ih (by omega) odd _ (by omega)
        rcases state with ⟨rfl, rfl⟩ | ⟨rfl, rfl⟩
        · left
          constructor
          · omega
          · rfl
        · right
          constructor
          · omega
          · rfl

/-! ## The divisor -/

variable {rounds : Nat} {n m : Int}

theorem gcd_eq (nonzeroN : n ≠ 0) (nonzeroM : m ≠ 0)
    (enough : n.natAbs + m.natAbs < rounds) :
    gcd rounds n m = .ok (if n = m then n else Int.gcd n m) := by
  rw [gcd, if_neg nonzeroN, if_neg nonzeroM]
  by_cases same : n = m
  · rw [if_pos same, if_pos same]
  · rw [if_neg same, if_neg same]
    obtain ⟨k, u, v, run, isU, isV, either⟩ :=
      halveBoth_eq (v := m.natAbs) 0 (by omega : 0 < n.natAbs)
        (by omega : n.natAbs < rounds)
    have positiveU : 0 < u := by
      apply Nat.pos_of_ne_zero
      rintro rfl
      omega
    have positiveV : 0 < v := by
      apply Nat.pos_of_ne_zero
      rintro rfl
      omega
    have smallU : u ≤ n.natAbs := by
      rw [isU]
      exact Nat.le_mul_of_pos_right u (Nat.two_pow_pos k)
    have smallV : v ≤ m.natAbs := by
      rw [isV]
      exact Nat.le_mul_of_pos_right v (Nat.two_pow_pos k)
    have divisor : ash (u.gcd v : Nat) k = Int.gcd n m := by
      rw [ash_left, Int.gcd, isU, isV, Nat.gcd_mul_right]
      push_cast
      rfl
    have start : halveBoth rounds 0 n.natAbs m.natAbs = .ok ((k : Int), u, v) := by
      simpa using run
    rw [start, ← divisor]
    simp only [bind, Except.bind]
    by_cases oddU : u % 2 = 1
    · rw [if_pos (by simpa [isOdd_natCast] using oddU), Nat.gcd_comm]
      exact reduce_eq positiveV oddU (Or.inr ⟨rfl, rfl⟩) (by omega)
    · have oddV : v % 2 = 1 := either.resolve_left oddU
      rw [if_neg (by simpa [isOdd_natCast] using oddU), ash_half,
        ← gcd_half (by omega) oddV]
      exact reduce_eq (by omega) oddV (Or.inl ⟨by omega, rfl⟩) (by omega)

/-- The multiple of different numbers of the same sign is positive; that of two
equal numbers is the number itself. -/
theorem lcm_eq (sameSign : 0 < n * m) (enough : n.natAbs + m.natAbs < rounds) :
    lcm rounds n m = .ok (if n = m then n else Int.lcm n m) := by
  have nonzeroN : n ≠ 0 := by
    rintro rfl
    simp at sameSign
  have nonzeroM : m ≠ 0 := by
    rintro rfl
    simp at sameSign
  rw [lcm, gcd_eq nonzeroN nonzeroM enough]
  simp only [bind, Except.bind, truncateDivide]
  by_cases same : n = m
  · subst same
    simp only [if_true, if_neg nonzeroN, max_self, min_self,
      Int.tdiv_self nonzeroN, one_mul, pure, Except.pure]
  · have positive : (0 : Int) < Int.gcd n m := by
      exact_mod_cast Int.gcd_pos_of_ne_zero_left m nonzeroN
    have divides : (Int.gcd n m : Int) ∣ max n m := by
      rcases max_choice n m with isN | isM
      · rw [isN]
        exact Int.gcd_dvd_left n m
      · rw [isM]
        exact Int.gcd_dvd_right n m
    have product : (Int.gcd n m : Int) * Int.lcm n m = n * m := by
      rw [← Nat.cast_mul, Int.gcd_mul_lcm, ← Int.natAbs_mul,
        Int.natAbs_of_nonneg (le_of_lt sameSign)]
    rw [if_neg same, if_neg (ne_of_gt positive), if_neg same]
    simp only [pure, Except.pure, Except.ok.injEq]
    apply Int.eq_of_mul_eq_mul_left (ne_of_gt positive)
    rw [product, ← mul_assoc, Int.mul_tdiv_cancel' divides, max_mul_min]

end OpenDylan.Numbers.IntegerGcd
