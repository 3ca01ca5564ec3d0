import OpenDylan.Numbers.DoubleInteger

/-!
# Exact addition and subtraction of double integers

The low and high words of a result are those of the exact integer.  What may go
wrong is only the check of the high words, which comes before the carry or the
borrow is added to them.
-/

namespace OpenDylan.Numbers

open OpenDylan.Lib OpenDylan.Lib.TwoWords

variable {bits : Nat}

/-! ## The integers that values stand for -/

/-- The integer that an `<integer>` stands for. -/
def Integer.value : Integer bits → Int
  | .small x => x.value
  | .double low high => TwoWords.value low high

/-- A double integer does not fit into a `dylan/<integer>`. -/
def Integer.Canonical : Integer bits → Prop
  | .small _ => True
  | .double low high => ¬Holds bits (TwoWords.value low high)

/-- Two signed machine words can hold an integer. -/
def Representable (bits : Nat) (value : Int) : Prop :=
  Holds (bits + 2 + 1 + (bits + 2)) value

/-! ## Tagged integers -/

theorem Holds.wider {value : Int} (holds : Holds bits value) :
    Holds (bits + 2) value ∧ Holds (bits + 2) (4 * value + 1) := by
  unfold Holds at holds ⊢
  rw [pow_add]
  omega

theorem toInt_interpret (x : SmallInteger bits) :
    (interpretIntegerAsMachineWord x).toInt = 4 * x.value + 1 :=
  toInt_ofInt (Holds.wider x.holds).2

theorem toInt_coerce (x : SmallInteger bits) :
    (coerceIntegerToMachineWord x).toInt = x.value := by
  unfold coerceIntegerToMachineWord integerTagWidth
  rw [BitVec.toInt_sshiftRight, toInt_interpret, Int.shiftRight_eq_div_pow]
  omega

theorem toInt_one : (1 : Word bits).toInt = 1 :=
  BitVec.toInt_one (by omega)

theorem toInt_strip (x : SmallInteger bits) :
    (stripIntegerTag (interpretIntegerAsMachineWord x)).toInt =
      4 * x.value := by
  have range := Holds.wider x.holds
  have tagged := toInt_interpret x
  have one : (integerTagValue : Word bits).toInt = 1 := toInt_one
  unfold stripIntegerTag
  rw [toInt_sub, tagged, one]
  · omega
  · rw [tagged, one]
    have holds := x.holds
    unfold Holds at holds ⊢
    rw [pow_add]
    omega

/-- A shift by two bits is exact if they are free. -/
theorem toInt_shiftLeft_two {x : Word bits} (holds : Holds bits x.toInt) :
    (x <<< 2).toInt = 4 * x.toInt := by
  have range : Holds (bits + 2) (4 * x.toInt) := by
    unfold Holds at holds ⊢
    rw [pow_add]
    omega
  have residue : ∃ wraps : Int, ((x.toNat <<< 2 : Nat) : Int) =
      4 * x.toInt + ((2 ^ (bits + 3) : Nat) : Int) * wraps := by
    rw [Nat.shiftLeft_eq, BitVec.toInt_eq_toNat_cond]
    split
    · exact ⟨0, by push_cast; omega⟩
    · refine ⟨4, ?_⟩
      push_cast
      omega
  obtain ⟨wraps, residue⟩ := residue
  have shifted := @BitVec.toInt_shiftLeft (bits + 3) 2 x
  rw [residue, Int.add_mul_bmod_self_left, ← BitVec.toInt_ofInt,
    toInt_ofInt range] at shifted
  exact shifted
/-- The integer of a word that has room for the tag. -/
theorem coerceMachineWordToInteger_ok {x : Word bits}
    (holds : Holds bits x.toInt) :
    ∃ result, coerceMachineWordToInteger x = .ok result ∧
      result.value = x.toInt := by
  have shifted := toInt_shiftLeft_two holds
  have back : (x <<< 2).sshiftRight 2 = x := by
    apply BitVec.eq_of_toInt_eq
    rw [BitVec.toInt_sshiftRight, shifted, Int.shiftRight_eq_div_pow]
    omega
  have tagged : (insertIntegerTag (x <<< 2)).toInt = 4 * x.toInt + 1 := by
    have one : (integerTagValue : Word bits).toInt = 1 := toInt_one
    unfold insertIntegerTag
    rw [toInt_add, shifted, one]
    rw [shifted, one]
    exact (Holds.wider holds).2
  refine ⟨interpretMachineWordAsInteger (insertIntegerTag (x <<< 2)), ?_, ?_⟩
  · unfold coerceMachineWordToInteger shiftLeftSignalOverflow integerTagWidth
    rw [if_neg fun changed => changed back.symm]
    rfl
  · show (insertIntegerTag (x <<< 2)).toInt / 4 = x.toInt
    rw [tagged]
    omega

/-! ## Two words of an operand -/

theorem holds_zero (width : Nat) : Holds width 0 := by
  have positive : (0 : Int) < 2 ^ width := by positivity
  unfold Holds
  omega

theorem holds_minusOne (width : Nat) : Holds width (-1) := by
  have positive : (0 : Int) < 2 ^ width := by positivity
  unfold Holds
  omega

theorem toInt_signWord (x : Word bits) :
    (signWord x).toInt = if x.toInt < 0 then -1 else 0 := by
  unfold signWord
  split
  · exact toInt_ofInt (holds_minusOne (bits + 2))
  · exact toInt_ofInt (holds_zero (bits + 2))

/-- A word and its sign are the integer of the word. -/
theorem value_signWord (x : Word bits) :
    TwoWords.value x (signWord x) = x.toInt := by
  unfold TwoWords.value
  rw [toInt_signWord, toNat_eq]
  split
  · show _ + 2 ^ (bits + 3) + 2 ^ (bits + 3) * -1 = _
    omega
  · omega

theorem value_words (x : Integer bits) :
    TwoWords.value x.words.1 x.words.2 = x.value := by
  cases x with
  | small x => exact (value_signWord _).trans (toInt_coerce x)
  | double low high => rfl

/-! ## Canonical results -/

/-- The two words are those of a tagged integer. -/
theorem doubleIntegerIsInteger_iff (low high : Word bits) :
    doubleIntegerIsInteger low high = true ↔
      Holds bits (TwoWords.value low high) := by
  have range := toInt_holds low
  have highRange := toInt_holds high
  have shift : (low.sshiftRight (bits + 3 - integerTagWidth - 1)).toInt =
      low.toInt / 2 ^ bits := by
    show (low.sshiftRight bits).toInt = _
    rw [BitVec.toInt_sshiftRight, Int.shiftRight_eq_div_pow]
    push_cast
    rfl
  have zero : (BitVec.ofInt (bits + 3) 0).toInt = 0 :=
    toInt_ofInt (holds_zero (bits + 2))
  have minusOne : (BitVec.ofInt (bits + 3) (-1)).toInt = -1 :=
    toInt_ofInt (holds_minusOne (bits + 2))
  unfold doubleIntegerIsInteger
  rw [decide_eq_true_iff, ← BitVec.toInt_inj, ← BitVec.toInt_inj,
    ← BitVec.toInt_inj, shift, zero, minusOne]
  have positive : (0 : Int) < 2 ^ bits := by positivity
  have wide : (2 : Int) ^ (bits + 3) = 8 * 2 ^ bits := by
    rw [pow_add]
    omega
  have quotient : ∀ number : Int, low.toInt / 2 ^ bits = number ↔
      number * 2 ^ bits ≤ low.toInt ∧
        low.toInt < (number + 1) * 2 ^ bits := by
    intro number
    rw [← Int.le_ediv_iff_mul_le positive,
      ← Int.ediv_lt_iff_lt_mul positive]
    omega
  have unsigned : (low.toNat : Int) =
      if low.toInt < 0 then low.toInt + 2 ^ (bits + 3) else low.toInt :=
    toNat_eq low
  have small : (low.toNat : Int) < 2 ^ (bits + 3) := by
    exact_mod_cast low.isLt
  show _ ↔ Holds bits (low.toNat + 2 ^ (bits + 3) * high.toInt)
  unfold Holds at range ⊢
  rw [pow_add] at range
  constructor
  · rintro ⟨same, zero | minusOne⟩
    · rw [zero, eq_comm, quotient] at same
      rw [if_neg (by omega)] at unsigned
      rw [zero]
      omega
    · rw [minusOne, eq_comm, quotient] at same
      rw [if_pos (by omega)] at unsigned
      rw [minusOne]
      omega
  · intro within
    have notAbove : high.toInt < 1 := by
      by_contra above
      have scaled := Int.mul_le_mul_of_nonneg_left
        (show 1 ≤ high.toInt by omega)
        (show (0 : Int) ≤ 2 ^ (bits + 3) by positivity)
      omega
    have notBelow : -2 < high.toInt := by
      by_contra below
      have scaled := Int.mul_le_mul_of_nonneg_left
        (show high.toInt ≤ -2 by omega)
        (show (0 : Int) ≤ 2 ^ (bits + 3) by positivity)
      omega
    have either : high.toInt = 0 ∨ high.toInt = -1 := by omega
    refine ⟨?_, either⟩
    rw [eq_comm, quotient]
    rcases either with zero | minusOne
    · rw [zero] at within ⊢
      split at unsigned <;> omega
    · rw [minusOne] at within ⊢
      split at unsigned <;> omega

/-- A result that fits into one word becomes a tagged integer. -/
theorem interpretResult_spec (low high : Word bits) :
    ∃ result, interpretResultAsAbstractInteger low high = .ok result ∧
      result.value = TwoWords.value low high ∧ result.Canonical := by
  unfold interpretResultAsAbstractInteger
  by_cases isInteger : doubleIntegerIsInteger low high = true
  · have holds := (doubleIntegerIsInteger_iff low high).1 isInteger
    have wordEq : low.toInt = TwoWords.value low high := by
      rw [← toInt_ofInt (Holds.wider holds).1]
      exact congrArg BitVec.toInt (ofInt_value low high).symm
    rw [← wordEq] at holds
    obtain ⟨result, coerced, valueEq⟩ := coerceMachineWordToInteger_ok holds
    refine ⟨.small result, ?_, valueEq.trans wordEq, trivial⟩
    rw [if_pos isInteger, coerced]
    rfl
  · rw [if_neg isInteger]
    refine ⟨.double low high, rfl, rfl, ?_⟩
    rw [doubleIntegerIsInteger_iff] at isInteger
    exact isInteger


/-! ## The operations on two words -/

theorem toInt_carry (x y : Word bits) :
    (machineWordUnsignedAddWithCarry x y).2.toInt = carry x y := by
  unfold machineWordUnsignedAddWithCarry carry
  split
  · exact toInt_one
  · exact toInt_ofInt (holds_zero (bits + 2))

theorem toInt_borrow (x y : Word bits) :
    (machineWordUnsignedSubtractWithBorrow x y).2.toInt = borrow x y := by
  unfold machineWordUnsignedSubtractWithBorrow borrow
  split
  · exact toInt_one
  · exact toInt_ofInt (holds_zero (bits + 2))

theorem addSignalOverflow_ok {x y : Word bits}
    (holds : Holds (bits + 2) (x.toInt + y.toInt)) :
    machineWordAddSignalOverflow x y = .ok (x + y) := by
  unfold machineWordAddSignalOverflow
  rw [(saddOverflow_iff x y).2 holds]
  rfl

theorem addSignalOverflow_error {x y : Word bits}
    (overflows : ¬Holds (bits + 2) (x.toInt + y.toInt)) :
    machineWordAddSignalOverflow x y = .error .arithmeticOverflow := by
  unfold machineWordAddSignalOverflow
  rw [if_pos]
  rw [← saddOverflow_iff x y, Bool.not_eq_false] at overflows
  exact overflows

theorem subtractSignalOverflow_ok {x y : Word bits}
    (holds : Holds (bits + 2) (x.toInt - y.toInt)) :
    machineWordSubtractSignalOverflow x y = .ok (x - y) := by
  unfold machineWordSubtractSignalOverflow
  rw [(ssubOverflow_iff x y).2 holds]
  rfl

theorem subtractSignalOverflow_error {x y : Word bits}
    (overflows : ¬Holds (bits + 2) (x.toInt - y.toInt)) :
    machineWordSubtractSignalOverflow x y = .error .arithmeticOverflow := by
  unfold machineWordSubtractSignalOverflow
  rw [if_pos]
  rw [← ssubOverflow_iff x y, Bool.not_eq_false] at overflows
  exact overflows

/-- The outcome that is exact: the integer in its canonical form, or the
overflow if two words cannot hold it. -/
structure Exact (outcome : Except Failure (Integer bits)) (value : Int) :
    Prop where
  within : Representable bits value → ∃ result, outcome = .ok result ∧
    result.value = value ∧ result.Canonical
  beyond : ¬Representable bits value →
    outcome = .error .arithmeticOverflow

/-- The high words overflow downwards before the carry is added, which makes
up for it. -/
def CarryTooLate (x y : Integer bits) : Prop :=
  x.words.2.toInt + y.words.2.toInt = -2 ^ (bits + 2) - 1 ∧
    carry x.words.1 y.words.1 = 1

/-- The high words overflow upwards before the borrow is subtracted, which
makes up for it. -/
def BorrowTooLate (x y : Integer bits) : Prop :=
  x.words.2.toInt - y.words.2.toInt = 2 ^ (bits + 2) ∧
    borrow x.words.1 y.words.1 = 1

/-- The result of an addition of two words if no check fails. -/
theorem addDouble_ok {x y : Word bits × Word bits}
    (high : Holds (bits + 2) (x.2.toInt + y.2.toInt))
    (sum : Holds (bits + 2)
      (x.2.toInt + y.2.toInt + carry x.1 y.1)) :
    ∃ result, addDouble x y = .ok result ∧
      result.value = TwoWords.value x.1 x.2 + TwoWords.value y.1 y.2 ∧
      result.Canonical := by
  have highEq := toInt_add high
  have carryEq := toInt_carry x.1 y.1
  have sumHolds : Holds (bits + 2) ((x.2 + y.2).toInt +
      (machineWordUnsignedAddWithCarry x.1 y.1).2.toInt) := by
    rw [highEq, carryEq]
    exact sum
  obtain ⟨result, interpreted, valueEq, canonical⟩ := interpretResult_spec
    (x.1 + y.1)
    (x.2 + y.2 + (machineWordUnsignedAddWithCarry x.1 y.1).2)
  refine ⟨result, ?_, ?_, canonical⟩
  · unfold addDouble
    rw [addSignalOverflow_ok high]
    show (machineWordAddSignalOverflow (x.2 + y.2)
      (machineWordUnsignedAddWithCarry x.1 y.1).2 >>= _) = _
    rw [addSignalOverflow_ok sumHolds]
    exact interpreted
  · rw [valueEq, value_add]
    unfold TwoWords.value
    rw [toInt_add sumHolds, highEq, carryEq]

/-- Whether two words can hold the sum is seen from the high words. -/
theorem representable_add_iff (x y : Word bits × Word bits) :
    Representable bits (TwoWords.value x.1 x.2 + TwoWords.value y.1 y.2) ↔
      Holds (bits + 2) (x.2.toInt + y.2.toInt + carry x.1 y.1) := by
  rw [value_add]
  exact holds_iff (x.1 + y.1).isLt _

theorem representable_sub_iff (x y : Word bits × Word bits) :
    Representable bits (TwoWords.value x.1 x.2 - TwoWords.value y.1 y.2) ↔
      Holds (bits + 2) (x.2.toInt - y.2.toInt - borrow x.1 y.1) := by
  rw [value_sub]
  exact holds_iff (x.1 - y.1).isLt _

/-- A carry makes up for an overflow only if that is downwards by one. -/
theorem holds_carry_iff {width : Nat} {high : Int} {carry : Nat}
    (overflows : ¬Holds width high) (small : carry ≤ 1) :
    Holds width (high + carry) ↔ high = -2 ^ width - 1 ∧ carry = 1 := by
  have positive : (0 : Int) < 2 ^ width := by positivity
  unfold Holds at overflows ⊢
  omega

theorem holds_borrow_iff {width : Nat} {high : Int} {borrow : Nat}
    (overflows : ¬Holds width high) (small : borrow ≤ 1) :
    Holds width (high - borrow) ↔ high = 2 ^ width ∧ borrow = 1 := by
  have positive : (0 : Int) < 2 ^ width := by positivity
  unfold Holds at overflows ⊢
  omega

/-- The first check of an addition fails. -/
theorem addDouble_error {x y : Word bits × Word bits}
    (overflows : ¬Holds (bits + 2) (x.2.toInt + y.2.toInt)) :
    addDouble x y = .error .arithmeticOverflow := by
  unfold addDouble
  rw [addSignalOverflow_error overflows]
  rfl

/-- The second check of an addition fails. -/
theorem addDouble_error_carry {x y : Word bits × Word bits}
    (high : Holds (bits + 2) (x.2.toInt + y.2.toInt))
    (overflows : ¬Holds (bits + 2)
      (x.2.toInt + y.2.toInt + carry x.1 y.1)) :
    addDouble x y = .error .arithmeticOverflow := by
  unfold addDouble
  rw [addSignalOverflow_ok high]
  show (machineWordAddSignalOverflow (x.2 + y.2)
    (machineWordUnsignedAddWithCarry x.1 y.1).2 >>= _) = _
  rw [addSignalOverflow_error]
  · rfl
  · rw [toInt_add high, toInt_carry]
    exact overflows

theorem addDouble_exact_iff (x y : Word bits × Word bits) :
    Exact (addDouble x y)
        (TwoWords.value x.1 x.2 + TwoWords.value y.1 y.2) ↔
      ¬(x.2.toInt + y.2.toInt = -2 ^ (bits + 2) - 1 ∧
        carry x.1 y.1 = 1) := by
  by_cases high : Holds (bits + 2) (x.2.toInt + y.2.toInt)
  · have notLate : ¬(x.2.toInt + y.2.toInt = -2 ^ (bits + 2) - 1 ∧
        carry x.1 y.1 = 1) := by
      rintro ⟨late, -⟩
      unfold Holds at high
      omega
    refine ⟨fun _ => notLate, fun _ => ?_⟩
    by_cases sum : Holds (bits + 2)
        (x.2.toInt + y.2.toInt + carry x.1 y.1)
    · constructor
      · intro _
        exact addDouble_ok high sum
      · intro beyond
        exact absurd ((representable_add_iff x y).2 sum) beyond
    · constructor
      · intro within
        exact absurd ((representable_add_iff x y).1 within) sum
      · intro _
        exact addDouble_error_carry high sum
  · rw [← holds_carry_iff high (carry_le x.1 y.1), ← representable_add_iff]
    have fails := addDouble_error high
    constructor
    · intro exact within
      obtain ⟨result, returns, -⟩ := exact.within within
      rw [fails] at returns
      cases returns
    · intro beyond
      exact ⟨fun within => absurd within beyond, fun _ => fails⟩

/-- The result of a subtraction of two words if no check fails. -/
theorem subtractDouble_ok {x y : Word bits × Word bits}
    (high : Holds (bits + 2) (x.2.toInt - y.2.toInt))
    (difference : Holds (bits + 2)
      (x.2.toInt - y.2.toInt - borrow x.1 y.1)) :
    ∃ result, subtractDouble x y = .ok result ∧
      result.value = TwoWords.value x.1 x.2 - TwoWords.value y.1 y.2 ∧
      result.Canonical := by
  have highEq := toInt_sub high
  have borrowEq := toInt_borrow x.1 y.1
  have holds : Holds (bits + 2) ((x.2 - y.2).toInt -
      (machineWordUnsignedSubtractWithBorrow x.1 y.1).2.toInt) := by
    rw [highEq, borrowEq]
    exact difference
  obtain ⟨result, interpreted, valueEq, canonical⟩ := interpretResult_spec
    (x.1 - y.1)
    (x.2 - y.2 - (machineWordUnsignedSubtractWithBorrow x.1 y.1).2)
  refine ⟨result, ?_, ?_, canonical⟩
  · unfold subtractDouble
    rw [subtractSignalOverflow_ok high]
    show (machineWordSubtractSignalOverflow (x.2 - y.2)
      (machineWordUnsignedSubtractWithBorrow x.1 y.1).2 >>= _) = _
    rw [subtractSignalOverflow_ok holds]
    exact interpreted
  · rw [valueEq, value_sub]
    unfold TwoWords.value
    rw [toInt_sub holds, highEq, borrowEq]

/-- The first check of a subtraction fails. -/
theorem subtractDouble_error {x y : Word bits × Word bits}
    (overflows : ¬Holds (bits + 2) (x.2.toInt - y.2.toInt)) :
    subtractDouble x y = .error .arithmeticOverflow := by
  unfold subtractDouble
  rw [subtractSignalOverflow_error overflows]
  rfl

/-- The second check of a subtraction fails. -/
theorem subtractDouble_error_borrow {x y : Word bits × Word bits}
    (high : Holds (bits + 2) (x.2.toInt - y.2.toInt))
    (overflows : ¬Holds (bits + 2)
      (x.2.toInt - y.2.toInt - borrow x.1 y.1)) :
    subtractDouble x y = .error .arithmeticOverflow := by
  unfold subtractDouble
  rw [subtractSignalOverflow_ok high]
  show (machineWordSubtractSignalOverflow (x.2 - y.2)
    (machineWordUnsignedSubtractWithBorrow x.1 y.1).2 >>= _) = _
  rw [subtractSignalOverflow_error]
  · rfl
  · rw [toInt_sub high, toInt_borrow]
    exact overflows

theorem subtractDouble_exact_iff (x y : Word bits × Word bits) :
    Exact (subtractDouble x y)
        (TwoWords.value x.1 x.2 - TwoWords.value y.1 y.2) ↔
      ¬(x.2.toInt - y.2.toInt = 2 ^ (bits + 2) ∧ borrow x.1 y.1 = 1) := by
  by_cases high : Holds (bits + 2) (x.2.toInt - y.2.toInt)
  · have notLate : ¬(x.2.toInt - y.2.toInt = 2 ^ (bits + 2) ∧
        borrow x.1 y.1 = 1) := by
      rintro ⟨late, -⟩
      unfold Holds at high
      omega
    refine ⟨fun _ => notLate, fun _ => ?_⟩
    by_cases difference : Holds (bits + 2)
        (x.2.toInt - y.2.toInt - borrow x.1 y.1)
    · constructor
      · intro _
        exact subtractDouble_ok high difference
      · intro beyond
        exact absurd ((representable_sub_iff x y).2 difference) beyond
    · constructor
      · intro within
        exact absurd ((representable_sub_iff x y).1 within) difference
      · intro _
        exact subtractDouble_error_borrow high difference
  · rw [← holds_borrow_iff high (borrow_le x.1 y.1),
      ← representable_sub_iff]
    have fails := subtractDouble_error high
    constructor
    · intro exact within
      obtain ⟨result, returns, -⟩ := exact.within within
      rw [fails] at returns
      cases returns
    · intro beyond
      exact ⟨fun within => absurd within beyond, fun _ => fails⟩

/-! ## The operations on tagged integers -/

theorem toInt_signWord_range (x : Word bits) :
    -1 ≤ (signWord x).toInt ∧ (signWord x).toInt ≤ 0 := by
  rw [toInt_signWord]
  split <;> omega

/-- The high words of two tagged integers never overflow. -/
theorem holds_signs (x y : Word bits) (more : Int) (low : -1 ≤ more)
    (high : more ≤ 1) :
    Holds (bits + 2) ((signWord x).toInt + (signWord y).toInt) ∧
      Holds (bits + 2) ((signWord x).toInt + (signWord y).toInt + more) ∧
      Holds (bits + 2) ((signWord x).toInt - (signWord y).toInt) ∧
      Holds (bits + 2) ((signWord x).toInt - (signWord y).toInt + more) := by
  have first := toInt_signWord_range x
  have second := toInt_signWord_range y
  have positive : (0 : Int) < 2 ^ bits := by positivity
  unfold Holds
  rw [pow_add]
  omega

theorem representable_of_small {value : Int} (holds : Holds (bits + 2) value) :
    Representable bits value := by
  have wider : (2 : Int) ^ (bits + 2) ≤ 2 ^ (bits + 2 + 1 + (bits + 2)) :=
    pow_le_pow_right₀ (by decide) (by omega)
  unfold Representable
  unfold Holds at holds ⊢
  omega

/-- The two words of a sum of tagged integers that is too large for one. -/
theorem addSmall_wide {x y : SmallInteger bits}
    (overflow : BitVec.saddOverflow (interpretIntegerAsMachineWord x)
      (stripIntegerTag (interpretIntegerAsMachineWord y)) = true) :
    ∃ low high, addSmall x y = .ok (.double low high) ∧
      TwoWords.value low high = x.value + y.value := by
  have signs := holds_signs (coerceIntegerToMachineWord x)
    (coerceIntegerToMachineWord y)
    (carry (coerceIntegerToMachineWord x) (coerceIntegerToMachineWord y))
    (by omega)
    (by exact_mod_cast carry_le _ _)
  have highEq := toInt_add signs.1
  have carryEq := toInt_carry (coerceIntegerToMachineWord x)
    (coerceIntegerToMachineWord y)
  have sumHolds := signs.2.1
  rw [← highEq, ← carryEq] at sumHolds
  refine ⟨coerceIntegerToMachineWord x + coerceIntegerToMachineWord y,
    signWord (coerceIntegerToMachineWord x) +
      signWord (coerceIntegerToMachineWord y) +
        (machineWordUnsignedAddWithCarry (coerceIntegerToMachineWord x)
          (coerceIntegerToMachineWord y)).2, ?_, ?_⟩
  · unfold addSmall machineWordAddWithOverflow
    simp only [overflow, if_true]
    show (machineWordAddSignalOverflow _ _ >>= _) = _
    rw [addSignalOverflow_ok signs.1]
    show (machineWordAddSignalOverflow _ _ >>= _) = _
    rw [addSignalOverflow_ok sumHolds]
    rfl
  · have sum := value_add (coerceIntegerToMachineWord x)
      (signWord (coerceIntegerToMachineWord x))
      (coerceIntegerToMachineWord y)
      (signWord (coerceIntegerToMachineWord y))
    rw [value_signWord, value_signWord, toInt_coerce, toInt_coerce] at sum
    rw [sum]
    unfold TwoWords.value
    rw [toInt_add sumHolds, highEq, carryEq]

theorem addSmall_narrow {x y : SmallInteger bits}
    (fits : BitVec.saddOverflow (interpretIntegerAsMachineWord x)
      (stripIntegerTag (interpretIntegerAsMachineWord y)) = false) :
    addSmall x y = .ok (.small (interpretMachineWordAsInteger
      (interpretIntegerAsMachineWord x +
        stripIntegerTag (interpretIntegerAsMachineWord y)))) := by
  unfold addSmall machineWordAddWithOverflow
  simp only [fits]
  rfl

theorem addSmall_exact (x y : SmallInteger bits) :
    Exact (addSmall x y) (x.value + y.value) := by
  have sumTagged : (interpretIntegerAsMachineWord x).toInt +
      (stripIntegerTag (interpretIntegerAsMachineWord y)).toInt =
        4 * (x.value + y.value) + 1 := by
    rw [toInt_interpret, toInt_strip]
    omega
  have xHolds := x.holds
  have yHolds := y.holds
  have representable : Representable bits (x.value + y.value) := by
    apply representable_of_small
    unfold Holds at xHolds yHolds ⊢
    rw [pow_add]
    omega
  refine ⟨fun _ => ?_, fun beyond => absurd representable beyond⟩
  cases overflow : BitVec.saddOverflow (interpretIntegerAsMachineWord x)
      (stripIntegerTag (interpretIntegerAsMachineWord y)) with
  | false =>
      refine ⟨_, addSmall_narrow overflow, ?_, trivial⟩
      show BitVec.toInt _ / 4 = _
      rw [toInt_add ((saddOverflow_iff _ _).1 overflow), sumTagged]
      omega
  | true =>
      obtain ⟨low, high, returns, valueEq⟩ := addSmall_wide overflow
      refine ⟨.double low high, returns, valueEq, ?_⟩
      show ¬Holds bits _
      rw [valueEq]
      intro holds
      have fits := (Holds.wider holds).2
      rw [← sumTagged, ← saddOverflow_iff, overflow] at fits
      cases fits

/-- The two words of a difference of tagged integers that is too large for
one. -/
theorem subtractSmall_wide {x y : SmallInteger bits}
    (overflow : BitVec.ssubOverflow (interpretIntegerAsMachineWord x)
      (stripIntegerTag (interpretIntegerAsMachineWord y)) = true) :
    ∃ low high, subtractSmall x y = .ok (.double low high) ∧
      TwoWords.value low high = x.value - y.value := by
  have least := borrow_le (coerceIntegerToMachineWord x)
    (coerceIntegerToMachineWord y)
  have signs := holds_signs (coerceIntegerToMachineWord x)
    (coerceIntegerToMachineWord y)
    (-borrow (coerceIntegerToMachineWord x) (coerceIntegerToMachineWord y))
    (by omega) (by omega)
  have highEq := toInt_sub signs.2.2.1
  have borrowEq := toInt_borrow (coerceIntegerToMachineWord x)
    (coerceIntegerToMachineWord y)
  have holds := signs.2.2.2
  rw [← highEq, ← borrowEq, ← Int.sub_eq_add_neg] at holds
  refine ⟨coerceIntegerToMachineWord x - coerceIntegerToMachineWord y,
    signWord (coerceIntegerToMachineWord x) -
      signWord (coerceIntegerToMachineWord y) -
        (machineWordUnsignedSubtractWithBorrow
          (coerceIntegerToMachineWord x)
          (coerceIntegerToMachineWord y)).2, ?_, ?_⟩
  · unfold subtractSmall machineWordSubtractWithOverflow
    simp only [overflow, if_true]
    show (machineWordSubtractSignalOverflow _ _ >>= _) = _
    rw [subtractSignalOverflow_ok signs.2.2.1]
    show (machineWordSubtractSignalOverflow _ _ >>= _) = _
    rw [subtractSignalOverflow_ok holds]
    rfl
  · have difference := value_sub (coerceIntegerToMachineWord x)
      (signWord (coerceIntegerToMachineWord x))
      (coerceIntegerToMachineWord y)
      (signWord (coerceIntegerToMachineWord y))
    rw [value_signWord, value_signWord, toInt_coerce, toInt_coerce]
      at difference
    rw [difference]
    unfold TwoWords.value
    rw [toInt_sub holds, highEq, borrowEq]

theorem subtractSmall_narrow {x y : SmallInteger bits}
    (fits : BitVec.ssubOverflow (interpretIntegerAsMachineWord x)
      (stripIntegerTag (interpretIntegerAsMachineWord y)) = false) :
    subtractSmall x y = .ok (.small (interpretMachineWordAsInteger
      (interpretIntegerAsMachineWord x -
        stripIntegerTag (interpretIntegerAsMachineWord y)))) := by
  unfold subtractSmall machineWordSubtractWithOverflow
  simp only [fits]
  rfl

theorem subtractSmall_exact (x y : SmallInteger bits) :
    Exact (subtractSmall x y) (x.value - y.value) := by
  have tagged : (interpretIntegerAsMachineWord x).toInt -
      (stripIntegerTag (interpretIntegerAsMachineWord y)).toInt =
        4 * (x.value - y.value) + 1 := by
    rw [toInt_interpret, toInt_strip]
    omega
  have xHolds := x.holds
  have yHolds := y.holds
  have representable : Representable bits (x.value - y.value) := by
    apply representable_of_small
    unfold Holds at xHolds yHolds ⊢
    rw [pow_add]
    omega
  refine ⟨fun _ => ?_, fun beyond => absurd representable beyond⟩
  cases overflow : BitVec.ssubOverflow (interpretIntegerAsMachineWord x)
      (stripIntegerTag (interpretIntegerAsMachineWord y)) with
  | false =>
      refine ⟨_, subtractSmall_narrow overflow, ?_, trivial⟩
      show BitVec.toInt _ / 4 = _
      rw [toInt_sub ((ssubOverflow_iff _ _).1 overflow), tagged]
      omega
  | true =>
      obtain ⟨low, high, returns, valueEq⟩ := subtractSmall_wide overflow
      refine ⟨.double low high, returns, valueEq, ?_⟩
      show ¬Holds bits _
      rw [valueEq]
      intro holds
      have fits := (Holds.wider holds).2
      rw [← tagged, ← ssubOverflow_iff, overflow] at fits
      cases fits

/-- Two tagged integers have no high words that could overflow. -/
theorem not_tooLate_small (x y : SmallInteger bits) :
    ¬CarryTooLate (.small x) (.small y) ∧
      ¬BorrowTooLate (.small x) (.small y) := by
  have signs := holds_signs (coerceIntegerToMachineWord x)
    (coerceIntegerToMachineWord y) 0 (by decide) (by decide)
  have sum := signs.1
  have difference := signs.2.2.1
  unfold Holds at sum difference
  constructor
  · rintro ⟨late, -⟩
    change (signWord (coerceIntegerToMachineWord x)).toInt +
      (signWord (coerceIntegerToMachineWord y)).toInt = _ at late
    omega
  · rintro ⟨late, -⟩
    change (signWord (coerceIntegerToMachineWord x)).toInt -
      (signWord (coerceIntegerToMachineWord y)).toInt = _ at late
    omega

/-! ## All operands -/

/-- Unless both operands are tagged integers, their words are added. -/
theorem add_eq_addDouble {x y : Integer bits}
    (notSmall : ∀ a b, ¬(x = .small a ∧ y = .small b)) :
    add x y = addDouble x.words y.words ∧
      subtract x y = subtractDouble x.words y.words := by
  cases x with
  | small a =>
      cases y with
      | small b => exact absurd ⟨rfl, rfl⟩ (notSmall a b)
      | double low high => exact ⟨rfl, rfl⟩
  | double low high => exact ⟨rfl, rfl⟩

/-- Additions and subtractions of all operands are exact but for those where
the high words overflow before the carry or the borrow is counted. -/
theorem double_integer_exact_iff (x y : Integer bits) :
    (Exact (add x y) (x.value + y.value) ↔ ¬CarryTooLate x y) ∧
      (Exact (subtract x y) (x.value - y.value) ↔ ¬BorrowTooLate x y) := by
  by_cases small : ∃ a b, x = .small a ∧ y = .small b
  · obtain ⟨a, b, isX, isY⟩ := small
    rw [isX, isY]
    have notLate := not_tooLate_small a b
    exact ⟨⟨fun _ => notLate.1, fun _ => addSmall_exact a b⟩,
      ⟨fun _ => notLate.2, fun _ => subtractSmall_exact a b⟩⟩
  · have words := @add_eq_addDouble bits x y fun a b both =>
      small ⟨a, b, both⟩
    have sum := addDouble_exact_iff x.words y.words
    have difference := subtractDouble_exact_iff x.words y.words
    rw [value_words, value_words] at sum difference
    rw [words.1, words.2]
    exact ⟨sum, difference⟩

/-- The least double integer plus one, in words of 64 bits. -/
def leastPlusOne : Integer 61 :=
  .double 1 (BitVec.ofInt 64 (-2 ^ 63))

/-- Minus one. -/
def minusOne : Integer 61 := .small ⟨-1, by decide⟩

/-- Adding minus one overflows, although the sum is the least integer. -/
theorem not_exact : ¬∀ x y : Integer 61,
    Exact (add x y) (x.value + y.value) ∧
      Exact (subtract x y) (x.value - y.value) := by
  intro all
  have exact := (all leastPlusOne minusOne).1
  have within : Representable 61 (leastPlusOne.value + minusOne.value) := by
    unfold Representable
    decide
  obtain ⟨result, returns, -⟩ := exact.within within
  have fails : add leastPlusOne minusOne = .error .arithmeticOverflow := by
    decide
  rw [fails] at returns
  cases returns

end OpenDylan.Numbers
