import OpenDylan.Numbers.DoubleIntegerArithmetic

/-!
# Products of double integers

The product of two tagged integers always fits into two words.  Otherwise the
words of the operands are multiplied without a sign, the product of the high
words is not even formed, and an overflow is noticed only by the sign of what
remains.
-/

namespace OpenDylan.Numbers

open OpenDylan.Lib OpenDylan.Lib.TwoWords

variable {bits : Nat}

/-! ## Machine words -/

/-- `machine-word-unsigned-multiply`: the low and the high word. -/
def machineWordUnsignedMultiply (x y : Word bits) : Word bits × Word bits :=
  (x * y, BitVec.ofNat (bits + 3) (x.toNat * y.toNat / 2 ^ (bits + 3)))

/-- `primitive-machine-word-multiply-low-with-overflow` -/
def multiplyLowWithOverflow (x y : Word bits) : Word bits × Bool :=
  (x * y, BitVec.smulOverflow x y)

/-- `primitive-machine-word-multiply-low/high`: of the operands as signed
words. -/
def multiplyLowHigh (x y : Word bits) : Word bits × Word bits :=
  (BitVec.ofInt (bits + 3) (x.toInt * y.toInt),
    BitVec.ofInt (bits + 3) (x.toInt * y.toInt / 2 ^ (bits + 3)))

/-! ## Multiplication -/

/-- `negative?` -/
def Integer.negative : Integer bits → Bool
  | .small x => x.value < 0
  | .double _ high => high.toInt < 0

/-- `*` on two `dylan/<integer>`s. -/
def multiplySmall (x y : SmallInteger bits) : Integer bits :=
  let mx := stripIntegerTag (interpretIntegerAsMachineWord x)
  let my := coerceIntegerToMachineWord y
  let (result, overflow) := multiplyLowWithOverflow mx my
  if overflow then
    let (low, high) := multiplyLowHigh (coerceIntegerToMachineWord x)
      (coerceIntegerToMachineWord y)
    .double low high
  else
    .small (interpretMachineWordAsInteger (insertIntegerTag result))

/-- `*` where an operand is a `<double-integer>`. -/
def multiplyDouble (x y : Integer bits) : Except Failure (Integer bits) := do
  let (xLow, xHigh) := x.words
  let (yLow, yHigh) := y.words
  let resultNegative := x.negative != y.negative
  let (low, xlylHigh) := machineWordUnsignedMultiply xLow yLow
  let (xlyhLow, _) := machineWordUnsignedMultiply xLow yHigh
  let (xhylLow, _) := machineWordUnsignedMultiply xHigh yLow
  let high := (machineWordUnsignedAddWithCarry xlyhLow xhylLow).1
  let high := (machineWordUnsignedAddWithCarry xlylHigh high).1
  let result ← interpretResultAsAbstractInteger low high
  if result.negative != resultNegative then .error .arithmeticOverflow
  else pure result

/-- `*` -/
def multiply : Integer bits → Integer bits → Except Failure (Integer bits)
  | .small x, .small y => .ok (multiplySmall x y)
  | x, y => multiplyDouble x y

/-! ## Signs -/

theorem Integer.negative_iff (x : Integer bits) :
    x.negative = decide (x.value < 0) := by
  cases x with
  | small x => rfl
  | double low high =>
      apply Bool.decide_congr
      exact (value_neg_iff low high).symm

/-- The last of the bits of two words. -/
def signBit (bits : Nat) (value : Int) : Int :=
  value / 2 ^ (bits + 2 + 1 + (bits + 2)) % 2

/-- Integers that two words can hold have their sign in the last bit. -/
theorem signBit_of_representable {value : Int}
    (holds : Representable bits value) :
    signBit bits value = if value < 0 then 1 else 0 := by
  have positive : (0 : Int) < 2 ^ (bits + 2 + 1 + (bits + 2)) := by
    positivity
  unfold Representable Holds at holds
  unfold signBit
  by_cases negative : value < 0
  · have quotient :
        value / 2 ^ (bits + 2 + 1 + (bits + 2)) = -1 := by
      rw [Int.ediv_eq_iff_of_pos positive]
      omega
    rw [if_pos negative, quotient]
    rfl
  · rw [if_neg negative, Int.ediv_eq_zero_of_lt (by omega) holds.2]
    rfl

/-- What two words cannot hold leaves the last of their bits as it is. -/
theorem signBit_wraps (value wraps : Int) :
    signBit bits
        (value + 2 ^ (bits + 2 + 1 + (bits + 2) + 1) * wraps) =
      signBit bits value := by
  have positive : (2 : Int) ^ (bits + 2 + 1 + (bits + 2)) ≠ 0 := by
    positivity
  unfold signBit
  rw [pow_succ _ (bits + 2 + 1 + (bits + 2)), mul_assoc,
    Int.add_mul_ediv_left _ _ positive]
  omega

/-! ## Tagged integers -/

theorem representable_mul_small (x y : SmallInteger bits) :
    Representable bits (x.value * y.value) :=
  (Holds.mul x.holds y.holds).mono (by omega)

/-- The product of tagged integers that is too large for one. -/
theorem multiplySmall_wide {x y : SmallInteger bits}
    (overflow : BitVec.smulOverflow
      (stripIntegerTag (interpretIntegerAsMachineWord x))
      (coerceIntegerToMachineWord y) = true) :
    ∃ low high, multiplySmall x y = .double low high ∧
      TwoWords.value low high = x.value * y.value := by
  refine ⟨_, _, ?_, value_ofInt (representable_mul_small x y)⟩
  unfold multiplySmall multiplyLowWithOverflow multiplyLowHigh
  simp only [overflow, if_true, toInt_coerce]

theorem multiplySmall_narrow {x y : SmallInteger bits}
    (fits : BitVec.smulOverflow
      (stripIntegerTag (interpretIntegerAsMachineWord x))
      (coerceIntegerToMachineWord y) = false) :
    multiplySmall x y = .small (interpretMachineWordAsInteger
      (insertIntegerTag
        (stripIntegerTag (interpretIntegerAsMachineWord x) *
          coerceIntegerToMachineWord y))) := by
  unfold multiplySmall multiplyLowWithOverflow
  simp only [fits]
  rfl

theorem multiplySmall_exact (x y : SmallInteger bits) :
    Exact (.ok (multiplySmall x y)) (x.value * y.value) := by
  have representable := representable_mul_small x y
  have product : (stripIntegerTag (interpretIntegerAsMachineWord x)).toInt *
      (coerceIntegerToMachineWord y).toInt = 4 * (x.value * y.value) := by
    rw [toInt_strip, toInt_coerce, mul_assoc]
  refine ⟨fun _ => ?_, fun beyond => absurd representable beyond⟩
  cases overflow : BitVec.smulOverflow
      (stripIntegerTag (interpretIntegerAsMachineWord x))
      (coerceIntegerToMachineWord y) with
  | false =>
      have holds := (smulOverflow_iff _ _).1 overflow
      have word := (toInt_mul holds).trans product
      have one : (integerTagValue : Word bits).toInt = 1 := toInt_one
      have tagged := holds
      rw [product] at tagged
      refine ⟨_, congrArg Except.ok (multiplySmall_narrow overflow), ?_,
        trivial⟩
      show BitVec.toInt (_ + integerTagValue) / 4 = _
      rw [toInt_add, word, one]
      · omega
      · rw [word, one]
        unfold Holds at tagged ⊢
        rw [pow_add] at tagged ⊢
        omega
  | true =>
      obtain ⟨low, high, returns, valueEq⟩ := multiplySmall_wide overflow
      refine ⟨_, congrArg Except.ok returns, valueEq, ?_⟩
      show ¬Holds bits _
      rw [valueEq]
      intro holds
      have fits : Holds (bits + 2) (4 * (x.value * y.value)) := by
        unfold Holds at holds ⊢
        rw [pow_add]
        omega
      rw [← product, ← smulOverflow_iff, overflow] at fits
      cases fits

/-! ## Words of both operands -/

/-- What remains of a product in two words, and the check of its sign. -/
theorem multiplyDouble_outcome (x y : Integer bits) :
    ∃ result : Integer bits, ∃ wraps : Int,
      result.value = x.value * y.value +
          2 ^ (bits + 2 + 1 + (bits + 2) + 1) * wraps ∧
        Representable bits result.value ∧ result.Canonical ∧
          multiplyDouble x y =
            if result.negative != (x.negative != y.negative) then
              .error .arithmeticOverflow
            else .ok result := by
  obtain ⟨wraps, valueEq⟩ :=
    exists_value_mul x.words.1 x.words.2 y.words.1 y.words.2
  obtain ⟨result, interpreted, resultEq, canonical⟩ :=
    interpretResult_spec (x.words.1 * y.words.1)
      (BitVec.ofNat (bits + 3)
          (x.words.1.toNat * y.words.1.toNat / 2 ^ (bits + 3)) +
        (x.words.1 * y.words.2 + x.words.2 * y.words.1))
  rw [value_words, value_words] at valueEq
  refine ⟨result, wraps, resultEq.trans valueEq, ?_, canonical, ?_⟩
  · rw [resultEq]
    exact value_holds _ _
  · show (interpretResultAsAbstractInteger (x.words.1 * y.words.1)
      (BitVec.ofNat (bits + 3)
          (x.words.1.toNat * y.words.1.toNat / 2 ^ (bits + 3)) +
        (x.words.1 * y.words.2 + x.words.2 * y.words.1)) >>= fun result =>
          if result.negative != (x.negative != y.negative) then
            .error .arithmeticOverflow
          else pure result) = _
    rw [interpreted]
    rfl

/-- The products that come out right: those of tagged integers, and those where
the last bit of two words is the sign of the product exactly if two words can
hold it.  Zero times a negative integer is not among them. -/
def ProductChecked (x y : Integer bits) : Prop :=
  (Representable bits (x.value * y.value) ∧
      ¬(x.value * y.value = 0 ∧ (x.value < 0 ∨ y.value < 0))) ∨
    (¬Representable bits (x.value * y.value) ∧
      signBit bits (x.value * y.value) =
        if x.value * y.value < 0 then 0 else 1)

/-- The sign that a product ought to have. -/
theorem mul_neg_iff_signs (left right : Int) :
    ¬((left < 0) ↔ (right < 0)) ↔
      left * right < 0 ∨ left * right = 0 ∧ (left < 0 ∨ right < 0) := by
  rcases lt_trichotomy left 0 with leftSign | leftSign | leftSign
  · rcases lt_trichotomy right 0 with rightSign | rightSign | rightSign
    · have product := mul_pos_of_neg_of_neg leftSign rightSign
      omega
    · rw [rightSign, mul_zero]
      omega
    · have product := mul_neg_of_neg_of_pos leftSign rightSign
      omega
  · rw [leftSign, zero_mul]
    omega
  · rcases lt_trichotomy right 0 with rightSign | rightSign | rightSign
    · have product := mul_neg_of_pos_of_neg leftSign rightSign
      omega
    · rw [rightSign, mul_zero]
      omega
    · have product := mul_pos leftSign rightSign
      omega

theorem bne_decide (first second third : Prop) [Decidable first]
    [Decidable second] [Decidable third] :
    (decide first != (decide second != decide third)) = true ↔
      ¬(first ↔ ¬(second ↔ third)) := by
  by_cases first <;> by_cases second <;> by_cases third <;> simp [*]

/-- Two integers that differ by what two words cannot hold are the same if two
words can hold them. -/
theorem eq_of_representable {left right wraps : Int}
    (leftHolds : Representable bits left)
    (rightHolds : Representable bits right)
    (differ : left = right + 2 ^ (bits + 2 + 1 + (bits + 2) + 1) * wraps) :
    left = right := by
  unfold Representable Holds at leftHolds rightHolds
  rw [pow_succ _ (bits + 2 + 1 + (bits + 2)), mul_assoc] at differ
  have positive : (0 : Int) < 2 ^ (bits + 2 + 1 + (bits + 2)) := by
    positivity
  have unwrapped : wraps = 0 := by
    by_contra wrapped
    rcases lt_or_gt_of_ne wrapped with below | above
    · have scaled := mul_le_mul_of_nonneg_left
        (show wraps ≤ -1 by omega) (le_of_lt positive)
      linarith
    · have scaled := mul_le_mul_of_nonneg_left
        (show 1 ≤ wraps by omega) (le_of_lt positive)
      linarith
  rw [differ, unwrapped, mul_zero, mul_zero, add_zero]

theorem multiplyDouble_exact_iff (x y : Integer bits) :
    Exact (multiplyDouble x y) (x.value * y.value) ↔ ProductChecked x y := by
  obtain ⟨result, wraps, valueEq, holds, canonical, outcome⟩ :=
    multiplyDouble_outcome x y
  have resultSign := signBit_of_representable holds
  rw [valueEq, signBit_wraps, ← valueEq] at resultSign
  have signs := mul_neg_iff_signs x.value y.value
  have check : (result.negative != (x.negative != y.negative)) = true ↔
      ¬(result.value < 0 ↔ ¬(x.value < 0 ↔ y.value < 0)) := by
    rw [Integer.negative_iff, Integer.negative_iff, Integer.negative_iff]
    exact bne_decide _ _ _
  rw [signs] at check
  rw [outcome]
  unfold ProductChecked
  by_cases within : Representable bits (x.value * y.value)
  · have same := eq_of_representable holds within valueEq
    rw [same] at check
    constructor
    · intro exact'
      obtain ⟨returned, returns, -⟩ := exact'.within within
      refine Or.inl ⟨within, fun zero => ?_⟩
      rw [if_pos (check.2 (by omega))] at returns
      cases returns
    · rintro (⟨-, notZero⟩ | ⟨beyond, -⟩)
      · refine ⟨fun _ => ?_, fun beyond => absurd within beyond⟩
        exact ⟨result, if_neg fun wrong => check.1 wrong (by omega), same,
          canonical⟩
      · exact absurd within beyond
  · have notZero : x.value * y.value ≠ 0 := by
      intro zero
      rw [zero] at within
      exact within (holds_zero _)
    constructor
    · intro exact'
      have fails := exact'.beyond within
      refine Or.inr ⟨within, ?_⟩
      split at fails
      · rename_i wrong
        have differ := check.1 wrong
        rw [resultSign]
        split <;> split <;> omega
      · cases fails
    · rintro (⟨within', -⟩ | ⟨-, noticed⟩)
      · exact absurd within' within
      · refine ⟨fun within' => absurd within' within, fun _ => ?_⟩
        rw [resultSign] at noticed
        refine if_pos (check.2 ?_)
        split at noticed <;> split at noticed <;> omega

/-! ## All operands -/

/-- Multiplications are exact for tagged integers, and otherwise for the
products that the check of the sign tells apart. -/
theorem multiply_exact_iff (x y : Integer bits) :
    Exact (multiply x y) (x.value * y.value) ↔
      (∃ a b, x = .small a ∧ y = .small b) ∨ ProductChecked x y := by
  by_cases small : ∃ a b, x = .small a ∧ y = .small b
  · obtain ⟨a, b, isX, isY⟩ := small
    rw [isX, isY]
    exact ⟨fun _ => Or.inl ⟨a, b, rfl, rfl⟩,
      fun _ => multiplySmall_exact a b⟩
  · have words : multiply x y = multiplyDouble x y := by
      cases x with
      | small a =>
          cases y with
          | small b => exact absurd ⟨a, b, rfl, rfl⟩ small
          | double low high => rfl
      | double low high => rfl
    rw [words, multiplyDouble_exact_iff]
    exact ⟨Or.inr, fun either => either.resolve_left small⟩

/-- Two to the power of the size of a word, in words of 64 bits. -/
def wordRange : Integer 61 := .double 0 1

/-- The square of the range of a word is returned as zero. -/
theorem not_multiply_exact : ¬∀ x y : Integer 61,
    x.Canonical → y.Canonical → Exact (multiply x y) (x.value * y.value) := by
  intro all
  have canonical : wordRange.Canonical := by
    show ¬Holds 61 _
    decide
  have exact' := all wordRange wordRange canonical canonical
  have beyond : ¬Representable 61 (wordRange.value * wordRange.value) := by
    unfold Representable
    decide
  have fails := exact'.beyond beyond
  have returns : multiply wordRange wordRange =
      .ok (.small ⟨0, by decide⟩) := by
    decide
  rw [returns] at fails
  cases fails

end OpenDylan.Numbers
