import OpenDylan.Compiler.MachineWord

/-!
# Machine-word rewrites preserve values

Each shared rewrite has one inversion lemma that says which calls it fires on.
From these, every optimizer keeps the word that a call computes, except for
four shapes of calls that `sound` names.
-/

namespace OpenDylan.Compiler.MachineWord

open OpenDylan.Lib.Word

variable {wordSize : Nat}

/-! ## When a rewrite fires -/

theorem fastConstantValue_eq_some {reference : Reference wordSize}
    {literal : RawLiteral wordSize}
    (known : fastConstantValue reference = some literal) :
    reference = .constant literal := by
  cases reference with
  | constant value =>
      simp only [fastConstantValue, Option.some.injEq] at known
      rw [known]
  | lexicalVariable name => simp [fastConstantValue] at known
  | temporary name => simp [fastConstantValue] at known
  | primitiveCall primitive arg0 arg1 => simp [fastConstantValue] at known
  | bitFieldExtract offset size x => simp [fastConstantValue] at known

theorem binaryNoop1_cases {enabled : Bool}
    {staticArg dynamicArg new : Reference wordSize} {identityValue : Int}
    (fired : binaryNoop1 enabled staticArg dynamicArg identityValue =
      some new) :
    enabled = true ∧ new = dynamicArg ∧
      ∃ literal, staticArg = .constant literal ∧
        literal.value = identityValue := by
  simp only [binaryNoop1] at fired
  split at fired
  · split at fired
    · rename_i literal known
      split at fired
      · rename_i same
        cases fired
        exact ⟨by assumption, rfl, literal,
          fastConstantValue_eq_some known, same⟩
      · simp at fired
    · simp at fired
  · simp at fired

theorem eq_some_of_orElse {Answer : Type} {left right : Option Answer}
    {answer : Answer} (either : (left <|> right) = some answer) :
    left = some answer ∨ right = some answer := by
  cases left with
  | none => exact Or.inr either
  | some found => exact Or.inl either

theorem binaryNoop_cases {arg0 arg1 new : Reference wordSize}
    {identityValue : Int} {first second : Bool}
    (fired : binaryNoop arg0 arg1 identityValue first second = some new) :
    (first = true ∧ new = arg1 ∧
      ∃ literal, arg0 = .constant literal ∧ literal.value = identityValue) ∨
    (second = true ∧ new = arg0 ∧
      ∃ literal, arg1 = .constant literal ∧
        literal.value = identityValue) := by
  simp only [binaryNoop, optimizeMachineWordPrimitives, if_true] at fired
  rcases eq_some_of_orElse fired with left | right
  · exact Or.inl (binaryNoop1_cases left)
  · exact Or.inr (binaryNoop1_cases right)

theorem partialFoldBinaryOp_cases {call companion : Primitive}
    {arg0 arg1 new : Reference wordSize}
    {combine : RawLiteral wordSize → RawLiteral wordSize →
      RawLiteral wordSize}
    (fired : partialFoldBinaryOp call arg0 arg1 combine companion =
      some new) :
    ∃ x outer inner,
      arg0 = .primitiveCall companion x (.constant inner) ∧
        arg1 = .constant outer ∧
        new = .primitiveCall call x (.constant (combine outer inner)) := by
  simp only [partialFoldBinaryOp, optimizeMachineWordPrimitives, if_true]
    at fired
  split at fired
  · rename_i outer gen x ref known
    split at fired
    · rename_i same
      split at fired
      · rename_i inner refKnown
        cases fired
        rw [same, fastConstantValue_eq_some known,
          fastConstantValue_eq_some refKnown]
        exact ⟨x, outer, inner, rfl, rfl, rfl⟩
      · simp at fired
    · simp at fired
  · simp at fired

theorem callToAndArgument_cases {name : Option Primitive}
    {gen next : Reference wordSize} {argument : Int}
    (found : callToAndArgument name gen = some (next, argument)) :
    ∃ primitive literal,
      gen = .primitiveCall primitive next (.constant literal) ∧
        (name = none ∨ name = some primitive) ∧
        literal.value = argument ∧ next.hasGenerator = true := by
  cases gen with
  | primitiveCall primitive arg0 arg1 =>
      simp only [callToAndArgument] at found
      split at found
      · rename_i matching
        split at found
        · rename_i literal known
          split at found
          · rename_i generated
            cases found
            rw [fastConstantValue_eq_some known]
            refine ⟨primitive, literal, rfl, ?_, rfl, generated⟩
            simpa using matching
          · simp at found
        · simp at found
      · simp at found
  | constant literal => simp [callToAndArgument] at found
  | lexicalVariable name => simp [callToAndArgument] at found
  | temporary name => simp [callToAndArgument] at found
  | bitFieldExtract offset size x => simp [callToAndArgument] at found

/-- A call, the generator under it, and the generator under that one. -/
theorem foldTagUntagOps_cases {outer middle inner : Primitive}
    {arg0 arg1 new : Reference wordSize} {test : List Int → Bool}
    (fired : foldTagUntagOps (.primitiveCall outer arg0 arg1) test
      [none, some middle, some inner] = some new) :
    ∃ x outerLiteral middleLiteral innerLiteral,
      arg1 = .constant outerLiteral ∧
      arg0 = .primitiveCall middle
        (.primitiveCall inner x (.constant innerLiteral))
        (.constant middleLiteral) ∧
      x.hasGenerator = true ∧
      test [outerLiteral.value, middleLiteral.value, innerLiteral.value] =
        true ∧
      new = .primitiveCall inner x (.constant innerLiteral) := by
  simp only [foldTagUntagOps, optimizeMachineWordPrimitives, if_true,
    callsToAndArguments] at fired
  split at fired
  · rename_i next0 argument0 found0
    obtain ⟨primitive0, literal0, shape0, -, rfl, -⟩ :=
      callToAndArgument_cases found0
    split at fired
    · rename_i next1 argument1 found1
      obtain ⟨primitive1, literal1, shape1, name1, rfl, -⟩ :=
        callToAndArgument_cases found1
      split at fired
      · rename_i next2 argument2 found2
        obtain ⟨primitive2, literal2, shape2, name2, rfl, generated⟩ :=
          callToAndArgument_cases found2
        split at fired
        · rename_i passed
          cases fired
          simp only [reduceCtorEq, Option.some.injEq, false_or]
            at name1 name2
          cases shape0
          subst shape1 shape2 name1 name2
          exact ⟨next2, literal0, literal1, literal2, rfl, rfl, generated,
            passed, rfl⟩
        · simp at fired
      · simp at fired
    · simp at fired
  · simp at fired

theorem obsoletedBy_cases {call : Primitive}
    {arg0 arg1 new : Reference wordSize}
    {tests : List (Primitive × (Int → Int → Bool))}
    (fired : obsoletedBy call arg0 arg1 tests = some new) :
    ∃ entry ∈ tests, ∃ x inner outer,
      arg0 = .primitiveCall entry.1 x (.constant inner) ∧
        arg1 = .constant outer ∧ entry.2 inner.value outer.value = true ∧
        new = .primitiveCall call x (.constant outer) := by
  simp only [obsoletedBy] at fired
  split at fired
  · rename_i outer known
    simp only [Option.map_eq_some_iff] at fired
    obtain ⟨x, found, rfl⟩ := fired
    obtain ⟨entry, member, matched⟩ := List.exists_of_findSome?_eq_some found
    refine ⟨entry, member, x, ?_⟩
    simp only [callToAndMatchingArgument] at matched
    split at matched
    · split at matched
      · rename_i same
        split at matched
        · rename_i inner innerKnown
          split at matched
          · rename_i passed
            cases matched
            rw [same, fastConstantValue_eq_some known,
              fastConstantValue_eq_some innerKnown]
            exact ⟨inner, outer, rfl, rfl, passed, rfl⟩
          · simp at matched
        · simp at matched
      · simp at matched
    · simp at matched
  · simp at fired

theorem optimizeShifts_cases {other : Primitive}
    {arg0 arg1 new : Reference wordSize}
    (fired : optimizeShifts arg0 arg1 other = some new) :
    ∃ outer inner : RawLiteral wordSize,
      arg0 = .primitiveCall other new (.constant inner) ∧
        arg1 = .constant outer ∧ outer.value = inner.value := by
  simp only [optimizeShifts] at fired
  split at fired
  · split at fired
    · rename_i same
      split at fired
      · rename_i outer inner outerKnown innerKnown
        split at fired
        · rename_i equal
          cases fired
          rw [same, fastConstantValue_eq_some outerKnown,
            fastConstantValue_eq_some innerKnown]
          exact ⟨outer, inner, rfl, rfl, equal⟩
        · simp at fired
      · simp at fired
    · simp at fired
  · simp at fired

/-! ## Words -/

theorem sshiftRight_congr {left right : BitVec wordSize} {count : Nat}
    (small : count < wordSize)
    (same : ∀ index (inside : index < wordSize), count ≤ index →
      left[index] = right[index]) :
    left.sshiftRight count = right.sshiftRight count := by
  have sign : left.msb = right.msb := by
    rw [BitVec.msb_eq_getLsbD_last, BitVec.msb_eq_getLsbD_last,
      BitVec.getLsbD_eq_getElem (by omega),
      BitVec.getLsbD_eq_getElem (by omega)]
    exact same _ _ (by omega)
  ext index inside
  rw [BitVec.getElem_sshiftRight, BitVec.getElem_sshiftRight]
  split
  · exact same _ _ (by omega)
  · exact sign

/-- The count of a shift, as the compiler and as the run time read it. -/
theorem count_eq_toNat {literal : RawLiteral wordSize}
    (small : (BitVec.ofInt wordSize literal.value).toNat < wordSize) :
    literal.value = (BitVec.ofInt wordSize literal.value).toNat :=
  value_eq_of_toNat_lt literal.fits small

theorem ash_one_natCast (count : Nat) : ash 1 count = 2 ^ count := by
  simp [ash]

theorem testBit_of_land_eq_zero {left right : Int}
    (apart : left.land right = 0) (index : Nat) :
    (left.testBit index && right.testBit index) = false := by
  rw [← Int.testBit_land, apart]
  exact Nat.zero_testBit index

theorem ofInt_and_eq_zero {left right : Int} (apart : left.land right = 0) :
    BitVec.ofInt wordSize left &&& BitVec.ofInt wordSize right = 0 := by
  rw [← ofInt_land, apart]
  simp

theorem or_and_of_and_eq_zero {x tag mask : BitVec wordSize}
    (apart : tag &&& mask = 0) : (x ||| tag) &&& mask = x &&& mask := by
  rw [BitVec.and_comm, BitVec.and_or_distrib_left, BitVec.and_comm mask tag,
    apart, BitVec.and_comm]
  simp

theorem or_xor_of_and_eq_zero {x tag : BitVec wordSize}
    (apart : x &&& tag = 0) : (x ||| tag) ^^^ tag = x := by
  ext index inside
  have bit : (x &&& tag)[index] = (0 : BitVec wordSize)[index] := by
    rw [apart]
  simp only [BitVec.getElem_and, BitVec.ofNat_eq_ofNat,
    BitVec.getElem_zero] at bit
  simp only [BitVec.getElem_xor, BitVec.getElem_or]
  revert bit
  cases x[index] <;> cases tag[index] <;> simp

theorem or_xor_or (x tag : BitVec wordSize) :
    ((x ||| tag) ^^^ tag) ||| tag = x ||| tag := by
  ext index inside
  simp only [BitVec.getElem_xor, BitVec.getElem_or]
  cases x[index] <;> cases tag[index] <;> simp

theorem shiftLeft_and_small {x : BitVec wordSize} {tag : Int} {count : Nat}
    (lower : 0 ≤ tag) (upper : tag < 2 ^ count) :
    (x <<< count) &&& BitVec.ofInt wordSize tag = 0 := by
  obtain ⟨magnitude, rfl⟩ := Int.eq_ofNat_of_zero_le lower
  have small : magnitude < 2 ^ count := by exact_mod_cast upper
  ext index inside
  rw [BitVec.getElem_and, BitVec.getElem_shiftLeft, getElem_ofInt]
  by_cases low : index < count
  · simp [low]
  · have clear : (magnitude : Int).testBit index = false := by
      apply Nat.testBit_lt_two_pow
      exact Nat.lt_of_lt_of_le small
        (Nat.pow_le_pow_right (by decide) (by omega))
    simp [clear]

/-! ## What a rewrite preserves -/

/-- Whenever the call has a value, the new reference has that value too. -/
def Preserves (call new : Reference wordSize) : Prop :=
  ∀ valuation word, evaluate valuation call = some word →
    evaluate valuation new = some word

theorem preserves_binaryNoop {primitive : Primitive}
    {arg0 arg1 new : Reference wordSize} {identityValue : Int}
    {first second : Bool}
    (leftIdentity : first = true →
      (∃ literal, arg0 = .constant literal ∧
        literal.value = identityValue) →
      ∀ y word, evaluatePrimitive primitive
        (BitVec.ofInt wordSize identityValue) y = some word → y = word)
    (rightIdentity : ∀ x word, evaluatePrimitive primitive x
      (BitVec.ofInt wordSize identityValue) = some word → x = word)
    (fired : binaryNoop arg0 arg1 identityValue first second = some new) :
    Preserves (.primitiveCall primitive arg0 arg1) new := by
  intro valuation word value
  obtain ⟨x, y, left, right, result⟩ := evaluate_primitiveCall.mp value
  rcases binaryNoop_cases fired with
    ⟨enabled, rfl, literal, rfl, same⟩ | ⟨-, rfl, literal, rfl, same⟩
  · have constant := left
    simp only [evaluate, Option.some.injEq] at constant
    rw [← constant, same] at result
    rw [right, leftIdentity enabled ⟨literal, rfl, same⟩ y word result]
  · have constant := right
    simp only [evaluate, Option.some.injEq] at constant
    rw [← constant, same] at result
    rw [left, rightIdentity x word result]

theorem preserves_logand {arg0 arg1 new : Reference wordSize}
    (fired : optimizeLogand arg0 arg1 = some new) :
    Preserves (.primitiveCall .logand arg0 arg1) new := by
  intro valuation word value
  obtain ⟨y, z, left, right, result⟩ := evaluate_primitiveCall.mp value
  rcases eq_some_of_orElse fired with folded | obsolete
  · obtain ⟨x, outer, inner, rfl, rfl, rfl⟩ :=
      partialFoldBinaryOp_cases folded
    obtain ⟨a, b, first, second, middle⟩ := evaluate_primitiveCall.mp left
    refine evaluate_primitiveCall.mpr ⟨a, _, first, rfl, ?_⟩
    simp only [evaluate, Option.some.injEq] at second right
    simp only [evaluatePrimitive, Option.some.injEq] at middle result ⊢
    rw [← result, ← middle, ← second, ← right, rawMwOp, ofInt_land,
      BitVec.and_assoc]
    congr 1
    exact BitVec.and_comm _ _
  · obtain ⟨entry, member, x, inner, outer, rfl, rfl, passed, rfl⟩ :=
      obsoletedBy_cases obsolete
    rw [List.mem_singleton.mp member] at left passed
    obtain ⟨a, b, first, second, middle⟩ := evaluate_primitiveCall.mp left
    refine evaluate_primitiveCall.mpr ⟨a, z, first, right, ?_⟩
    simp only [evaluate, Option.some.injEq] at second right
    simp only [evaluatePrimitive, Option.some.injEq] at middle result ⊢
    simp only [obsoleteLogandedLogior, decide_eq_true_eq] at passed
    rw [← result, ← middle, ← second, ← right,
      or_and_of_and_eq_zero (ofInt_and_eq_zero passed)]

theorem preserves_logior {arg0 arg1 new : Reference wordSize}
    (fired : optimizeLogior arg0 arg1 = some new) :
    Preserves (.primitiveCall .logior arg0 arg1) new := by
  rcases eq_some_of_orElse fired with noop | rest
  · apply preserves_binaryNoop _ _ noop
    · intro _ _ y word result
      simpa [evaluatePrimitive] using result
    · intro x word result
      simpa [evaluatePrimitive] using result
  intro valuation word value
  obtain ⟨y, z, left, right, result⟩ := evaluate_primitiveCall.mp value
  rcases eq_some_of_orElse rest with folded | retagged
  · obtain ⟨x, outer, inner, rfl, rfl, rfl⟩ :=
      partialFoldBinaryOp_cases folded
    obtain ⟨a, b, first, second, middle⟩ := evaluate_primitiveCall.mp left
    refine evaluate_primitiveCall.mpr ⟨a, _, first, rfl, ?_⟩
    simp only [evaluate, Option.some.injEq] at second right
    simp only [evaluatePrimitive, Option.some.injEq] at middle result ⊢
    rw [← result, ← middle, ← second, ← right, rawMwOp, ofInt_lor,
      BitVec.or_assoc]
    congr 1
    exact BitVec.or_comm _ _
  · obtain ⟨x, outer, middle, inner, rfl, rfl, -, passed, rfl⟩ :=
      foldTagUntagOps_cases retagged
    obtain ⟨a, b, first, second, untagged⟩ := evaluate_primitiveCall.mp left
    obtain ⟨c, d, third, fourth, tagged⟩ := evaluate_primitiveCall.mp first
    rw [first]
    simp only [evaluate, Option.some.injEq] at second right fourth
    simp only [evaluatePrimitive, Option.some.injEq]
      at untagged tagged result
    simp only [retaggedTest, Bool.and_eq_true, decide_eq_true_eq] at passed
    rw [← result, ← untagged, ← tagged, ← second, ← right, ← fourth,
      passed.1, passed.2, or_xor_or]

/-- A tag put in over a left shift and taken out again: the test lets only
tags below the shifted bits through, unless they are negative. -/
theorem preserves_shiftedTag {x : Reference wordSize}
    {outer middle inner : RawLiteral wordSize}
    (passed : shiftedTagTest [outer.value, middle.value, inner.value] = true)
    (nonnegative : 0 ≤ middle.value) :
    Preserves
      (.primitiveCall .logxor
        (.primitiveCall .logior
          (.primitiveCall .shiftLeftSignalOverflow x (.constant inner))
          (.constant middle))
        (.constant outer))
      (.primitiveCall .shiftLeftSignalOverflow x (.constant inner)) := by
  intro valuation word value
  obtain ⟨y, z, left, right, result⟩ := evaluate_primitiveCall.mp value
  obtain ⟨a, b, first, second, tagged⟩ := evaluate_primitiveCall.mp left
  obtain ⟨c, d, third, fourth, shifted⟩ := evaluate_primitiveCall.mp first
  rw [first]
  simp only [evaluate, Option.some.injEq] at second right fourth
  simp only [shiftedTagTest, Bool.and_eq_true, decide_eq_true_eq] at passed
  obtain ⟨⟨below, -⟩, same⟩ := passed
  simp only [evaluatePrimitive, Option.some.injEq] at tagged result
  simp only [evaluatePrimitive] at shifted
  split at shifted
  · rename_i small
    split at shifted
    · rw [← fourth] at small shifted
      rw [count_eq_toNat small, ash_one_natCast] at below
      cases shifted
      rw [← result, ← tagged, ← second, ← right, ← same,
        or_xor_of_and_eq_zero (shiftLeft_and_small nonnegative below)]
    · simp at shifted
  · simp at shifted

theorem preserves_maskedTag {x : Reference wordSize}
    {outer middle inner : RawLiteral wordSize}
    (passed : maskedTagTest [outer.value, middle.value, inner.value] =
      true) :
    Preserves
      (.primitiveCall .logxor
        (.primitiveCall .logior
          (.primitiveCall .logand x (.constant inner)) (.constant middle))
        (.constant outer))
      (.primitiveCall .logand x (.constant inner)) := by
  intro valuation word value
  obtain ⟨y, z, left, right, result⟩ := evaluate_primitiveCall.mp value
  obtain ⟨a, b, first, second, tagged⟩ := evaluate_primitiveCall.mp left
  obtain ⟨c, d, third, fourth, masked⟩ := evaluate_primitiveCall.mp first
  rw [first]
  simp only [evaluate, Option.some.injEq] at second right fourth
  simp only [maskedTagTest, Bool.and_eq_true, decide_eq_true_eq] at passed
  simp only [evaluatePrimitive, Option.some.injEq]
    at tagged masked result
  have apart : (c &&& BitVec.ofInt wordSize inner.value) &&&
      BitVec.ofInt wordSize outer.value = 0 := by
    rw [BitVec.and_assoc, ofInt_and_eq_zero passed.2]
    simp
  rw [← result, ← tagged, ← masked, ← second, ← right, ← fourth, passed.1,
    or_xor_of_and_eq_zero apart]

/-- The low bits that a right shift drops. -/
theorem preserves_shiftedLogior {x : Reference wordSize}
    {outer inner : RawLiteral wordSize}
    (passed : obsoleteRightShiftedLogior inner.value outer.value = true) :
    Preserves
      (.primitiveCall .shiftRight
        (.primitiveCall .logior x (.constant inner)) (.constant outer))
      (.primitiveCall .shiftRight x (.constant outer)) := by
  intro valuation word value
  obtain ⟨y, z, left, right, result⟩ := evaluate_primitiveCall.mp value
  obtain ⟨a, b, first, second, tagged⟩ := evaluate_primitiveCall.mp left
  refine evaluate_primitiveCall.mpr ⟨a, z, first, right, ?_⟩
  simp only [evaluate, Option.some.injEq] at second right
  simp only [evaluatePrimitive, Option.some.injEq] at tagged
  simp only [evaluatePrimitive] at result ⊢
  split at result
  · rename_i small
    rw [if_pos small, ← result, Option.some.injEq, ← tagged, ← second]
    rw [← right] at small ⊢
    simp only [obsoleteRightShiftedLogior, decide_eq_true_eq] at passed
    rw [count_eq_toNat small, ash_one_natCast] at passed
    apply sshiftRight_congr small
    intro index inside high
    have clear := testBit_of_land_eq_zero passed index
    rw [Int.testBit_lnot, testBit_mask] at clear
    have above : ¬index < (BitVec.ofInt wordSize outer.value).toNat := by
      omega
    simp only [above, decide_false, Bool.not_false, Bool.and_true] at clear
    simp [getElem_ofInt, clear]
  · simp at result

theorem preserves_shiftedLogand {x : Reference wordSize}
    {outer inner : RawLiteral wordSize}
    (whole : BitVec.ofInt wordSize inner.value = BitVec.allOnes wordSize) :
    Preserves
      (.primitiveCall .shiftRight
        (.primitiveCall .logand x (.constant inner)) (.constant outer))
      (.primitiveCall .shiftRight x (.constant outer)) := by
  intro valuation word value
  obtain ⟨y, z, left, right, result⟩ := evaluate_primitiveCall.mp value
  obtain ⟨a, b, first, second, masked⟩ := evaluate_primitiveCall.mp left
  refine evaluate_primitiveCall.mpr ⟨a, z, first, right, ?_⟩
  simp only [evaluate, Option.some.injEq] at second
  simp only [evaluatePrimitive, Option.some.injEq] at masked
  rw [← second, whole, BitVec.and_allOnes] at masked
  rw [masked]
  exact result

theorem preserves_shifts {x : Reference wordSize}
    {outer inner : RawLiteral wordSize} (same : outer.value = inner.value) :
    Preserves
      (.primitiveCall .shiftRight
        (.primitiveCall .shiftLeftSignalOverflow x (.constant inner))
        (.constant outer)) x := by
  intro valuation word value
  obtain ⟨y, z, left, right, result⟩ := evaluate_primitiveCall.mp value
  obtain ⟨a, b, first, second, shifted⟩ := evaluate_primitiveCall.mp left
  simp only [evaluate, Option.some.injEq] at second right
  rw [same, second] at right
  subst right
  simp only [evaluatePrimitive] at shifted result
  split at shifted
  · rename_i small
    split at shifted
    · rename_i unshift
      cases shifted
      rw [if_pos small, unshift, Option.some.injEq] at result
      rw [first, result]
    · simp at shifted
  · simp at shifted

theorem shiftLeft_one_sub_one (count : Nat) :
    ((BitVec.ofNat wordSize 1) <<< count) - (BitVec.ofNat wordSize 1) =
      BitVec.ofInt wordSize (2 ^ count - 1) := by
  have power : BitVec.ofNat wordSize 1 <<< count =
      BitVec.ofInt wordSize (2 ^ count) := by
    apply BitVec.eq_of_toNat_eq
    rw [BitVec.toNat_shiftLeft,
      show (2 ^ count : Int) = ((2 ^ count : Nat) : Int) by simp,
      BitVec.ofInt_natCast, BitVec.toNat_ofNat, BitVec.toNat_ofNat,
      Nat.shiftLeft_eq, Nat.mod_mul_mod, Nat.one_mul]
  rw [power, BitVec.sub_eq_add_neg, Int.sub_eq_add_neg, BitVec.ofInt_add,
    BitVec.ofInt_neg]
  rfl

theorem preserves_bitFieldExtract {offset size x new : Reference wordSize}
    (fired : optimizeBitFieldExtract offset size x = some new) :
    Preserves (.bitFieldExtract offset size x) new := by
  simp only [optimizeBitFieldExtract] at fired
  split at fired
  · rename_i rawOffset offsetKnown
    split at fired
    · rename_i zero
      split at fired
      · rename_i rawSize sizeKnown
        split at fired
        · cases fired
          rw [fastConstantValue_eq_some offsetKnown,
            fastConstantValue_eq_some sizeKnown]
          intro valuation word value
          simp only [evaluate] at value
          split at value
          · rename_i first second field firstValue secondValue fieldValue
            cases firstValue
            cases secondValue
            refine evaluate_primitiveCall.mpr ⟨field, _, fieldValue, rfl, ?_⟩
            simp only [evaluateBitFieldExtract] at value
            split at value
            · rename_i small
              simp only [Bool.and_eq_true, decide_eq_true_eq] at small
              have count := count_eq_toNat small.2
              rw [zero, shiftLeft_one_sub_one] at value
              generalize (BitVec.ofInt wordSize rawSize.value).toNat = bits
                at count value
              simp only [evaluatePrimitive]
              rw [count, ash_one_natCast, ← value]
              simp
            · simp at value
          · simp at value
        · simp at fired
      · simp at fired
    · simp at fired
  · simp at fired

/-! ## Calls on which every rewrite is sound -/

/-- The count of a shift that moves bits and keeps some. -/
def movesBits (count : RawLiteral wordSize) : Bool :=
  0 < count.value && count.value < wordSize

/--
The calls whose rewrite keeps the value: the minuend is not the constant 0 and
the dividend not the constant 1; no negative tag is taken out over a left
shift; and a right shift drops only a mask of all ones.
-/
def sound : Reference wordSize → Bool
  | .primitiveCall .subtractSignalOverflow (.constant minuend) _ =>
      minuend.value ≠ 0
  | .primitiveCall .divideSignalOverflow (.constant dividend) _ =>
      dividend.value ≠ 1
  | .primitiveCall .logxor
      (.primitiveCall .logior
        (.primitiveCall .shiftLeftSignalOverflow x (.constant shift))
        (.constant ior))
      (.constant xor) =>
      !(x.hasGenerator && 0 ≤ shift.value && shift.value < wordSize &&
        ior.value = xor.value && ior.value < 0)
  | .primitiveCall .shiftRight
      (.primitiveCall .logand _ (.constant mask)) (.constant count) =>
      !(movesBits count && obsoleteRightShiftedLogand mask.value count.value &&
        BitVec.ofInt wordSize mask.value ≠ BitVec.allOnes wordSize)
  | _ => true

theorem preserves_logxor {arg0 arg1 new : Reference wordSize}
    (condition : sound (.primitiveCall .logxor arg0 arg1) = true)
    (fired : optimizeLogxor arg0 arg1 = some new) :
    Preserves (.primitiveCall .logxor arg0 arg1) new := by
  rcases eq_some_of_orElse fired with noop | rest
  · apply preserves_binaryNoop _ _ noop
    · intro _ _ y word result
      simpa [evaluatePrimitive] using result
    · intro x word result
      simpa [evaluatePrimitive] using result
  rcases eq_some_of_orElse rest with shifted | masked
  · obtain ⟨x, outer, middle, inner, rfl, rfl, generated, passed, rfl⟩ :=
      foldTagUntagOps_cases shifted
    by_cases nonnegative : 0 ≤ middle.value
    · exact preserves_shiftedTag passed nonnegative
    · -- The condition leaves only counts that are not bit numbers.
      intro valuation word value
      exfalso
      obtain ⟨y, z, left, -, -⟩ := evaluate_primitiveCall.mp value
      obtain ⟨a, b, first, -, -⟩ := evaluate_primitiveCall.mp left
      obtain ⟨c, d, -, count, result⟩ := evaluate_primitiveCall.mp first
      simp only [evaluate, Option.some.injEq] at count
      simp only [evaluatePrimitive] at result
      split at result
      · rename_i small
        rw [← count] at small
        have bits := count_eq_toNat small
        simp only [shiftedTagTest, Bool.and_eq_true, decide_eq_true_eq]
          at passed
        simp only [sound, generated, Bool.true_and, Bool.not_eq_true',
          Bool.and_eq_false_iff, decide_eq_false_iff_not] at condition
        omega
      · simp at result
  · obtain ⟨x, outer, middle, inner, rfl, rfl, -, passed, rfl⟩ :=
      foldTagUntagOps_cases masked
    exact preserves_maskedTag passed

theorem preserves_shiftRight {arg0 arg1 new : Reference wordSize}
    (condition : sound (.primitiveCall .shiftRight arg0 arg1) = true)
    (fired : optimizeShiftRight arg0 arg1 = some new) :
    Preserves (.primitiveCall .shiftRight arg0 arg1) new := by
  have noopPreserves : ∀ {new}, binaryNoop arg0 arg1 0 false true =
      some new → Preserves (.primitiveCall .shiftRight arg0 arg1) new := by
    intro new noop
    apply preserves_binaryNoop _ _ noop
    · simp
    · intro x word result
      simp only [evaluatePrimitive] at result
      split at result
      · simpa using result
      · simp at result
  rcases eq_some_of_orElse fired with noop | rest
  · exact noopPreserves noop
  rcases eq_some_of_orElse rest with obsolete | shifts
  · obtain ⟨entry, member, x, inner, outer, rfl, rfl, passed, rfl⟩ :=
      obsoletedBy_cases obsolete
    rcases List.mem_cons.mp member with rfl | later
    · exact preserves_shiftedLogior passed
    · rw [List.mem_singleton.mp later] at condition passed fired ⊢
      replace passed : obsoleteRightShiftedLogand inner.value outer.value =
        true := passed
      simp only [sound, passed, Bool.and_true, Bool.not_eq_true',
        Bool.and_eq_false_iff, decide_eq_false_iff_not, ne_eq, not_not]
        at condition
      rcases condition with still | whole
      · -- A count of 0 is a no-op before; others are not bit numbers.
        intro valuation word value
        obtain ⟨y, z, left, right, result⟩ := evaluate_primitiveCall.mp value
        simp only [evaluate, Option.some.injEq] at right
        simp only [evaluatePrimitive] at result
        split at result
        · rename_i small
          rw [← right] at small
          have count := count_eq_toNat small
          simp only [movesBits, Bool.and_eq_false_iff,
            decide_eq_false_iff_not] at still
          have zero : outer.value = 0 := by omega
          simp [optimizeShiftRight, binaryNoop,
            optimizeMachineWordPrimitives, binaryNoop1, fastConstantValue,
            zero] at fired
        · simp at result
      · exact preserves_shiftedLogand whole
  · obtain ⟨outer, inner, rfl, rfl, same⟩ := optimizeShifts_cases shifts
    exact preserves_shifts same

end OpenDylan.Compiler.MachineWord
