import OpenDylan.Compiler.MachineWordRewrites

/-!
# Rewriting graphs of machine-word calls

A rewrite replaces a call anywhere in a graph of calls, and rewrites follow
one another.  Runs of rewrites on sound calls keep the value of the graph, and
on calls whose remaining operand may be any word no other rewrite does.
-/

namespace OpenDylan.Compiler.MachineWord

open OpenDylan.Lib.Word

variable {wordSize : Nat}

/-! ## One rewrite -/

theorem optimize_preserves {call new : Reference wordSize}
    (condition : sound call = true) (fired : optimize call = some new) :
    Preserves call new := by
  cases call with
  | constant literal => simp [optimize] at fired
  | lexicalVariable name => simp [optimize] at fired
  | temporary name => simp [optimize] at fired
  | bitFieldExtract offset size x => exact preserves_bitFieldExtract fired
  | primitiveCall primitive arg0 arg1 =>
      cases primitive with
      | logand => exact preserves_logand fired
      | logior => exact preserves_logior fired
      | logxor => exact preserves_logxor condition fired
      | addSignalOverflow =>
          apply preserves_binaryNoop _ _ fired
          · intro _ _ y word result
            simpa [evaluatePrimitive] using
              (Option.ite_none_left_eq_some.mp result).2
          · intro x word result
            simpa [evaluatePrimitive] using
              (Option.ite_none_left_eq_some.mp result).2
      | subtractSignalOverflow =>
          apply preserves_binaryNoop _ _ fired
          · rintro - ⟨literal, rfl, zero⟩
            simp [sound, zero] at condition
          · intro x word result
            simpa [evaluatePrimitive] using
              (Option.ite_none_left_eq_some.mp result).2
      | multiplySignalOverflow =>
          apply preserves_binaryNoop _ _ fired
          · intro _ _ y word result
            simpa [evaluatePrimitive] using
              (Option.ite_none_left_eq_some.mp result).2
          · intro x word result
            simpa [evaluatePrimitive] using
              (Option.ite_none_left_eq_some.mp result).2
      | divideSignalOverflow =>
          apply preserves_binaryNoop _ _ fired
          · rintro - ⟨literal, rfl, one⟩
            simp [sound, one] at condition
          · intro x word result
            simpa [evaluatePrimitive] using
              (Option.ite_none_left_eq_some.mp result).2
      | shiftLeftSignalOverflow =>
          apply preserves_binaryNoop _ _ fired
          · simp
          · intro x word result
            simp only [evaluatePrimitive] at result
            split at result
            · split at result
              · simpa using result
              · simp at result
            · simp at result
      | shiftRight => exact preserves_shiftRight condition fired

/-! ## Runs of rewrites -/

/-- A graph becomes another by sound rewrites of calls inside it. -/
inductive Rewrites : Reference wordSize → Reference wordSize → Prop where
  | here {call new : Reference wordSize} (condition : sound call = true)
      (fired : optimize call = some new) : Rewrites call new
  | arg0 {primitive : Primitive} {old new arg1 : Reference wordSize}
      (inside : Rewrites old new) :
      Rewrites (.primitiveCall primitive old arg1)
        (.primitiveCall primitive new arg1)
  | arg1 {primitive : Primitive} {arg0 old new : Reference wordSize}
      (inside : Rewrites old new) :
      Rewrites (.primitiveCall primitive arg0 old)
        (.primitiveCall primitive arg0 new)
  | offset {old new size x : Reference wordSize} (inside : Rewrites old new) :
      Rewrites (.bitFieldExtract old size x) (.bitFieldExtract new size x)
  | size {offset old new x : Reference wordSize}
      (inside : Rewrites old new) :
      Rewrites (.bitFieldExtract offset old x) (.bitFieldExtract offset new x)
  | field {offset size old new : Reference wordSize}
      (inside : Rewrites old new) :
      Rewrites (.bitFieldExtract offset size old)
        (.bitFieldExtract offset size new)
  | refl (graph : Reference wordSize) : Rewrites graph graph
  | trans {first second third : Reference wordSize}
      (earlier : Rewrites first second) (later : Rewrites second third) :
      Rewrites first third

theorem evaluate_bitFieldExtract {valuation : Valuation wordSize}
    {offset size x : Reference wordSize} {word : BitVec wordSize} :
    evaluate valuation (.bitFieldExtract offset size x) = some word ↔
      ∃ a b c, evaluate valuation offset = some a ∧
        evaluate valuation size = some b ∧ evaluate valuation x = some c ∧
        evaluateBitFieldExtract a b c = some word := by
  cases first : evaluate valuation offset with
  | none => simp [evaluate, first]
  | some a =>
      cases second : evaluate valuation size with
      | none => simp [evaluate, first, second]
      | some b =>
          cases third : evaluate valuation x with
          | none => simp [evaluate, first, second, third]
          | some c => simp [evaluate, first, second, third]

theorem rewrites_preserve {old new : Reference wordSize}
    (rewrites : Rewrites old new) : Preserves old new := by
  induction rewrites with
  | here condition fired => exact optimize_preserves condition fired
  | arg0 inside ih =>
      intro valuation word value
      obtain ⟨x, y, first, second, result⟩ := evaluate_primitiveCall.mp value
      exact evaluate_primitiveCall.mpr
        ⟨x, y, ih valuation x first, second, result⟩
  | arg1 inside ih =>
      intro valuation word value
      obtain ⟨x, y, first, second, result⟩ := evaluate_primitiveCall.mp value
      exact evaluate_primitiveCall.mpr
        ⟨x, y, first, ih valuation y second, result⟩
  | offset inside ih =>
      intro valuation word value
      obtain ⟨a, b, c, first, second, third, result⟩ :=
        evaluate_bitFieldExtract.mp value
      exact evaluate_bitFieldExtract.mpr
        ⟨a, b, c, ih valuation a first, second, third, result⟩
  | size inside ih =>
      intro valuation word value
      obtain ⟨a, b, c, first, second, third, result⟩ :=
        evaluate_bitFieldExtract.mp value
      exact evaluate_bitFieldExtract.mpr
        ⟨a, b, c, first, ih valuation b second, third, result⟩
  | field inside ih =>
      intro valuation word value
      obtain ⟨a, b, c, first, second, third, result⟩ :=
        evaluate_bitFieldExtract.mp value
      exact evaluate_bitFieldExtract.mpr
        ⟨a, b, c, first, second, ih valuation c third, result⟩
  | refl graph => exact fun _ _ value => value
  | trans earlier later first second =>
      exact fun valuation word value =>
        second valuation word (first valuation word value)

/-! ## Rewrites that change a value -/

/-- The operand that a doubtful rewrite keeps. -/
def operand : Reference wordSize → Reference wordSize
  | .primitiveCall .logxor
      (.primitiveCall .logior
        (.primitiveCall .shiftLeftSignalOverflow x _) _) _ => x
  | .primitiveCall .shiftRight (.primitiveCall .logand x _) _ => x
  | .primitiveCall _ _ x => x
  | reference => reference

/-- A reference that may have any word as its value. -/
def isDynamic : Reference wordSize → Bool
  | .lexicalVariable _ => true
  | .temporary _ => true
  | _ => false

/-- Every dynamic reference has this word. -/
def constantly (word : BitVec wordSize) : Valuation wordSize :=
  { ofVariable := fun _ => word
    ofTemporary := fun _ => word }

theorem evaluate_constantly {word : BitVec wordSize}
    {x : Reference wordSize} (dynamic : isDynamic x = true) :
    evaluate (constantly word) x = some word := by
  cases x with
  | lexicalVariable name => rfl
  | temporary name => rfl
  | constant literal => simp [isDynamic] at dynamic
  | primitiveCall primitive arg0 arg1 => simp [isDynamic] at dynamic
  | bitFieldExtract offset size x => simp [isDynamic] at dynamic

theorem toInt_one (wide : 3 ≤ wordSize) :
    (BitVec.ofNat wordSize 1).toInt = 1 := by
  have large : 2 ^ 3 ≤ 2 ^ wordSize := Nat.pow_le_pow_right (by decide) wide
  rw [BitVec.toInt_eq_toNat_cond, BitVec.toNat_ofNat,
    Nat.mod_eq_of_lt (by omega)]
  split
  · rfl
  · omega

theorem toInt_two (wide : 3 ≤ wordSize) :
    (BitVec.ofNat wordSize 2).toInt = 2 := by
  have large : 2 ^ 3 ≤ 2 ^ wordSize := Nat.pow_le_pow_right (by decide) wide
  rw [BitVec.toInt_eq_toNat_cond, BitVec.toNat_ofNat,
    Nat.mod_eq_of_lt (by omega)]
  split
  · rfl
  · omega

/-- `0 - 1` is not `1`. -/
theorem subtract_zero_changes (wide : 3 ≤ wordSize)
    {minuend : RawLiteral wordSize} {x : Reference wordSize}
    (zero : minuend.value = 0) (dynamic : isDynamic x = true) :
    ¬Preserves (.primitiveCall .subtractSignalOverflow (.constant minuend) x)
      x := by
  intro preserved
  have one := toInt_one wide
  have power : (2 : Int) ^ 2 ≤ 2 ^ (wordSize - 1) := by
    exact_mod_cast Nat.pow_le_pow_right (by decide)
      (show 2 ≤ wordSize - 1 by omega)
  have quiet : (BitVec.ofNat wordSize 0).ssubOverflow
      (BitVec.ofNat wordSize 1) = false := by
    simp only [BitVec.ssubOverflow, BitVec.toInt_zero, one,
      Bool.or_eq_false_iff, decide_eq_false_iff_not]
    omega
  have value : evaluate (constantly (BitVec.ofNat wordSize 1))
      (.primitiveCall .subtractSignalOverflow (.constant minuend) x) =
        some ((BitVec.ofNat wordSize 0) - (BitVec.ofNat wordSize 1)) := by
    refine evaluate_primitiveCall.mpr
      ⟨_, _, rfl, evaluate_constantly dynamic, ?_⟩
    simp [evaluatePrimitive, zero, quiet]
  have after := preserved _ _ value
  rw [evaluate_constantly dynamic, Option.some.injEq] at after
  have readings := congrArg BitVec.toInt after
  rw [one, BitVec.toInt_sub_of_not_ssubOverflow (by simp [quiet]), one]
    at readings
  simp at readings

/-- `1 / 2` is not `2`. -/
theorem divide_one_changes (wide : 3 ≤ wordSize)
    {dividend : RawLiteral wordSize} {x : Reference wordSize}
    (one : dividend.value = 1) (dynamic : isDynamic x = true) :
    ¬Preserves (.primitiveCall .divideSignalOverflow (.constant dividend) x)
      x := by
  intro preserved
  have unit := toInt_one wide
  have two := toInt_two wide
  have nonzero : (BitVec.ofNat wordSize 2) ≠ (BitVec.ofNat wordSize 0) := by
    intro same
    have readings := congrArg BitVec.toInt same
    rw [two] at readings
    simp at readings
  have quiet : (BitVec.ofNat wordSize 1).sdivOverflow
      (BitVec.ofNat wordSize 2) = false := by
    have power : (2 : Int) ^ 2 ≤ 2 ^ (wordSize - 1) := by
      exact_mod_cast Nat.pow_le_pow_right (by decide)
        (show 2 ≤ wordSize - 1 by omega)
    simp only [BitVec.sdivOverflow, unit, two, Bool.or_eq_false_iff,
      decide_eq_false_iff_not]
    omega
  have value : evaluate (constantly (BitVec.ofNat wordSize 2))
      (.primitiveCall .divideSignalOverflow (.constant dividend) x) =
        some ((BitVec.ofNat wordSize 1).sdiv (BitVec.ofNat wordSize 2)) := by
    refine evaluate_primitiveCall.mpr
      ⟨_, _, rfl, evaluate_constantly dynamic, ?_⟩
    have literal : BitVec.ofInt wordSize dividend.value =
        BitVec.ofNat wordSize 1 := by
      rw [one]
      rfl
    simp [evaluatePrimitive, literal, quiet, nonzero]
  have after := preserved _ _ value
  rw [evaluate_constantly dynamic, Option.some.injEq] at after
  have readings := congrArg BitVec.toInt after
  rw [two, BitVec.toInt_sdiv_of_ne_or_ne, unit, two] at readings
  · simp at readings
  · right
    intro same
    have signs := congrArg BitVec.toInt same
    rw [two, BitVec.neg_one_eq_allOnes, BitVec.toInt_allOnes,
      if_pos (by omega)] at signs
    omega

theorem sshiftRight_shiftLeft_allOnes {count : Nat}
    (small : count < wordSize) :
    (BitVec.allOnes wordSize <<< count).sshiftRight count =
      BitVec.allOnes wordSize := by
  have sign : (BitVec.allOnes wordSize <<< count).msb = true := by
    rw [BitVec.msb_eq_getLsbD_last, BitVec.getLsbD_eq_getElem (by omega),
      BitVec.getElem_shiftLeft]
    have high : ¬wordSize - 1 < count := by omega
    simp [high]
  ext index inside
  rw [BitVec.getElem_sshiftRight, sign]
  split
  · simp
  · simp

/-- The sign bit of a negative literal is set. -/
theorem testBit_sign {literal : RawLiteral wordSize}
    (negative : literal.value < 0) :
    literal.value.testBit (wordSize - 1) = true := by
  obtain ⟨value, fits⟩ := literal
  cases value with
  | ofNat magnitude => exact absurd negative (by simp)
  | negSucc magnitude =>
      have small := (fits_negSucc_iff _ _).mp fits
      simp [Int.testBit, Nat.testBit_lt_two_pow small]

/-- Taking out a negative tag clears the sign bit of a shifted `-1`. -/
theorem negative_tag_changes {x : Reference wordSize}
    {xor ior shift : RawLiteral wordSize}
    (lower : 0 ≤ shift.value) (upper : shift.value < wordSize)
    (same : ior.value = xor.value) (negative : ior.value < 0)
    (dynamic : isDynamic x = true) :
    ¬Preserves
      (.primitiveCall .logxor
        (.primitiveCall .logior
          (.primitiveCall .shiftLeftSignalOverflow x (.constant shift))
          (.constant ior))
        (.constant xor))
      (.primitiveCall .shiftLeftSignalOverflow x (.constant shift)) := by
  intro preserved
  obtain ⟨count, counted⟩ := Int.eq_ofNat_of_zero_le lower
  have small : count < wordSize := by omega
  have reading : (BitVec.ofInt wordSize shift.value).toNat = count := by
    rw [counted, BitVec.ofInt_natCast, BitVec.toNat_ofNat]
    exact Nat.mod_eq_of_lt (Nat.lt_trans small Nat.lt_two_pow_self)
  have shifted : evaluate (constantly (BitVec.allOnes wordSize))
      (.primitiveCall .shiftLeftSignalOverflow x (.constant shift)) =
        some (BitVec.allOnes wordSize <<< count) := by
    refine evaluate_primitiveCall.mpr
      ⟨_, _, evaluate_constantly dynamic, rfl, ?_⟩
    simp [evaluatePrimitive, reading, small,
      sshiftRight_shiftLeft_allOnes small]
  have value : evaluate (constantly (BitVec.allOnes wordSize))
      (.primitiveCall .logxor
        (.primitiveCall .logior
          (.primitiveCall .shiftLeftSignalOverflow x (.constant shift))
          (.constant ior))
        (.constant xor)) =
      some ((BitVec.allOnes wordSize <<< count |||
        BitVec.ofInt wordSize ior.value) ^^^
          BitVec.ofInt wordSize xor.value) := by
    refine evaluate_primitiveCall.mpr ⟨_, _, ?_, rfl, rfl⟩
    exact evaluate_primitiveCall.mpr ⟨_, _, shifted, rfl, rfl⟩
  have after := preserved _ _ value
  rw [shifted, Option.some.injEq, ← same] at after
  have last : wordSize - 1 < wordSize := by omega
  have bits := congrArg (fun word => word.getLsbD (wordSize - 1)) after
  have high : ¬wordSize - 1 < count := by omega
  simp [last, high, getElem_ofInt, testBit_sign negative] at bits

/-- A mask with a bit clear above the count shows in a shifted `-1`. -/
theorem short_mask_changes {x : Reference wordSize}
    {mask count : RawLiteral wordSize} (moves : movesBits count = true)
    (passed : obsoleteRightShiftedLogand mask.value count.value = true)
    (short : BitVec.ofInt wordSize mask.value ≠ BitVec.allOnes wordSize)
    (dynamic : isDynamic x = true) :
    ¬Preserves
      (.primitiveCall .shiftRight
        (.primitiveCall .logand x (.constant mask)) (.constant count))
      (.primitiveCall .shiftRight x (.constant count)) := by
  intro preserved
  simp only [movesBits, Bool.and_eq_true, decide_eq_true_eq] at moves
  obtain ⟨bits, counted⟩ := Int.eq_ofNat_of_zero_le (show 0 ≤ count.value by
    omega)
  have small : bits < wordSize := by omega
  have reading : (BitVec.ofInt wordSize count.value).toNat = bits := by
    rw [counted, BitVec.ofInt_natCast, BitVec.toNat_ofNat]
    exact Nat.mod_eq_of_lt (Nat.lt_trans small Nat.lt_two_pow_self)
  have value : evaluate (constantly (BitVec.allOnes wordSize))
      (.primitiveCall .shiftRight
        (.primitiveCall .logand x (.constant mask)) (.constant count)) =
      some ((BitVec.ofInt wordSize mask.value).sshiftRight bits) := by
    have masked : evaluate (constantly (BitVec.allOnes wordSize))
        (.primitiveCall .logand x (.constant mask)) =
          some (BitVec.ofInt wordSize mask.value) := by
      refine evaluate_primitiveCall.mpr
        ⟨_, _, evaluate_constantly dynamic, rfl, ?_⟩
      simp [evaluatePrimitive]
    refine evaluate_primitiveCall.mpr ⟨_, _, masked, rfl, ?_⟩
    simp [evaluatePrimitive, reading, small]
  have kept : evaluate (constantly (BitVec.allOnes wordSize))
      (.primitiveCall .shiftRight x (.constant count)) =
      some ((BitVec.allOnes wordSize).sshiftRight bits) := by
    refine evaluate_primitiveCall.mpr
      ⟨_, _, evaluate_constantly dynamic, rfl, ?_⟩
    simp [evaluatePrimitive, reading, small]
  have after := preserved _ _ value
  rw [kept, Option.some.injEq] at after
  apply short
  ext index inside
  simp only [obsoleteRightShiftedLogand, decide_eq_true_eq] at passed
  rw [counted, ash_one_natCast] at passed
  by_cases low : index < bits
  · have bit := testBit_of_land_eq_zero passed index
    rw [Int.testBit_lnot, testBit_mask] at bit
    simp only [low, decide_true, Bool.and_true, Bool.not_eq_false'] at bit
    simp [getElem_ofInt, bit]
  · have bit := congrArg (fun word => word.getLsbD (index - bits)) after
    have target : bits + (index - bits) = index := by omega
    have within : index - bits < wordSize := by omega
    simp only [BitVec.getLsbD_sshiftRight, target, inside, if_true] at bit
    have outside : ¬wordSize ≤ index - bits := by omega
    simp [outside, inside] at bit
    simpa using bit

/-- A rewrite that keeps the value for every word of the remaining operand is
a rewrite of a sound call. -/
theorem sound_of_preserves (wide : 3 ≤ wordSize) {call : Reference wordSize}
    (dynamic : isDynamic (operand call) = true)
    (preserved : ∀ new, optimize call = some new → Preserves call new) :
    sound call = true := by
  unfold sound
  split
  · rename_i minuend x
    rw [decide_eq_true_eq]
    intro zero
    refine subtract_zero_changes wide zero dynamic (preserved x ?_)
    simp [optimize, binaryNoop, optimizeMachineWordPrimitives, binaryNoop1,
      fastConstantValue, zero]
  · rename_i dividend x
    rw [decide_eq_true_eq]
    intro one
    refine divide_one_changes wide one dynamic (preserved x ?_)
    simp [optimize, binaryNoop, optimizeMachineWordPrimitives, binaryNoop1,
      fastConstantValue, one]
  · rename_i x shift ior xor
    rw [Bool.not_eq_true', ← Bool.not_eq_true]
    simp only [Bool.and_eq_true, decide_eq_true_eq, not_and]
    rintro ⟨⟨⟨generated, lower⟩, upper⟩, same⟩ negative
    replace dynamic : isDynamic x = true := dynamic
    refine negative_tag_changes lower upper same negative dynamic
      (preserved _ ?_)
    have tagged : (Reference.primitiveCall .shiftLeftSignalOverflow x
      (.constant shift)).hasGenerator = true := rfl
    have outer : (Reference.primitiveCall .logior
      (.primitiveCall .shiftLeftSignalOverflow x (.constant shift))
      (.constant ior)).hasGenerator = true := rfl
    have nonzero : xor.value ≠ 0 := by omega
    have positive : 0 < ash 1 shift.value := by
      rw [ash, if_pos lower, Int.one_mul]
      exact Int.pow_pos (by decide)
    have below : ior.value < ash 1 shift.value := by omega
    have also : xor.value < ash 1 shift.value := by omega
    simp [optimize, optimizeLogxor, binaryNoop,
      optimizeMachineWordPrimitives, binaryNoop1, fastConstantValue,
      nonzero, foldTagUntagOps, callsToAndArguments, callToAndArgument,
      tagged, outer, generated, shiftedTagTest, same, also]
  · rename_i x mask count
    rw [Bool.not_eq_true', ← Bool.not_eq_true]
    simp only [Bool.and_eq_true, decide_eq_true_eq, not_and, ne_eq, not_not]
    rintro ⟨moves, passed⟩
    by_contra short
    replace dynamic : isDynamic x = true := dynamic
    refine short_mask_changes moves passed short dynamic (preserved _ ?_)
    have nonzero : count.value ≠ 0 := by
      simp only [movesBits, Bool.and_eq_true, decide_eq_true_eq] at moves
      omega
    simp [optimize, optimizeShiftRight, binaryNoop,
      optimizeMachineWordPrimitives, binaryNoop1, fastConstantValue,
      nonzero, obsoletedBy, callToAndMatchingArgument, passed]
  · rfl

theorem lnot_land_self (value : Int) : value.lnot.land value = 0 := by
  have apart : ∀ magnitude : Nat, Nat.ldiff magnitude magnitude = 0 := by
    intro magnitude
    apply Nat.eq_of_testBit_eq
    simp [Nat.testBit_ldiff]
  cases value with
  | ofNat magnitude => exact congrArg Int.ofNat (apart magnitude)
  | negSucc magnitude => exact congrArg Int.ofNat (apart magnitude)

end OpenDylan.Compiler.MachineWord
