import OpenDylan.Lib.Word

/-!
# Machine-word primitive calls and their optimizers

A value reference is a raw literal, a variable without a generator, or a
temporary; the generator of a temporary is a primitive call or some other
computation.  The optimizer functions look through generators and answer with
the reference that takes the place of a call's value.  A call whose result
does not change is answered with `none`.
-/

namespace OpenDylan.Compiler.MachineWord

open OpenDylan.Lib.Word

/-! ## Primitive calls -/

/-- A `<&raw-machine-word>` literal of the target's word size. -/
structure RawLiteral (wordSize : Nat) where
  value : Int
  fits : Fits wordSize value
deriving DecidableEq

/-- The binary primitives that the optimizers know. -/
inductive Primitive where
  | logand
  | logior
  | logxor
  | addSignalOverflow
  | subtractSignalOverflow
  | multiplySignalOverflow
  | divideSignalOverflow
  | shiftLeftSignalOverflow
  | shiftRight
deriving DecidableEq

/-- A value reference together with what generates it. -/
inductive Reference (wordSize : Nat) where
  | constant (literal : RawLiteral wordSize)
  /-- A reference without a generator. -/
  | lexicalVariable (name : Nat)
  /-- A temporary generated by another kind of computation. -/
  | temporary (name : Nat)
  | primitiveCall (primitive : Primitive) (arg0 arg1 : Reference wordSize)
  | bitFieldExtract (offset size x : Reference wordSize)
deriving DecidableEq

variable {wordSize : Nat}

/-- Is there a `generator`? -/
def Reference.hasGenerator : Reference wordSize → Bool
  | .constant _ => false
  | .lexicalVariable _ => false
  | _ => true

/-- `fast-constant-value?` -/
def fastConstantValue : Reference wordSize → Option (RawLiteral wordSize)
  | .constant literal => some literal
  | _ => none

/-! ## The run-time meaning -/

/-- The words of the references that no primitive call generates. -/
structure Valuation (wordSize : Nat) where
  ofVariable : Nat → BitVec wordSize
  ofTemporary : Nat → BitVec wordSize

/-- A primitive on words; `none` when it signals, or when a shift count is not
the number of a bit. -/
def evaluatePrimitive (primitive : Primitive) (x y : BitVec wordSize) :
    Option (BitVec wordSize) :=
  match primitive with
  | .logand => some (x &&& y)
  | .logior => some (x ||| y)
  | .logxor => some (x ^^^ y)
  | .addSignalOverflow =>
      if x.saddOverflow y then none else some (x + y)
  | .subtractSignalOverflow =>
      if x.ssubOverflow y then none else some (x - y)
  | .multiplySignalOverflow =>
      if x.smulOverflow y then none else some (x * y)
  | .divideSignalOverflow =>
      if y = 0 || x.sdivOverflow y then none else some (x.sdiv y)
  | .shiftLeftSignalOverflow =>
      if y.toNat < wordSize then
        -- Shift the result back to see if any bits were lost.
        if (x <<< y.toNat).sshiftRight y.toNat = x then
          some (x <<< y.toNat)
        else
          none
      else
        none
  | .shiftRight =>
      if y.toNat < wordSize then some (x.sshiftRight y.toNat) else none

/-- The bits of `x` from `offset` on, `size` of them. -/
def evaluateBitFieldExtract (offset size x : BitVec wordSize) :
    Option (BitVec wordSize) :=
  if offset.toNat < wordSize && size.toNat < wordSize then
    some ((x >>> offset.toNat) &&&
      ((BitVec.ofNat wordSize 1 <<< size.toNat) - BitVec.ofNat wordSize 1))
  else
    none

/-- The word that a reference stands for. -/
def evaluate (valuation : Valuation wordSize) :
    Reference wordSize → Option (BitVec wordSize)
  | .constant literal => some (BitVec.ofInt wordSize literal.value)
  | .lexicalVariable name => some (valuation.ofVariable name)
  | .temporary name => some (valuation.ofTemporary name)
  | .primitiveCall primitive arg0 arg1 =>
      match evaluate valuation arg0, evaluate valuation arg1 with
      | some x, some y => evaluatePrimitive primitive x y
      | _, _ => none
  | .bitFieldExtract offset size x =>
      match evaluate valuation offset, evaluate valuation size,
          evaluate valuation x with
      | some offset, some size, some x => evaluateBitFieldExtract offset size x
      | _, _, _ => none

theorem evaluate_primitiveCall {valuation : Valuation wordSize}
    {primitive : Primitive} {arg0 arg1 : Reference wordSize}
    {word : BitVec wordSize} :
    evaluate valuation (.primitiveCall primitive arg0 arg1) = some word ↔
      ∃ x y, evaluate valuation arg0 = some x ∧
        evaluate valuation arg1 = some y ∧
        evaluatePrimitive primitive x y = some word := by
  cases left : evaluate valuation arg0 with
  | none => simp [evaluate, left]
  | some x =>
      cases right : evaluate valuation arg1 with
      | none => simp [evaluate, left, right]
      | some y => simp [evaluate, left, right]

/-! ## Integers of the compiler -/

/-- `ash` -/
def ash (x count : Int) : Int :=
  if 0 ≤ count then x * 2 ^ count.toNat else x / 2 ^ (-count).toNat

/-- `raw-mw-op` on an operation that stays inside the word. -/
def rawMwOp (op : Int → Int → Int)
    (closed : ∀ {x y}, Fits wordSize x → Fits wordSize y →
      Fits wordSize (op x y))
    (rx ry : RawLiteral wordSize) : RawLiteral wordSize :=
  { value := op rx.value ry.value
    fits := closed rx.fits ry.fits }

/-! ## Shared rewrites -/

/-- `*optimize-machine-word-primitives?*` -/
def optimizeMachineWordPrimitives : Bool := true

/-- `do-optimize-machine-word-binary-noop-1` -/
def binaryNoop1 (enabled : Bool) (staticArg dynamicArg : Reference wordSize)
    (identityValue : Int) : Option (Reference wordSize) :=
  if enabled then
    match fastConstantValue staticArg with
    | some rawValue =>
        if rawValue.value = identityValue then some dynamicArg else none
    | none => none
  else
    none

/-- `do-optimize-machine-word-binary-noop` -/
def binaryNoop (arg0 arg1 : Reference wordSize) (identityValue : Int)
    (first second : Bool) : Option (Reference wordSize) :=
  if optimizeMachineWordPrimitives then
    binaryNoop1 first arg0 arg1 identityValue
      <|> binaryNoop1 second arg1 arg0 identityValue
  else
    none

/-- `do-optimize-machine-word-partial-fold-binary-op` -/
def partialFoldBinaryOp (call : Primitive) (arg0 arg1 : Reference wordSize)
    (combine : RawLiteral wordSize → RawLiteral wordSize → RawLiteral wordSize)
    (companionPrimitiveName : Primitive) : Option (Reference wordSize) :=
  if optimizeMachineWordPrimitives then
    match fastConstantValue arg1, arg0 with
    | some value1, .primitiveCall gen genArg0 ref =>
        if gen = companionPrimitiveName then
          match fastConstantValue ref with
          | some value2 =>
              some (.primitiveCall call genArg0
                (.constant (combine value1 value2)))
          | none => none
        else
          none
    | _, _ => none
  else
    none

/-- `machine-word-primitive-call-to-and-argument?`: the next reference whose
generator is to be looked at, and the constant second argument. -/
def callToAndArgument (primitiveName : Option Primitive) :
    Reference wordSize → Option (Reference wordSize × Int)
  | .primitiveCall primitive arg0 arg1 =>
      if primitiveName = none || primitiveName = some primitive then
        match fastConstantValue arg1 with
        | some value1 =>
            if arg0.hasGenerator then some (arg0, value1.value) else none
        | none => none
      else
        none
  | _ => none

/-- The loop of `machine-word-primitives-call-to-and-arguments?`. -/
def callsToAndArguments (test : List Int → Bool) :
    List (Option Primitive) → List Int → Reference wordSize →
      Reference wordSize → Option (Reference wordSize)
  | [], testArguments, lastGen, _ =>
      if test testArguments then some lastGen else none
  | primitiveName :: primitiveNames, testArguments, _, gen =>
      match callToAndArgument primitiveName gen with
      | some (nextGen, testArgument) =>
          callsToAndArguments test primitiveNames
            (testArguments ++ [testArgument]) gen nextGen
      | none => none

/-- `do-optimize-machine-word-fold-tag/untag-ops` -/
def foldTagUntagOps (call : Reference wordSize) (test : List Int → Bool)
    (primitiveNames : List (Option Primitive)) :
    Option (Reference wordSize) :=
  if optimizeMachineWordPrimitives then
    callsToAndArguments test primitiveNames [] call call
  else
    none

/-- `machine-word-primitive-call-to-and-matching-argument?`: the first
argument of the generator. -/
def callToAndMatchingArgument (primitiveArg : Reference wordSize)
    (primitiveName : Primitive) (test : Int → Int → Bool) (testArg : Int) :
    Option (Reference wordSize) :=
  match primitiveArg with
  | .primitiveCall gen genArg0 arg1 =>
      if gen = primitiveName then
        match fastConstantValue arg1 with
        | some value1 =>
            if test value1.value testArg then some genArg0 else none
        | none => none
      else
        none
  | _ => none

/-- `do-optimize-machine-word-obsoleted-by-right-shift` and
`do-optimize-machine-word-obsoleted-by-logand`. -/
def obsoletedBy (call : Primitive) (arg0 arg1 : Reference wordSize)
    (primitiveNamesAndTests : List (Primitive × (Int → Int → Bool))) :
    Option (Reference wordSize) :=
  match fastConstantValue arg1 with
  | some testArg =>
      (primitiveNamesAndTests.findSome? fun entry =>
        callToAndMatchingArgument arg0 entry.1 entry.2 testArg.value).map
          fun genArg0 => .primitiveCall call genArg0 arg1
  | none => none

/-- `obsolete-loganded-logior?` -/
def obsoleteLogandedLogior (x testArg : Int) : Bool :=
  x.land testArg = 0

/-- `obsolete-right-shifted-logior?` -/
def obsoleteRightShiftedLogior (x testArg : Int) : Bool :=
  x.land (ash 1 testArg - 1).lnot = 0

/-- `obsolete-right-shifted-logand?` -/
def obsoleteRightShiftedLogand (x testArg : Int) : Bool :=
  x.lnot.land (ash 1 testArg - 1) = 0

/-- `do-optimize-machine-word-shifts` -/
def optimizeShifts (arg0 arg1 : Reference wordSize)
    (otherShiftName : Primitive) : Option (Reference wordSize) :=
  match arg0 with
  | .primitiveCall gen genArg0 genArg1 =>
      if gen = otherShiftName then
        match fastConstantValue arg1, fastConstantValue genArg1 with
        | some amount0, some amount1 =>
            if amount0.value = amount1.value then some genArg0 else none
        | _, _ => none
      else
        none
  | _ => none

/-! ## The optimizer functions -/

/-- The test for a tag put in with `logior` over a left shift. -/
def shiftedTagTest : List Int → Bool
  | [xor, ior, shift] =>
      ior < ash 1 shift && xor < ash 1 shift && ior = xor
  | _ => false

/-- The test for a tag put in with `logior` over a `logand`. -/
def maskedTagTest : List Int → Bool
  | [xor, ior, andy] => ior = xor && andy.land xor = 0
  | _ => false

/-- The test for a tag put in again. -/
def retaggedTest : List Int → Bool
  | [ior1, xor, ior2] => ior1 = xor && xor = ior2
  | _ => false

/-- `do-optimize-primitive-machine-word-logxor`; the last alternative of the
source moves the call out of a loop and keeps its value. -/
def optimizeLogxor (arg0 arg1 : Reference wordSize) :
    Option (Reference wordSize) :=
  binaryNoop arg0 arg1 0 true true
    <|> foldTagUntagOps (.primitiveCall .logxor arg0 arg1) shiftedTagTest
      [none, some .logior, some .shiftLeftSignalOverflow]
    <|> foldTagUntagOps (.primitiveCall .logxor arg0 arg1) maskedTagTest
      [none, some .logior, some .logand]

/-- `do-optimize-primitive-machine-word-logand` -/
def optimizeLogand (arg0 arg1 : Reference wordSize) :
    Option (Reference wordSize) :=
  partialFoldBinaryOp .logand arg0 arg1 (rawMwOp Int.land fits_land) .logand
    <|> obsoletedBy .logand arg0 arg1 [(.logior, obsoleteLogandedLogior)]

/-- `do-optimize-primitive-machine-word-logior` -/
def optimizeLogior (arg0 arg1 : Reference wordSize) :
    Option (Reference wordSize) :=
  binaryNoop arg0 arg1 0 true true
    <|> partialFoldBinaryOp .logior arg0 arg1 (rawMwOp Int.lor fits_lor)
      .logior
    <|> foldTagUntagOps (.primitiveCall .logior arg0 arg1) retaggedTest
      [none, some .logxor, some .logior]

/-- `do-optimize-primitive-machine-word-shift-right` -/
def optimizeShiftRight (arg0 arg1 : Reference wordSize) :
    Option (Reference wordSize) :=
  binaryNoop arg0 arg1 0 false true
    <|> obsoletedBy .shiftRight arg0 arg1
      [(.logior, obsoleteRightShiftedLogior),
        (.logand, obsoleteRightShiftedLogand)]
    <|> optimizeShifts arg0 arg1 .shiftLeftSignalOverflow

/-- The mask of the low `size` bits. -/
theorem fits_mask {size : Int} (small : size ≤ wordSize) :
    Fits wordSize (ash 1 size - 1) := by
  have positive : (0 : Int) < 2 ^ wordSize := Int.pow_pos (by decide)
  have least : (0 : Int) < 2 ^ (wordSize - 1) := Int.pow_pos (by decide)
  simp only [Fits, ash, Int.one_mul]
  split
  · have below : (2 : Int) ^ size.toNat ≤ 2 ^ wordSize := by
      exact_mod_cast Nat.pow_le_pow_right (by decide)
        (show size.toNat ≤ wordSize by omega)
    have above : (0 : Int) < 2 ^ size.toNat := Int.pow_pos (by decide)
    omega
  · have above : (0 : Int) < 2 ^ (-size).toNat := Int.pow_pos (by decide)
    have quotient := Int.ediv_nonneg (show (0 : Int) ≤ 1 by decide)
      (Int.le_of_lt above)
    have small := Int.ediv_le_self (2 ^ (-size).toNat)
      (show (0 : Int) ≤ 1 by decide)
    omega

/-- `do-optimize-primitive-machine-word-bit-field-extract`; a field that is
wider than the word is left alone, because no word holds its mask. -/
def optimizeBitFieldExtract (offset size x : Reference wordSize) :
    Option (Reference wordSize) :=
  match fastConstantValue offset with
  | some rawOffset =>
      if rawOffset.value = 0 then
        match fastConstantValue size with
        | some rawSize =>
            if small : rawSize.value ≤ wordSize then
              some (.primitiveCall .logand x
                (.constant ⟨ash 1 rawSize.value - 1, fits_mask small⟩))
            else
              none
        | none => none
      else
        none
  | none => none

/-- The optimizer of a call's primitive: what takes the place of the call. -/
def optimize : Reference wordSize → Option (Reference wordSize)
  | .primitiveCall .logand arg0 arg1 => optimizeLogand arg0 arg1
  | .primitiveCall .logior arg0 arg1 => optimizeLogior arg0 arg1
  | .primitiveCall .logxor arg0 arg1 => optimizeLogxor arg0 arg1
  | .primitiveCall .addSignalOverflow arg0 arg1 =>
      binaryNoop arg0 arg1 0 true true
  | .primitiveCall .subtractSignalOverflow arg0 arg1 =>
      binaryNoop arg0 arg1 0 true true
  | .primitiveCall .multiplySignalOverflow arg0 arg1 =>
      binaryNoop arg0 arg1 1 true true
  | .primitiveCall .divideSignalOverflow arg0 arg1 =>
      binaryNoop arg0 arg1 1 true true
  | .primitiveCall .shiftLeftSignalOverflow arg0 arg1 =>
      binaryNoop arg0 arg1 0 false true
  | .primitiveCall .shiftRight arg0 arg1 => optimizeShiftRight arg0 arg1
  | .bitFieldExtract offset size x => optimizeBitFieldExtract offset size x
  | _ => none

end OpenDylan.Compiler.MachineWord
