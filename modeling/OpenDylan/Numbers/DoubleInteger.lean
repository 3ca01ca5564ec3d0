import OpenDylan.Lib.TwoWords

/-!
# Double integers

The integers of the big-integers library are the tagged integers of one machine
word and, where these are too small, pairs of machine words.  Addition and
subtraction try the tagged integers first and then work on the low and the high
words.
-/

namespace OpenDylan.Numbers

open OpenDylan.Lib

/-- `<machine-word>`: two bits of a word are the tag of an integer, one is the
sign, and the others are given by `bits`. -/
abbrev Word (bits : Nat) := BitVec (bits + 3)

/-- A `dylan/<integer>`. -/
structure SmallInteger (bits : Nat) where
  value : Int
  holds : TwoWords.Holds bits value
deriving DecidableEq

/-- An `<integer>`: a `dylan/<integer>`, or a `<double-integer>` of a low and
a high word. -/
inductive Integer (bits : Nat) where
  | small (x : SmallInteger bits)
  | double (low high : Word bits)
deriving DecidableEq

/-- The error that `machine-word-overflow` signals. -/
inductive Failure where
  | arithmeticOverflow
deriving DecidableEq

variable {bits : Nat}

/-! ## Machine words -/

/-- `machine-word-add-with-overflow` -/
def machineWordAddWithOverflow (x y : Word bits) : Word bits × Bool :=
  (x + y, BitVec.saddOverflow x y)

/-- `machine-word-subtract-with-overflow` -/
def machineWordSubtractWithOverflow (x y : Word bits) : Word bits × Bool :=
  (x - y, BitVec.ssubOverflow x y)

/-- `machine-word-unsigned-add-with-carry` -/
def machineWordUnsignedAddWithCarry (x y : Word bits) :
    Word bits × Word bits :=
  (x + y, if BitVec.uaddOverflow x y then 1 else 0)

/-- `machine-word-unsigned-subtract-with-borrow` -/
def machineWordUnsignedSubtractWithBorrow (x y : Word bits) :
    Word bits × Word bits :=
  (x - y, if BitVec.usubOverflow x y then 1 else 0)

/-- `machine-word-add-signal-overflow` -/
def machineWordAddSignalOverflow (x y : Word bits) :
    Except Failure (Word bits) :=
  if BitVec.saddOverflow x y then .error .arithmeticOverflow else .ok (x + y)

/-- `machine-word-subtract-signal-overflow` -/
def machineWordSubtractSignalOverflow (x y : Word bits) :
    Except Failure (Word bits) :=
  if BitVec.ssubOverflow x y then .error .arithmeticOverflow else .ok (x - y)

/-- `primitive-machine-word-shift-left-signal-overflow` -/
def shiftLeftSignalOverflow (x : Word bits) (shift : Nat) :
    Except Failure (Word bits) :=
  let result := x <<< shift
  if x ≠ result.sshiftRight shift then .error .arithmeticOverflow
  else .ok result

/-- `sign-word` -/
def signWord (x : Word bits) : Word bits :=
  if x.toInt < 0 then BitVec.ofInt (bits + 3) (-1)
  else BitVec.ofInt (bits + 3) 0

/-! ## Tagged integers -/

/-- `$integer-tag-value` -/
def integerTagValue : Word bits := 1

/-- `$integer-tag-width` -/
def integerTagWidth : Nat := 2

/-- `interpret-integer-as-machine-word`: an integer is stored with its tag. -/
def interpretIntegerAsMachineWord (x : SmallInteger bits) : Word bits :=
  BitVec.ofInt (bits + 3) (4 * x.value + 1)

/-- `interpret-machine-word-as-integer` -/
def interpretMachineWordAsInteger (x : Word bits) : SmallInteger bits where
  value := x.toInt / 4
  holds := by
    have range := TwoWords.toInt_holds x
    unfold TwoWords.Holds at range ⊢
    rw [pow_add] at range
    omega

/-- `strip-integer-tag` -/
def stripIntegerTag (x : Word bits) : Word bits := x - integerTagValue

/-- `insert-integer-tag` -/
def insertIntegerTag (x : Word bits) : Word bits := x + integerTagValue

/-- `coerce-integer-to-machine-word` -/
def coerceIntegerToMachineWord (x : SmallInteger bits) : Word bits :=
  (interpretIntegerAsMachineWord x).sshiftRight integerTagWidth

/-- `coerce-machine-word-to-integer` -/
def coerceMachineWordToInteger (x : Word bits) :
    Except Failure (SmallInteger bits) := do
  let bits ← shiftLeftSignalOverflow x integerTagWidth
  pure (interpretMachineWordAsInteger (insertIntegerTag bits))

/-- `double-integer-is-integer?` -/
def doubleIntegerIsInteger (low high : Word bits) : Bool :=
  high = low.sshiftRight (bits + 3 - integerTagWidth - 1) ∧
    (high = BitVec.ofInt (bits + 3) 0 ∨ high = BitVec.ofInt (bits + 3) (-1))

/-- `interpret-result-as-abstract-integer` -/
def interpretResultAsAbstractInteger (low high : Word bits) :
    Except Failure (Integer bits) :=
  if doubleIntegerIsInteger low high then do
    pure (.small (← coerceMachineWordToInteger low))
  else
    .ok (.double low high)

/-! ## Addition and subtraction -/

/-- The two words of an operand; a `dylan/<integer>` is promoted. -/
def Integer.words : Integer bits → Word bits × Word bits
  | .small x =>
      (coerceIntegerToMachineWord x, signWord (coerceIntegerToMachineWord x))
  | .double low high => (low, high)

/-- `+` on two `dylan/<integer>`s. -/
def addSmall (x y : SmallInteger bits) : Except Failure (Integer bits) := do
  let mx := interpretIntegerAsMachineWord x
  let my := stripIntegerTag (interpretIntegerAsMachineWord y)
  let (result, overflow) := machineWordAddWithOverflow mx my
  if overflow then
    let mx := coerceIntegerToMachineWord x
    let my := coerceIntegerToMachineWord y
    let (low, carry) := machineWordUnsignedAddWithCarry mx my
    let high ← machineWordAddSignalOverflow (signWord mx) (signWord my)
    let high ← machineWordAddSignalOverflow high carry
    pure (.double low high)
  else
    pure (.small (interpretMachineWordAsInteger result))

/-- `+` where an operand is a `<double-integer>`, on the words of both. -/
def addDouble (x y : Word bits × Word bits) :
    Except Failure (Integer bits) := do
  let (low, carry) := machineWordUnsignedAddWithCarry x.1 y.1
  let high ← machineWordAddSignalOverflow x.2 y.2
  let high ← machineWordAddSignalOverflow high carry
  interpretResultAsAbstractInteger low high

/-- `+` -/
def add : Integer bits → Integer bits → Except Failure (Integer bits)
  | .small x, .small y => addSmall x y
  | x, y => addDouble x.words y.words

/-- `-` on two `dylan/<integer>`s. -/
def subtractSmall (x y : SmallInteger bits) :
    Except Failure (Integer bits) := do
  let mx := interpretIntegerAsMachineWord x
  let my := stripIntegerTag (interpretIntegerAsMachineWord y)
  let (result, overflow) := machineWordSubtractWithOverflow mx my
  if overflow then
    let mx := coerceIntegerToMachineWord x
    let my := coerceIntegerToMachineWord y
    let (low, borrow) := machineWordUnsignedSubtractWithBorrow mx my
    let high ← machineWordSubtractSignalOverflow (signWord mx) (signWord my)
    let high ← machineWordSubtractSignalOverflow high borrow
    pure (.double low high)
  else
    pure (.small (interpretMachineWordAsInteger result))

/-- `-` where an operand is a `<double-integer>`, on the words of both. -/
def subtractDouble (x y : Word bits × Word bits) :
    Except Failure (Integer bits) := do
  let (low, borrow) := machineWordUnsignedSubtractWithBorrow x.1 y.1
  let high ← machineWordSubtractSignalOverflow x.2 y.2
  let high ← machineWordSubtractSignalOverflow high borrow
  interpretResultAsAbstractInteger low high

/-- `-` -/
def subtract : Integer bits → Integer bits → Except Failure (Integer bits)
  | .small x, .small y => subtractSmall x y
  | x, y => subtractDouble x.words y.words

end OpenDylan.Numbers
