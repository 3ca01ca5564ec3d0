import Mathlib.Data.List.Basic

/-!
# Layout of C structs

The raw type of a C struct has a size and an alignment, which are computed from
those of its fields, and every field has an offset in bytes and in bits.  Fields
of some width in bits share the storage of the field before them if that has the
same size and room for them.  The size of the struct and the offsets of its
fields come from loops of their own.

Sizes that are not known to be integers, and the raw types of back ends, are
left out: a basic raw type has a size and an alignment.
-/

namespace OpenDylan.Compiler.StructLayout

/-! ## Raw types -/

/-- `<abstract-aggregate-field-indicator>`: a `<simple-field-indicator>`, a
`<bitfield-field-indicator>` or a `<repeated-field-indicator>`. -/
inductive FieldIndicator (Raw : Type) where
  | simple (rawType : Raw)
  | bitfield (rawType : Raw) (width : Nat)
  | repeated (rawType : Raw) (repeatCount : Nat)
deriving DecidableEq

/-- `<abstract-raw-type>`: a `<basic-raw-type>`, a `<struct-aggregate-raw-type>`
or a `<union-aggregate-raw-type>`, with the pack option if there is one. -/
inductive RawType where
  | basic (size alignment : Nat)
  | struct (fields : List (FieldIndicator RawType)) (pack : Option Nat)
  | union (fields : List (FieldIndicator RawType)) (pack : Option Nat)

/-- `raw-size` and `raw-alignment` of an initialized raw type. -/
structure RawTypeInfo where
  size : Nat
  alignment : Nat
deriving DecidableEq

/-- A field, with what is known of its raw type. -/
abbrev Field : Type := FieldIndicator RawTypeInfo

/-- `field-raw-type` -/
def FieldIndicator.fieldRawType {Raw : Type} : FieldIndicator Raw → Raw
  | .simple rawType => rawType
  | .bitfield rawType _ => rawType
  | .repeated rawType _ => rawType

/-- `field-width`; zero for a field that is no bitfield. -/
def FieldIndicator.fieldWidth {Raw : Type} : FieldIndicator Raw → Nat
  | .simple _ => 0
  | .bitfield _ width => width
  | .repeated .. => 0

/-- `compute-field-size` -/
def computeFieldSize : Field → Nat
  | .simple rawType => rawType.size
  | .bitfield rawType _ => rawType.size
  | .repeated rawType repeatCount => repeatCount * rawType.size

/-- `get-default-pack-option` -/
def getDefaultPackOption : Nat := 8

/-- The pack option of an aggregate. -/
def packOption (pack : Option Nat) : Nat :=
  pack.getD getDefaultPackOption

/-- `address-unit-bit-size` -/
def addressUnitBitSize : Nat := 8

/-- `round-up-to-mod`, where the modulus is not zero. -/
def roundUpToMod (int modulus : Nat) : Nat :=
  modulus * ((int + modulus - 1) / modulus)

/-- The local value `adjusted-alignment`. -/
def adjustedAlignment (pack : Option Nat) (field : Field) : Nat :=
  min field.fieldRawType.alignment (packOption pack)

/-! ## Alignment and size -/

/-- `compute-aggregate-alignment` -/
def computeAggregateAlignment (fields : List Field) (pack : Option Nat) :
    Nat :=
  fields.foldl (fun runningAlignment field =>
    max runningAlignment (adjustedAlignment pack field)) 1

/-- The variables of the loop of `compute-aggregate-size`. -/
structure SizeState where
  runningSize : Nat
  runningBitfieldOffset : Nat
  runningAlignment : Nat
  forceNewField : Bool
  previousFieldSize : Nat
deriving DecidableEq

/-- One round of the loop of `compute-aggregate-size`. -/
def sizeStep (pack : Option Nat) (state : SizeState) (field : Field) :
    SizeState :=
  let fieldSize := computeFieldSize field
  let fieldWidth := field.fieldWidth
  let adjusted := adjustedAlignment pack field
  let nextBitfieldOffset := state.runningBitfieldOffset + fieldWidth
  let runningAlignment := max state.runningAlignment adjusted
  if fieldWidth = 0 then
    { runningSize := roundUpToMod state.runningSize adjusted + fieldSize
      runningBitfieldOffset := 0
      runningAlignment := runningAlignment
      forceNewField := true
      previousFieldSize := fieldSize }
  else if state.forceNewField = true ∨ fieldSize ≠ state.previousFieldSize ∨
      nextBitfieldOffset > fieldSize * addressUnitBitSize then
    { runningSize := roundUpToMod state.runningSize adjusted + fieldSize
      runningBitfieldOffset := fieldWidth
      runningAlignment := runningAlignment
      forceNewField := false
      previousFieldSize := fieldSize }
  else
    { state with
      runningBitfieldOffset := nextBitfieldOffset
      runningAlignment := runningAlignment
      previousFieldSize := fieldSize }

/-- `compute-aggregate-size` of a struct. -/
def computeStructSize (fields : List Field) (pack : Option Nat) : Nat :=
  let state := fields.foldl (sizeStep pack)
    { runningSize := 0
      runningBitfieldOffset := 0
      runningAlignment := 1
      forceNewField := true
      previousFieldSize := 0 }
  roundUpToMod state.runningSize state.runningAlignment

/-- `compute-aggregate-size` of a union. -/
def computeUnionSize (fields : List Field) (pack : Option Nat) : Nat :=
  let (runningSize, runningAlignment) :=
    fields.foldl (fun (running : Nat × Nat) field =>
      (max running.1 (computeFieldSize field),
        max running.2 (adjustedAlignment pack field))) (0, 1)
  roundUpToMod runningSize runningAlignment

/-! ## Initialization -/

mutual

/-- `initialize-raw-type`: the size and the alignment of a raw type. -/
def RawType.info : RawType → RawTypeInfo
  | .basic size alignment => ⟨size, alignment⟩
  | .struct fields pack =>
      { size := computeStructSize (fieldInfos fields) pack
        alignment := computeAggregateAlignment (fieldInfos fields) pack }
  | .union fields pack =>
      { size := computeUnionSize (fieldInfos fields) pack
        alignment := computeAggregateAlignment (fieldInfos fields) pack }

/-- The raw types of all fields are initialized first. -/
def fieldInfos : List (FieldIndicator RawType) → List Field
  | [] => []
  | field :: fields => fieldInfo field :: fieldInfos fields

/-- The raw type of a field. -/
def fieldInfo : FieldIndicator RawType → Field
  | .simple rawType => .simple rawType.info
  | .bitfield rawType width => .bitfield rawType.info width
  | .repeated rawType repeatCount => .repeated rawType.info repeatCount

end

/-! ## Offsets -/

/-- What `compute-aggregate-field-offset` returns. -/
structure FieldOffset where
  byteOffset : Nat
  bitOffset : Nat
  bitSize : Nat
deriving DecidableEq

/-- The variables of the loop of `compute-aggregate-field-offset`. -/
structure OffsetState where
  runningOffset : Nat
  runningBitfieldOffset : Nat
  runningAlignment : Nat
  forceNewField : Bool
  previousFieldSize : Nat
deriving DecidableEq

/-- The variables before the first round. -/
def OffsetState.start : OffsetState where
  runningOffset := 0
  runningBitfieldOffset := 0
  runningAlignment := 1
  forceNewField := true
  previousFieldSize := 0

/-- The first half of a round, which places a field, and the local value
`next-bitfield-offset`. -/
def placeField (pack : Option Nat) (state : OffsetState) (field : Field) :
    OffsetState × Nat :=
  let fieldSize := computeFieldSize field
  let fieldWidth := field.fieldWidth
  let adjusted := adjustedAlignment pack field
  let nextBitfieldOffset := state.runningBitfieldOffset + fieldWidth
  if fieldWidth = 0 then
    ({ state with
        runningOffset := roundUpToMod
          (state.runningOffset + state.previousFieldSize) adjusted
        runningBitfieldOffset := 0
        forceNewField := true }, 0)
  else if state.forceNewField = true ∨ fieldSize ≠ state.previousFieldSize ∨
      nextBitfieldOffset > fieldSize * addressUnitBitSize then
    ({ state with
        runningOffset := roundUpToMod
          (state.runningOffset + state.previousFieldSize) adjusted
        runningBitfieldOffset := 0
        forceNewField := false }, fieldWidth)
  else
    (state, nextBitfieldOffset)

/-- The whole round for a field that is not the one asked for. -/
def offsetStep (pack : Option Nat) (state : OffsetState) (field : Field) :
    OffsetState :=
  let placed := placeField pack state field
  { placed.1 with
    runningAlignment :=
      max state.runningAlignment (adjustedAlignment pack field)
    runningBitfieldOffset := placed.2
    previousFieldSize := computeFieldSize field }

/-- The loop of `compute-aggregate-field-offset`; without such a field there is
no result. -/
def fieldOffsetLoop (pack : Option Nat) :
    List Field → Nat → OffsetState → Option FieldOffset
  | [], _, _ => none
  | field :: _, 0, state =>
      let placed := (placeField pack state field).1
      some {
        byteOffset := placed.runningOffset
        bitOffset := placed.runningBitfieldOffset
        bitSize := field.fieldWidth }
  | field :: fields, index + 1, state =>
      fieldOffsetLoop pack fields index (offsetStep pack state field)

/-- `compute-aggregate-field-offset` of a struct. -/
def computeStructFieldOffset (fields : List Field) (pack : Option Nat)
    (fieldIndex : Nat) : Option FieldOffset :=
  if fieldIndex = 0 then
    fields.head?.map fun field =>
      { byteOffset := 0
        bitOffset := 0
        bitSize := field.fieldWidth }
  else
    fieldOffsetLoop pack fields fieldIndex OffsetState.start

/-- `compute-aggregate-field-offset` of a union. -/
def computeUnionFieldOffset : FieldOffset where
  byteOffset := 0
  bitOffset := 0
  bitSize := 0

end OpenDylan.Compiler.StructLayout
