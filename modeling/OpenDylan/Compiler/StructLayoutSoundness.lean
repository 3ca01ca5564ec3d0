import Mathlib.Algebra.Order.Group.Nat
import Mathlib.Data.List.Induction
import OpenDylan.Compiler.StructLayout

/-!
# Soundness of the layout of C structs

The loop over the offsets keeps track of the first bit that no field before has
taken.  Every field starts there or behind it, in storage that is aligned by
the field that has opened it, and the loop over the sizes is in step with it.
-/

namespace OpenDylan.Compiler.StructLayout

/-! ## Rounding up -/

theorem le_roundUpToMod (int : Nat) {modulus : Nat} (positive : 0 < modulus) :
    int ≤ roundUpToMod int modulus := by
  have parts := Nat.div_add_mod (int + modulus - 1) modulus
  have small := Nat.mod_lt (int + modulus - 1) positive
  unfold roundUpToMod
  omega

theorem dvd_roundUpToMod (int modulus : Nat) :
    modulus ∣ roundUpToMod int modulus :=
  Nat.dvd_mul_right modulus _

theorem roundUpToMod_zero (modulus : Nat) : roundUpToMod 0 modulus = 0 := by
  unfold roundUpToMod
  rcases Nat.eq_zero_or_pos modulus with zero | positive
  · rw [zero, Nat.zero_mul]
  · rw [Nat.div_eq_of_lt (by omega), Nat.mul_zero]

/-! ## Placing a field -/

/-- The alignment of a field is not zero, and its width fits into its type. -/
structure FieldIndicator.Fits (field : Field) : Prop where
  aligned : 0 < field.fieldRawType.alignment
  narrow : field.fieldWidth ≤ computeFieldSize field * addressUnitBitSize

/-- Where a field is placed. -/
def placed (pack : Option Nat) (state : OffsetState) (field : Field) :
    FieldOffset where
  byteOffset := (placeField pack state field).1.runningOffset
  bitOffset := (placeField pack state field).1.runningBitfieldOffset
  bitSize := field.fieldWidth

/-- The storage is opened behind that of the field before. -/
def opened (pack : Option Nat) (state : OffsetState) (field : Field)
    (force : Bool) : OffsetState :=
  { state with
    runningOffset := roundUpToMod
      (state.runningOffset + state.previousFieldSize)
      (adjustedAlignment pack field)
    runningBitfieldOffset := 0
    forceNewField := force }

/-- A field opens storage of its own, or shares that of the field before. -/
theorem placeField_cases (pack : Option Nat) (state : OffsetState)
    (field : Field) :
    (field.fieldWidth = 0 ∧
        placeField pack state field = (opened pack state field true, 0)) ∨
      (field.fieldWidth ≠ 0 ∧
        placeField pack state field =
          (opened pack state field false, field.fieldWidth)) ∨
      (field.fieldWidth ≠ 0 ∧ state.forceNewField = false ∧
        computeFieldSize field = state.previousFieldSize ∧
        state.runningBitfieldOffset + field.fieldWidth ≤
          computeFieldSize field * addressUnitBitSize ∧
        placeField pack state field =
          (state, state.runningBitfieldOffset + field.fieldWidth)) := by
  unfold placeField
  by_cases plain : field.fieldWidth = 0
  · left
    exact ⟨plain, if_pos plain⟩
  · right
    by_cases opens : state.forceNewField = true ∨
        computeFieldSize field ≠ state.previousFieldSize ∨
          state.runningBitfieldOffset + field.fieldWidth >
            computeFieldSize field * addressUnitBitSize
    · left
      refine ⟨plain, ?_⟩
      simp only [if_neg plain]
      exact if_pos opens
    · right
      have shares := opens
      rw [not_or, not_or, Bool.not_eq_true, not_not, Nat.not_lt] at shares
      refine ⟨plain, shares.1, shares.2.1, shares.2.2, ?_⟩
      simp only [if_neg plain]
      exact if_neg opens

/-! ## The first free bit -/

/-- The first bit of a field. -/
def FieldOffset.first (offset : FieldOffset) : Nat :=
  offset.byteOffset * addressUnitBitSize + offset.bitOffset

/-- How many bits a field takes. -/
def FieldIndicator.bits (field : Field) : Nat :=
  if field.fieldWidth = 0 then computeFieldSize field * addressUnitBitSize
  else field.fieldWidth

/-- The first bit that no field has taken. -/
def OffsetState.free (state : OffsetState) : Nat :=
  if state.forceNewField = true then
    (state.runningOffset + state.previousFieldSize) * addressUnitBitSize
  else
    state.runningOffset * addressUnitBitSize + state.runningBitfieldOffset

/-- The bits that have been taken are inside the storage. -/
def OffsetState.Inside (state : OffsetState) : Prop :=
  state.forceNewField = false →
    state.runningBitfieldOffset ≤
      state.previousFieldSize * addressUnitBitSize

theorem OffsetState.Inside.free_le {state : OffsetState}
    (inside : state.Inside) :
    state.free ≤
      (state.runningOffset + state.previousFieldSize) *
        addressUnitBitSize := by
  unfold OffsetState.free
  split
  · exact Nat.le_refl _
  · rename_i shared
    have room := inside (Bool.not_eq_true _ ▸ shared)
    rw [Nat.add_mul]
    omega

theorem adjustedAlignment_pos {pack : Option Nat} (packs : 0 < packOption pack)
    {field : Field} (fits : field.Fits) : 0 < adjustedAlignment pack field :=
  Nat.lt_min.mpr ⟨fits.aligned, packs⟩

section Steps

variable {pack : Option Nat} (packs : 0 < packOption pack)
  {state : OffsetState} {field : Field}

include packs

/-- A field starts at the first free bit or behind it, and ends where the next
free bit is. -/
theorem free_step (inside : state.Inside) (fits : field.Fits) :
    (offsetStep pack state field).Inside ∧
      state.free ≤ (placed pack state field).first ∧
      (offsetStep pack state field).free =
        (placed pack state field).first + field.bits := by
  have behind := le_roundUpToMod
    (state.runningOffset + state.previousFieldSize)
    (adjustedAlignment_pos packs fits)
  have before := inside.free_le
  have scaled := Nat.mul_le_mul_right addressUnitBitSize behind
  unfold offsetStep placed FieldOffset.first FieldIndicator.bits
  rcases placeField_cases pack state field with
    ⟨plain, places⟩ | ⟨bits, places⟩ | ⟨bits, shared, same, room, places⟩
  · rw [places]
    refine ⟨?_, ?_, ?_⟩
    · intro shared
      cases shared
    · show _ ≤ roundUpToMod _ _ * addressUnitBitSize + 0
      omega
    · rw [if_pos plain]
      show (_ + _) * addressUnitBitSize = _ + 0 + _
      rw [Nat.add_mul]
      rfl
  · rw [places]
    refine ⟨?_, ?_, ?_⟩
    · intro _
      exact fits.narrow
    · show _ ≤ roundUpToMod _ _ * addressUnitBitSize + 0
      omega
    · rw [if_neg bits]
      rfl
  · rw [places]
    refine ⟨?_, ?_, ?_⟩
    · intro _
      exact room
    · unfold OffsetState.free
      rw [if_neg (by rw [shared]; exact Bool.false_ne_true)]
    · rw [if_neg bits]
      unfold OffsetState.free
      rw [if_neg (by rw [shared]; exact Bool.false_ne_true)]
      exact (Nat.add_assoc _ _ _).symm

/-- The storage of a field is behind all that there was, up to the end of the
storage that it shares. -/
theorem extent_step (fits : field.Fits) :
    state.runningOffset + state.previousFieldSize ≤
        (offsetStep pack state field).runningOffset +
          (offsetStep pack state field).previousFieldSize ∧
      (placed pack state field).byteOffset + computeFieldSize field =
        (offsetStep pack state field).runningOffset +
          (offsetStep pack state field).previousFieldSize := by
  have behind := le_roundUpToMod
    (state.runningOffset + state.previousFieldSize)
    (adjustedAlignment_pos packs fits)
  refine ⟨?_, rfl⟩
  show _ ≤ (placeField pack state field).1.runningOffset +
    computeFieldSize field
  rcases placeField_cases pack state field with
    ⟨plain, places⟩ | ⟨bits, places⟩ | ⟨bits, shared, same, room, places⟩
  · rw [places]
    exact Nat.le_trans behind (Nat.le_add_right _ _)
  · rw [places]
    exact Nat.le_trans behind (Nat.le_add_right _ _)
  · rw [places, same]

end Steps

/-! ## The two loops -/

/-- The variables of the other loop. -/
def OffsetState.sizes (state : OffsetState) : SizeState where
  runningSize := state.runningOffset + state.previousFieldSize
  runningBitfieldOffset := state.runningBitfieldOffset
  runningAlignment := state.runningAlignment
  forceNewField := state.forceNewField
  previousFieldSize := state.previousFieldSize

/-- The two loops are in step. -/
theorem sizeStep_sizes (pack : Option Nat) (state : OffsetState)
    (field : Field) :
    sizeStep pack state.sizes field =
      (offsetStep pack state field).sizes := by
  unfold offsetStep OffsetState.sizes sizeStep placeField
  by_cases plain : field.fieldWidth = 0
  · simp only [if_pos plain]
  · simp only [if_neg plain]
    by_cases opens : state.forceNewField = true ∨
        computeFieldSize field ≠ state.previousFieldSize ∨
          state.runningBitfieldOffset + field.fieldWidth >
            computeFieldSize field * addressUnitBitSize
    · simp only [if_pos opens]
    · have same : computeFieldSize field = state.previousFieldSize := by
        rw [not_or, not_or, not_not] at opens
        exact opens.2.1
      simp only [if_neg opens]
      rw [same]

/-- The variables of the offset loop after a number of fields. -/
def stateAfter (pack : Option Nat) (fields : List Field) : OffsetState :=
  fields.foldl (offsetStep pack) OffsetState.start

theorem stateAfter_append (pack : Option Nat) (fields : List Field)
    (field : Field) :
    stateAfter pack (fields ++ [field]) =
      offsetStep pack (stateAfter pack fields) field := by
  unfold stateAfter
  rw [List.foldl_append]
  rfl

theorem foldl_sizeStep (pack : Option Nat) (fields : List Field)
    (state : OffsetState) :
    fields.foldl (sizeStep pack) state.sizes =
      (fields.foldl (offsetStep pack) state).sizes := by
  induction fields generalizing state with
  | nil => rfl
  | cons field fields ih =>
      rw [List.foldl_cons, List.foldl_cons, sizeStep_sizes]
      exact ih _

theorem foldl_runningAlignment (pack : Option Nat) (fields : List Field)
    (state : OffsetState) :
    (fields.foldl (offsetStep pack) state).runningAlignment =
      fields.foldl (fun runningAlignment field =>
        max runningAlignment (adjustedAlignment pack field))
        state.runningAlignment := by
  induction fields generalizing state with
  | nil => rfl
  | cons field fields ih =>
      rw [List.foldl_cons, List.foldl_cons, ih]
      rfl

/-- The size of a struct is the extent of its fields, rounded up to its
alignment. -/
theorem computeStructSize_eq (fields : List Field) (pack : Option Nat) :
    computeStructSize fields pack =
      roundUpToMod ((stateAfter pack fields).runningOffset +
          (stateAfter pack fields).previousFieldSize)
        (computeAggregateAlignment fields pack) := by
  have sizes := foldl_sizeStep pack fields OffsetState.start
  have alignment := foldl_runningAlignment pack fields OffsetState.start
  unfold computeStructSize computeAggregateAlignment stateAfter
  change fields.foldl (sizeStep pack) ⟨0, 0, 1, true, 0⟩ = _ at sizes
  rw [sizes]
  exact congrArg (roundUpToMod _) alignment

theorem fieldOffsetLoop_eq (pack : Option Nat) (fields : List Field)
    (index : Nat) (state : OffsetState) :
    fieldOffsetLoop pack fields index state =
      fields[index]?.map fun field =>
        placed pack ((fields.take index).foldl (offsetStep pack) state)
          field := by
  induction fields generalizing index state with
  | nil => rfl
  | cons field fields ih =>
      cases index with
      | zero => rfl
      | succ index =>
          rw [fieldOffsetLoop, ih]
          rfl

/-- The first field starts the struct. -/
theorem placed_start (pack : Option Nat) (field : Field) :
    placed pack OffsetState.start field =
      { byteOffset := 0
        bitOffset := 0
        bitSize := field.fieldWidth } := by
  unfold placed
  rcases placeField_cases pack OffsetState.start field with
    ⟨plain, places⟩ | ⟨bits, places⟩ | ⟨bits, shared, -⟩
  · rw [places]
    show (⟨roundUpToMod 0 _, 0, _⟩ : FieldOffset) = _
    rw [roundUpToMod_zero]
  · rw [places]
    show (⟨roundUpToMod 0 _, 0, _⟩ : FieldOffset) = _
    rw [roundUpToMod_zero]
  · cases shared

/-- The offset of a field depends on the fields before it. -/
theorem computeStructFieldOffset_eq (fields : List Field)
    (pack : Option Nat) (index : Nat) :
    computeStructFieldOffset fields pack index =
      fields[index]?.map fun field =>
        placed pack (stateAfter pack (fields.take index)) field := by
  unfold computeStructFieldOffset
  cases index with
  | zero =>
      rw [if_pos rfl]
      cases fields with
      | nil => rfl
      | cons field fields =>
          exact congrArg some (placed_start pack field).symm
  | succ index =>
      rw [if_neg (Nat.succ_ne_zero index), fieldOffsetLoop_eq]
      rfl

/-! ## All fields -/

section Layout

variable {pack : Option Nat} (packs : 0 < packOption pack)
  {fields : List Field} (fits : ∀ field ∈ fields, field.Fits)

include packs fits

theorem stateAfter_inside : (stateAfter pack fields).Inside := by
  induction fields using List.reverseRecOn with
  | nil => intro shared; cases shared
  | append_singleton fields field ih =>
      rw [stateAfter_append]
      exact (free_step packs
        (ih fun other member => fits other (List.mem_append_left _ member))
        (fits field (by simp))).1

/-- One field after another: where the next one is placed, and what it leaves
behind. -/
theorem layout_step {index : Nat} {field : Field}
    (found : fields[index]? = some field) :
    stateAfter pack (fields.take (index + 1)) =
        offsetStep pack (stateAfter pack (fields.take index)) field ∧
      (stateAfter pack (fields.take index)).free ≤
        (placed pack (stateAfter pack (fields.take index)) field).first ∧
      (stateAfter pack (fields.take (index + 1))).free =
        (placed pack (stateAfter pack (fields.take index)) field).first +
          field.bits := by
  have next : fields.take (index + 1) = fields.take index ++ [field] := by
    rw [List.take_add_one, found]
    rfl
  have inside := @stateAfter_inside pack packs (fields.take index)
    fun other member => fits other (List.mem_of_mem_take member)
  have step := free_step packs inside
    (fits field (List.mem_of_getElem? found))
  have state : stateAfter pack (fields.take (index + 1)) =
      offsetStep pack (stateAfter pack (fields.take index)) field := by
    rw [next, stateAfter_append]
  rw [state]
  exact ⟨rfl, step.2⟩

/-- What is free stays free of the fields before. -/
theorem free_mono {index later : Nat} (before : index ≤ later)
    (inside : later ≤ fields.length) :
    (stateAfter pack (fields.take index)).free ≤
      (stateAfter pack (fields.take later)).free := by
  induction later, before using Nat.le_induction with
  | base => exact Nat.le_refl _
  | succ later before ih =>
      have step := layout_step packs fits
        (List.getElem?_eq_getElem (Nat.lt_of_succ_le inside))
      have first := ih (Nat.le_of_succ_le inside)
      rw [step.2.2]
      exact Nat.le_trans first (Nat.le_trans step.2.1 (Nat.le_add_right _ _))

theorem extent_mono {index later : Nat} (before : index ≤ later)
    (inside : later ≤ fields.length) :
    (stateAfter pack (fields.take index)).runningOffset +
        (stateAfter pack (fields.take index)).previousFieldSize ≤
      (stateAfter pack (fields.take later)).runningOffset +
        (stateAfter pack (fields.take later)).previousFieldSize := by
  induction later, before using Nat.le_induction with
  | base => exact Nat.le_refl _
  | succ later before ih =>
      have found := List.getElem?_eq_getElem (Nat.lt_of_succ_le inside)
      have step := layout_step packs fits found
      have first := ih (Nat.le_of_succ_le inside)
      rw [step.1]
      exact Nat.le_trans first
        (extent_step packs (fits _ (List.mem_of_getElem? found))).1

end Layout

/-- A field of the struct and its offset. -/
structure At (fields : List Field) (pack : Option Nat) (index : Nat)
    (field : Field) (offset : FieldOffset) : Prop where
  field_eq : fields[index]? = some field
  offset_eq : computeStructFieldOffset fields pack index = some offset

section Offsets

variable {pack : Option Nat} {fields : List Field} {index : Nat}
  {field : Field} {offset : FieldOffset}

theorem At.inside (here : At fields pack index field offset) :
    index < fields.length :=
  (List.getElem?_eq_some_iff.mp here.field_eq).1

theorem At.placed_eq (here : At fields pack index field offset) :
    placed pack (stateAfter pack (fields.take index)) field = offset := by
  have found := here.offset_eq
  rw [computeStructFieldOffset_eq, here.field_eq] at found
  exact Option.some.inj found

theorem at_of_getElem? (found : fields[index]? = some field) :
    At fields pack index field
      (placed pack (stateAfter pack (fields.take index)) field) where
  field_eq := found
  offset_eq := by
    rw [computeStructFieldOffset_eq, found]
    rfl

/-- The field that has opened the storage which a field is placed in. -/
structure Opener (fields : List Field) (pack : Option Nat) (index : Nat)
    (field : Field) (offset : FieldOffset) (opener : Nat) : Prop where
  before : opener ≤ index
  place : ∃ first place, At fields pack opener first place ∧
    place.byteOffset = offset.byteOffset ∧ place.bitOffset = 0 ∧
    computeFieldSize first = computeFieldSize field ∧
    (opener ≠ index → first.fieldWidth ≠ 0 ∧ field.fieldWidth ≠ 0) ∧
    adjustedAlignment pack first ∣ offset.byteOffset

/-- Storage of a field of its own. -/
theorem opener_self (here : At fields pack index field offset)
    {force : Bool} {next : Nat}
    (places : placeField pack (stateAfter pack (fields.take index)) field =
      (opened pack (stateAfter pack (fields.take index)) field force,
        next)) :
    Opener fields pack index field offset index := by
  refine ⟨Nat.le_refl _, field, offset, here, rfl, ?_, rfl,
    fun other => absurd rfl other, ?_⟩
  · rw [← here.placed_eq, placed, places]
    rfl
  · rw [← here.placed_eq, placed, places]
    exact dvd_roundUpToMod _ _

/-- Every storage has been opened by a field, and is aligned by it. -/
theorem exists_opener (here : At fields pack index field offset) :
    ∃ opener, Opener fields pack index field offset opener := by
  induction index generalizing field offset with
  | zero =>
      rcases placeField_cases pack (stateAfter pack (fields.take 0)) field
        with ⟨-, places⟩ | ⟨-, places⟩ | ⟨-, shared, -⟩
      · exact ⟨0, opener_self here places⟩
      · exact ⟨0, opener_self here places⟩
      · cases shared
  | succ index ih =>
      rcases placeField_cases pack
        (stateAfter pack (fields.take (index + 1))) field with
        ⟨-, places⟩ | ⟨-, places⟩ | ⟨bits, shared, same, -, places⟩
      · exact ⟨index + 1, opener_self here places⟩
      · exact ⟨index + 1, opener_self here places⟩
      · -- The storage is that of the field before.
        have inside : index < fields.length :=
          Nat.lt_of_succ_lt here.inside
        have found := List.getElem?_eq_getElem inside
        have earlier := @at_of_getElem? pack fields index fields[index] found
        obtain ⟨opener, before, first, place, there, byte, bit, size, width,
          aligned⟩ := ih earlier
        have next : stateAfter pack (fields.take (index + 1)) =
            offsetStep pack (stateAfter pack (fields.take index))
              fields[index] := by
          rw [List.take_add_one, found, ← stateAfter_append]
          rfl
        have byteSame : offset.byteOffset = (placed pack (stateAfter pack
            (fields.take index)) fields[index]).byteOffset := by
          rw [← here.placed_eq, placed, places, next]
          rfl
        have sizeSame : computeFieldSize field =
            computeFieldSize fields[index] := by
          rw [same, next]
          rfl
        have widthToo : fields[index].fieldWidth ≠ 0 := by
          intro plain
          rw [next] at shared
          rcases placeField_cases pack (stateAfter pack (fields.take index))
            fields[index] with ⟨-, places⟩ | ⟨bits, -⟩ | ⟨bits, -⟩
          · change (placeField pack _ fields[index]).1.forceNewField = false
              at shared
            rw [places] at shared
            cases shared
          · exact bits plain
          · exact bits plain
        refine ⟨opener, Nat.le_succ_of_le before, first, place, there,
          byte.trans byteSame.symm, bit, size.trans sizeSame.symm, ?_, ?_⟩
        · intro _
          refine ⟨?_, bits⟩
          by_cases self : opener = index
          · subst self
            have fieldSame : first = fields[opener] := by
              have firstFound := there.field_eq
              rw [found] at firstFound
              exact (Option.some.inj firstFound).symm
            rw [fieldSame]
            exact widthToo
          · exact (width self).1
        · rw [byteSame]
          exact aligned

end Offsets

/-! ## Powers of two -/

theorem max_two_pow (left right : Nat) :
    max (2 ^ left) (2 ^ right) = 2 ^ max left right := by
  rcases Nat.le_total left right with le | le
  · have powers := Nat.pow_le_pow_right Nat.two_pos le
    rw [Nat.max_eq_right le, Nat.max_eq_right powers]
  · have powers := Nat.pow_le_pow_right Nat.two_pos le
    rw [Nat.max_eq_left le, Nat.max_eq_left powers]

theorem min_two_pow (left right : Nat) :
    min (2 ^ left) (2 ^ right) = 2 ^ min left right := by
  rcases Nat.le_total left right with le | le
  · have powers := Nat.pow_le_pow_right Nat.two_pos le
    rw [Nat.min_eq_left le, Nat.min_eq_left powers]
  · have powers := Nat.pow_le_pow_right Nat.two_pos le
    rw [Nat.min_eq_right le, Nat.min_eq_right powers]

/-- The alignment of the struct is a multiple of that of every field. -/
theorem foldl_alignment {pack : Option Nat} {fields : List Field}
    (powers : ∀ field ∈ fields, ∃ power,
      adjustedAlignment pack field = 2 ^ power) (first : Nat) :
    ∃ last, first ≤ last ∧
      fields.foldl (fun runningAlignment field =>
        max runningAlignment (adjustedAlignment pack field)) (2 ^ first) =
          2 ^ last ∧
      ∀ field ∈ fields, adjustedAlignment pack field ∣ 2 ^ last := by
  induction fields generalizing first with
  | nil =>
      refine ⟨first, Nat.le_refl _, rfl, ?_⟩
      intro field member
      cases member
  | cons field fields ih =>
      obtain ⟨power, isPower⟩ := powers field (List.mem_cons_self ..)
      obtain ⟨last, atLeast, folds, divides⟩ := ih
        (fun other member => powers other (List.mem_cons_of_mem _ member))
        (max first power)
      refine ⟨last, Nat.le_trans (Nat.le_max_left _ _) atLeast, ?_, ?_⟩
      · rw [List.foldl_cons, isPower, max_two_pow]
        exact folds
      · intro other member
        rcases List.mem_cons.mp member with isField | member
        · rw [isField, isPower]
          exact Nat.pow_dvd_pow 2
            (Nat.le_trans (Nat.le_max_right _ _) atLeast)
        · exact divides other member

theorem adjustedAlignment_power {pack : Option Nat} {field : Field}
    (packs : ∃ power, packOption pack = 2 ^ power)
    (aligned : ∃ power, field.fieldRawType.alignment = 2 ^ power) :
    ∃ power, adjustedAlignment pack field = 2 ^ power := by
  obtain ⟨packed, isPacked⟩ := packs
  obtain ⟨own, isOwn⟩ := aligned
  refine ⟨min own packed, ?_⟩
  unfold adjustedAlignment
  rw [isOwn, isPacked, min_two_pow]

/-- The alignment of a field is a power of two, and its width fits into its
type. -/
structure FieldIndicator.Sound (field : Field) : Prop where
  power : ∃ power, field.fieldRawType.alignment = 2 ^ power
  narrow : field.fieldWidth ≤ computeFieldSize field * addressUnitBitSize

theorem FieldIndicator.Sound.fits {field : Field} (sound : field.Sound) :
    field.Fits where
  aligned := by
    obtain ⟨power, isPower⟩ := sound.power
    rw [isPower]
    exact Nat.two_pow_pos power
  narrow := sound.narrow

theorem aggregate_power {pack : Option Nat} {fields : List Field}
    (packs : ∃ power, packOption pack = 2 ^ power)
    (sound : ∀ field ∈ fields, field.Sound) :
    ∃ power, computeAggregateAlignment fields pack = 2 ^ power := by
  obtain ⟨last, -, folds, -⟩ := @foldl_alignment pack fields
    (fun field member =>
      adjustedAlignment_power packs (sound field member).power) 0
  exact ⟨last, folds⟩

mutual

/-- A raw type with powers of two for alignments and pack options, where
bitfields fit into their types. -/
def RawType.Sensible : RawType → Prop
  | .basic _ alignment => ∃ power, alignment = 2 ^ power
  | .struct fields pack =>
      SensibleFields fields ∧ ∃ power, packOption pack = 2 ^ power
  | .union fields pack =>
      SensibleFields fields ∧ ∃ power, packOption pack = 2 ^ power

/-- All fields are sensible. -/
def SensibleFields : List (FieldIndicator RawType) → Prop
  | [] => True
  | field :: fields => SensibleField field ∧ SensibleFields fields

/-- The raw type of a field is sensible. -/
def SensibleField : FieldIndicator RawType → Prop
  | .simple rawType => rawType.Sensible
  | .bitfield rawType width =>
      rawType.Sensible ∧ width ≤ rawType.info.size * addressUnitBitSize
  | .repeated rawType _ => rawType.Sensible

end

mutual

/-- The alignment of a sensible raw type is a power of two. -/
theorem RawType.Sensible.alignment : ∀ (rawType : RawType),
    rawType.Sensible → ∃ power, rawType.info.alignment = 2 ^ power
  | .basic _ _, sensible => sensible
  | .struct fields _, sensible =>
      aggregate_power sensible.2 (SensibleFields.fits fields sensible.1)
  | .union fields _, sensible =>
      aggregate_power sensible.2 (SensibleFields.fits fields sensible.1)

/-- The fields of a sensible aggregate fit. -/
theorem SensibleFields.fits : ∀ (fields : List (FieldIndicator RawType)),
    SensibleFields fields → ∀ field ∈ fieldInfos fields, field.Sound
  | [], _, _, member => by cases member
  | field :: fields, sensible, other, member => by
      rcases List.mem_cons.mp member with isField | member
      · rw [isField]
        exact SensibleField.fits field sensible.1
      · exact SensibleFields.fits fields sensible.2 other member

/-- A sensible field fits. -/
theorem SensibleField.fits : ∀ (field : FieldIndicator RawType),
    SensibleField field → (fieldInfo field).Sound
  | .simple rawType, sensible =>
      ⟨RawType.Sensible.alignment rawType sensible, Nat.zero_le _⟩
  | .bitfield rawType _, sensible =>
      ⟨RawType.Sensible.alignment rawType sensible.1, sensible.2⟩
  | .repeated rawType _, sensible =>
      ⟨RawType.Sensible.alignment rawType sensible, Nat.zero_le _⟩

end

/-! ## Structs -/

/-- What the layout of a struct has to be: the bits of the fields are apart and
in order, every field is inside storage that is aligned by the field that has
opened it and is inside the struct, and the size of the struct is a multiple of
all alignments. -/
structure LayoutSound (fields : List Field) (pack : Option Nat)
    (info : RawTypeInfo) : Prop where
  total : ∀ index field, fields[index]? = some field →
    ∃ offset, At fields pack index field offset
  apart : ∀ index later first second place behind, index < later →
    At fields pack index first place → At fields pack later second behind →
      place.first + first.bits ≤ behind.first
  within : ∀ index field offset, At fields pack index field offset →
    offset.bitSize = field.fieldWidth ∧
      offset.bitOffset + field.bits ≤
        computeFieldSize field * addressUnitBitSize ∧
      offset.byteOffset + computeFieldSize field ≤ info.size
  storage : ∀ index field offset, At fields pack index field offset →
    ∃ opener, Opener fields pack index field offset opener
  aligned : ∀ index field offset, At fields pack index field offset →
    (∀ other ∈ fields, other.fieldWidth ≠ 0 →
      computeFieldSize other = computeFieldSize field →
        other.fieldRawType.alignment = field.fieldRawType.alignment) →
      adjustedAlignment pack field ∣ offset.byteOffset
  whole : info.alignment ∣ info.size
  arrays : ∀ field ∈ fields, adjustedAlignment pack field ∣ info.size

section Sound

variable {pack : Option Nat} {fields : List Field}
  (packs : ∃ power, packOption pack = 2 ^ power)
  (sound : ∀ field ∈ fields, field.Sound)

include packs sound

theorem layout_apart {index later : Nat} {first second : Field}
    {place behind : FieldOffset} (before : index < later)
    (here : At fields pack index first place)
    (there : At fields pack later second behind) :
    place.first + first.bits ≤ behind.first := by
  have positive : 0 < packOption pack := by
    obtain ⟨power, isPower⟩ := packs
    rw [isPower]
    exact Nat.two_pow_pos power
  have fits := fun field member => (sound field member).fits
  have step := layout_step positive fits here.field_eq
  have next := layout_step positive fits there.field_eq
  have between := free_mono positive fits (Nat.succ_le_of_lt before)
    (Nat.le_of_lt there.inside)
  rw [here.placed_eq] at step
  rw [there.placed_eq] at next
  rw [step.2.2] at between
  exact Nat.le_trans between next.2.1

/-- The bits of a field are inside its storage, which is inside the struct. -/
theorem layout_within {index : Nat} {field : Field} {offset : FieldOffset}
    (here : At fields pack index field offset) :
    offset.bitSize = field.fieldWidth ∧
      offset.bitOffset + field.bits ≤
        computeFieldSize field * addressUnitBitSize ∧
      offset.byteOffset + computeFieldSize field ≤
        computeStructSize fields pack := by
  have positive : 0 < packOption pack := by
    obtain ⟨power, isPower⟩ := packs
    rw [isPower]
    exact Nat.two_pow_pos power
  have fits := fun field member => (sound field member).fits
  have member := List.mem_of_getElem? here.field_eq
  have step := layout_step positive fits here.field_eq
  have extent := @extent_step pack positive
    (stateAfter pack (fields.take index)) field (fits field member)
  have all := extent_mono positive fits (Nat.succ_le_of_lt here.inside)
    (Nat.le_refl _)
  have alignment : 0 < computeAggregateAlignment fields pack := by
    obtain ⟨power, isPower⟩ := aggregate_power packs sound
    rw [isPower]
    exact Nat.two_pow_pos power
  have rounded := le_roundUpToMod ((stateAfter pack fields).runningOffset +
    (stateAfter pack fields).previousFieldSize) alignment
  refine ⟨?_, ?_, ?_⟩
  · rw [← here.placed_eq]
    rfl
  · have narrow := (sound field member).narrow
    rw [← here.placed_eq, placed]
    unfold FieldIndicator.bits
    rcases placeField_cases pack (stateAfter pack (fields.take index)) field
      with ⟨plain, places⟩ | ⟨bits, places⟩ | ⟨bits, -, -, room, places⟩
    · rw [if_pos plain, places]
      exact Nat.le_of_eq (Nat.zero_add _)
    · rw [if_neg bits, places]
      exact Nat.le_trans (Nat.le_of_eq (Nat.zero_add _)) narrow
    · rw [if_neg bits, places]
      exact room
  · rw [here.placed_eq, ← step.1] at extent
    rw [List.take_length] at all
    rw [computeStructSize_eq, extent.2]
    exact Nat.le_trans all rounded

/-- A field is aligned by its own type if that is aligned like the others of
its size that have a width. -/
theorem layout_aligned {index : Nat} {field : Field} {offset : FieldOffset}
    (here : At fields pack index field offset)
    (alike : ∀ other ∈ fields, other.fieldWidth ≠ 0 →
      computeFieldSize other = computeFieldSize field →
        other.fieldRawType.alignment = field.fieldRawType.alignment) :
    adjustedAlignment pack field ∣ offset.byteOffset := by
  obtain ⟨opener, before, first, place, there, -, -, size, widths,
    divides⟩ := exists_opener here
  by_cases self : opener = index
  · subst self
    have same := there.field_eq
    rw [here.field_eq] at same
    rw [Option.some.inj same]
    exact divides
  · have same := alike first (List.mem_of_getElem? there.field_eq)
      (widths self).1 size
    unfold adjustedAlignment at divides ⊢
    rw [← same]
    exact divides

theorem layout_sound :
    LayoutSound fields pack
      { size := computeStructSize fields pack
        alignment := computeAggregateAlignment fields pack } where
  total index field found := ⟨_, at_of_getElem? found⟩
  apart _ _ _ _ _ _ before here there :=
    layout_apart packs sound before here there
  within _ _ _ here := layout_within packs sound here
  storage _ _ _ here := exists_opener here
  aligned _ _ _ here alike := layout_aligned packs sound here alike
  whole := by
    rw [computeStructSize_eq]
    exact dvd_roundUpToMod _ _
  arrays field member := by
    obtain ⟨last, -, folds, divides⟩ := @foldl_alignment pack fields
      (fun field member =>
        adjustedAlignment_power packs (sound field member).power) 0
    have alignment : computeAggregateAlignment fields pack = 2 ^ last := folds
    show _ ∣ computeStructSize fields pack
    rw [computeStructSize_eq, alignment]
    exact Nat.dvd_trans (divides field member) (dvd_roundUpToMod _ _)

end Sound

/-- The layout of every sensible struct is sound. -/
theorem struct_layout (fields : List (FieldIndicator RawType))
    (pack : Option Nat) (sensible : (RawType.struct fields pack).Sensible) :
    LayoutSound (fieldInfos fields) pack (RawType.struct fields pack).info :=
  layout_sound sensible.2 (SensibleFields.fits fields sensible.1)

/-- A character, two bitfields, an array and a packed struct. -/
def mixedFields : List (FieldIndicator RawType) :=
  [.simple (.basic 1 1), .bitfield (.basic 4 4) 3, .bitfield (.basic 4 4) 5,
    .repeated (.basic 2 2) 3, .simple (.struct [.simple (.basic 8 8)] (some 4))]

theorem struct_layout_mixed :
    LayoutSound (fieldInfos mixedFields) none
      (RawType.struct mixedFields none).info :=
  struct_layout mixedFields none
    ⟨⟨⟨0, rfl⟩, ⟨⟨2, rfl⟩, by decide⟩, ⟨⟨2, rfl⟩, by decide⟩, ⟨1, rfl⟩,
      ⟨⟨⟨3, rfl⟩, trivial⟩, ⟨2, rfl⟩⟩, trivial⟩, ⟨3, rfl⟩⟩

example : (fieldInfos mixedFields).length = 5 ∧
    computeStructFieldOffset (fieldInfos mixedFields) none 2 =
      some { byteOffset := 4, bitOffset := 3, bitSize := 5 } ∧
    (RawType.struct mixedFields none).info =
      { size := 24, alignment := 4 } := by
  refine ⟨rfl, ?_, ?_⟩
  · rfl
  · rfl

end OpenDylan.Compiler.StructLayout
