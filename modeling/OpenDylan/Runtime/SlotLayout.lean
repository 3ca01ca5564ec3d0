import Mathlib.Data.List.Nodup

/-!
# The layout of slots

`compute-slot-descriptors` passes over the slots of all superclasses twice, from
the last superclass to the class itself.  The first pass drops slots whose
getter was seen before and counts the others; the second pass puts the slots of
the superclasses that the first primary superclass does not have into the first
free places, after those that it has.

A repeated slot needs a place for its size.
-/

namespace OpenDylan.Runtime.SlotLayout

/-! ## Slots and classes -/

/-- `slot-allocation` -/
inductive Allocation where
  | instance_
  | eachSubclass
  | class_
  | virtual
  | repeated
deriving DecidableEq

/-- A `<slot-descriptor>`.  A slot without a getter has `#f`; a repeated slot has
the getter of its size slot. -/
structure SlotDescriptor (Getter : Type) where
  identity : Nat
  slotGetter : Option Getter
  slotAllocation : Allocation
  sizeGetter : Option Getter
deriving DecidableEq

/-- `size-slot-descriptor` -/
def SlotDescriptor.sizeSlotDescriptor {Getter : Type}
    (sd : SlotDescriptor Getter) : SlotDescriptor Getter :=
  { identity := sd.identity
    slotGetter := sd.sizeGetter
    slotAllocation := .instance_
    sizeGetter := none }

/-- Classes with their precedence lists and direct slots. -/
structure SlotGraph (Class Getter : Type) where
  /-- `all-superclasses`, the class first. -/
  allSuperclasses : Class → List Class
  head : ∀ class_, (allSuperclasses class_).head? = some class_
  nodup : ∀ class_, (allSuperclasses class_).Nodup
  trans : ∀ {lower middle upper}, middle ∈ allSuperclasses lower →
    upper ∈ allSuperclasses middle → upper ∈ allSuperclasses lower
  /-- `class-primary?` -/
  isPrimary : Class → Bool
  /-- Primary superclasses are checked to be superclasses of the first one. -/
  primaries : ∀ {class_ first sup},
    (allSuperclasses class_).tail.find? isPrimary = some first →
      sup ∈ (allSuperclasses class_).tail → isPrimary sup = true →
        sup ∈ allSuperclasses first
  directSlotDescriptors : Class → List (SlotDescriptor Getter)

/-- What is computed for a class; `#f` fills the vectors at first. -/
structure Layout (Getter : Type) where
  slotDescriptors : List (SlotDescriptor Getter)
  instanceSlotDescriptors : List (Option (SlotDescriptor Getter))
  classSlotDescriptors : List (Option (SlotDescriptor Getter))
  repeatedSlotDescriptor : Option (SlotDescriptor Getter)
  instanceStorageSize : Nat
deriving DecidableEq

/-- The errors, in the order of the code. -/
inductive SlotError where
  | duplicatedSlotSpecs
  | respecifiesSlot
  | multipleRepeatedSlots
  | slotConflict
  | ranOutOfSpace
  | sizeSlotInUse
  | outOfRange
deriving DecidableEq

/-! ## The pass that counts -/

/-- What the first pass collects. -/
structure Collected (Getter : Type) where
  allSlots : List (SlotDescriptor Getter)
  icount : Nat
  ccount : Nat
  repeater : Option (SlotDescriptor Getter)

section Passes

variable {Class Getter : Type} [DecidableEq Getter]

/-- One slot in `collect-superclass-slots`. -/
def collectSlot (collected : Collected Getter) (sd : SlotDescriptor Getter) :
    Except SlotError (Collected Getter) :=
  if collected.allSlots.any fun osd => sd.slotGetter = osd.slotGetter then
    .ok collected
  else
    let collected :=
      { collected with allSlots := collected.allSlots ++ [sd] }
    match sd.slotAllocation with
    | .instance_ => .ok { collected with icount := collected.icount + 1 }
    | .eachSubclass => .ok { collected with ccount := collected.ccount + 1 }
    | .class_ => .ok { collected with ccount := collected.ccount + 1 }
    | .virtual => .ok collected
    | .repeated =>
        match collected.repeater with
        | some _ => .error .multipleRepeatedSlots
        | none =>
            .ok
              { collected with
                repeater := some sd
                icount := collected.icount + 1 }

/-- `collect-superclass-slots` -/
def SlotGraph.collectSuperclassSlots (graph : SlotGraph Class Getter) :
    List Class → Collected Getter → Except SlotError (Collected Getter)
  | [], collected => .ok collected
  | class_ :: superclasses, collected => do
      let collected ← graph.collectSuperclassSlots superclasses collected
      (graph.directSlotDescriptors class_).foldlM collectSlot collected

/-! ## The pass that allocates -/

/-- `merge-vectors` -/
def mergeVectors :
    List (Option (SlotDescriptor Getter)) →
      List (Option (SlotDescriptor Getter)) →
      Except SlotError (List (Option (SlotDescriptor Getter)))
  | into, [] => .ok into
  | [], none :: from_ => mergeVectors [] from_
  | [], some _ :: _ => .error .outOfRange
  | sd :: into, none :: from_ => do
      let rest ← mergeVectors into from_
      return sd :: rest
  | some sd :: into, some supsd :: from_ =>
      if supsd.slotGetter = sd.slotGetter then do
        let rest ← mergeVectors into from_
        return some sd :: rest
      else
        .error .slotConflict
  | none :: into, some supsd :: from_ => do
      let rest ← mergeVectors into from_
      return some supsd :: rest

/-- `position-slot` -/
def positionSlot (sd : SlotDescriptor Getter) :
    List (Option (SlotDescriptor Getter)) →
      Except SlotError (List (Option (SlotDescriptor Getter)))
  | [] => .error .ranOutOfSpace
  | none :: vec => .ok (some sd :: vec)
  | some other :: vec => do
      let rest ← positionSlot sd vec
      return some other :: rest

/-- The size slot of the repeated slot goes to the last place. -/
def positionSizeSlot (repeater : Option (SlotDescriptor Getter))
    (ivector : List (Option (SlotDescriptor Getter))) (icount : Nat) :
    Except SlotError (List (Option (SlotDescriptor Getter))) :=
  if icount = 0 then
    .error .outOfRange
  else
    match ivector[icount - 1]? with
    | none => .error .outOfRange
    | some (some _) => .error .sizeSlotInUse
    | some none =>
        .ok (ivector.set (icount - 1)
          (repeater.map SlotDescriptor.sizeSlotDescriptor))

/-- The two vectors in which slots are placed. -/
structure Vectors (Getter : Type) where
  ivector : List (Option (SlotDescriptor Getter))
  cvector : List (Option (SlotDescriptor Getter))

/-- One slot in `allocate-superclass-slots`. -/
def allocateSlot (collected : Collected Getter) (vectors : Vectors Getter)
    (sd : SlotDescriptor Getter) : Except SlotError (Vectors Getter) :=
  match sd.slotAllocation with
  | .instance_ => do
      let ivector ← positionSlot sd vectors.ivector
      return { vectors with ivector := ivector }
  | .eachSubclass => do
      let cvector ← positionSlot sd vectors.cvector
      return { vectors with cvector := cvector }
  | .class_ => do
      let cvector ← positionSlot sd vectors.cvector
      return { vectors with cvector := cvector }
  | .virtual => .ok vectors
  | .repeated => do
      let ivector ← positionSizeSlot collected.repeater vectors.ivector
        collected.icount
      return { vectors with ivector := ivector }

variable [DecidableEq Class]

/-- `first-primary` -/
def SlotGraph.firstPrimary (graph : SlotGraph Class Getter) (class_ : Class) :
    Option Class :=
  (graph.allSuperclasses class_).tail.find? graph.isPrimary

/-- The first primary superclass is a subtype of the class. -/
def SlotGraph.inherited (graph : SlotGraph Class Getter)
    (firstPrimary : Option Class) (class_ : Class) : Bool :=
  firstPrimary.any fun first => class_ ∈ graph.allSuperclasses first

/-- `allocate-superclass-slots` -/
def SlotGraph.allocateSuperclassSlots (graph : SlotGraph Class Getter)
    (firstPrimary : Option Class) (collected : Collected Getter) :
    List Class → Vectors Getter → Except SlotError (Vectors Getter)
  | [], vectors => .ok vectors
  | class_ :: superclasses, vectors => do
      let vectors ← graph.allocateSuperclassSlots firstPrimary collected
        superclasses vectors
      if graph.inherited firstPrimary class_ then
        return vectors
      else
        (graph.directSlotDescriptors class_).foldlM (allocateSlot collected)
          vectors

/-- The vectors after `merge-vectors`. -/
def initialVectors (collected : Collected Getter)
    (primaryLayout : Option (Layout Getter)) :
    Except SlotError (Vectors Getter) :=
  let ivector := List.replicate collected.icount none
  let cvector := List.replicate collected.ccount none
  match primaryLayout with
  | none => .ok { ivector := ivector, cvector := cvector }
  | some layout => do
      let ivector ← mergeVectors ivector layout.instanceSlotDescriptors
      let cvector ← mergeVectors cvector layout.classSlotDescriptors
      return { ivector := ivector, cvector := cvector }

/-- `compute-slot-descriptors`, from the layouts of the superclasses. -/
def SlotGraph.computeSlotDescriptors (graph : SlotGraph Class Getter)
    (layouts : Class → Option (Layout Getter)) (class_ : Class) :
    Except SlotError (Layout Getter) := do
  let superclasses := graph.allSuperclasses class_
  let firstPrimary := graph.firstPrimary class_
  let collected ← graph.collectSuperclassSlots superclasses
    { allSlots := [], icount := 0, ccount := 0, repeater := none }
  let vectors ← initialVectors collected (firstPrimary.bind layouts)
  let vectors ← graph.allocateSuperclassSlots firstPrimary collected
    superclasses vectors
  return {
    slotDescriptors := collected.allSlots
    instanceSlotDescriptors := vectors.ivector
    classSlotDescriptors := vectors.cvector
    repeatedSlotDescriptor := collected.repeater
    instanceStorageSize := collected.icount }

/-! ## Definitions of classes -/

/-- `check-for-duplicated-slots` -/
def duplicatedSlots : List (SlotDescriptor Getter) → Bool
  | [] => false
  | sd :: slotvec =>
      slotvec.any (fun other => sd.slotGetter = other.slotGetter) ||
        duplicatedSlots slotvec

/-- `check-for-illegally-inherited-slots` -/
def SlotGraph.respecifiesSlot (graph : SlotGraph Class Getter)
    (class_ : Class) : Bool :=
  (graph.directSlotDescriptors class_).any fun sd =>
    (graph.allSuperclasses class_).tail.any fun superclass =>
      (graph.directSlotDescriptors superclass).any fun osd =>
        sd.slotGetter = osd.slotGetter

/-- The checks on slots, and the layout, in
`do-implementation-class-cross-class-initializations`. -/
def SlotGraph.initializeClass (graph : SlotGraph Class Getter)
    (layouts : Class → Option (Layout Getter)) (class_ : Class) :
    Except SlotError (Layout Getter) :=
  if duplicatedSlots (graph.directSlotDescriptors class_) then
    .error .duplicatedSlotSpecs
  else if graph.respecifiesSlot class_ then
    .error .respecifiesSlot
  else
    graph.computeSlotDescriptors layouts class_

end Passes

end OpenDylan.Runtime.SlotLayout
