import OpenDylan.Lib.PairList

/-!
# Def-use chains

A computation refers to the values it uses through its temporary slots, some
of which hold a vector of value references.  Every value reference lists its
users, with one entry for each operand; the mutators adjust these lists by
hand at each operand they change.  The lists are made of pairs that are edited
in place, and vectors are objects that several slots may hold.

Only the parts that the lists of users depend on are kept: the queue of
computations to be optimized again, names, environments and the deletion of
function bodies that lose their last reference are left out.
-/

namespace OpenDylan.Compiler.DefUseChains

open OpenDylan.Lib

/-! ## Computation classes -/

/-- The slots declared `temporary` in some computation class. -/
inductive SlotName where
  | arguments
  | computationCell
  | computationClosure
  | computationIndex
  | computationInstance
  | computationNewValue
  | computationSignatureValue
  | computationTestValue
  | computationValue
  | engineNode
  | entryState
  | fixedValues
  | function
  | guaranteedType
  | keywordDefaultValueKeywordVariable
  | mergeLeftValue
  | mergeRightValue
  | nextMethods
  | restType
  | restValue
  | returnTemp
  | test
  | type
  | types
  | wssSizeTemp
deriving DecidableEq

/-- The declaration of a temporary slot; only some give the slot a type. -/
structure TemporarySlot where
  name : SlotName
  typed : Bool
deriving DecidableEq

/-- `temporary slot name :: type` -/
def typedSlot (name : SlotName) : TemporarySlot := ⟨name, true⟩

/-- `temporary slot name` -/
def untypedSlot (name : SlotName) : TemporarySlot := ⟨name, false⟩

/-- The instantiable computation classes. -/
inductive ComputationClass where
  | nop
  | variableReference
  | interactorBindingReference
  | makeClosure
  | initializeClosure
  | definition
  | redefinition
  | set
  | conditionalUpdate
  | typeDefinition
  | typeRedefinition
  | temporaryTransfer
  | keywordDefault
  | ifMerge
  | loopMerge
  | bindExitMerge
  | slotValue
  | slotValueSetter
  | repeatedSlotValue
  | repeatedSlotValueSetter
  | stackVector
  | primitiveCall
  | primitiveIndirectCall
  | cVariablePointerCall
  | simpleCall
  | methodCall
  | engineNodeCall
  | apply
  | methodApply
  | engineNodeApply
  | if
  | bindExit
  | unwindProtect
  | return
  | exit
  | endExitBlock
  | endProtectedBlock
  | endCleanupBlock
  | loop
  | endLoop
  | loopCall
  | bind
  | values
  | extractSingleValue
  | extractRestValue
  | multipleValueSpill
  | multipleValueUnspill
  | adjustMultipleValues
  | adjustMultipleValuesRest
  | checkType
  | keywordCheckType
  | constrainType
  | assignmentCheckType
  | multipleValueCheckType
  | multipleValueCheckTypeRest
  | multipleValueResultCheckType
  | multipleValueResultCheckTypeRest
  | guaranteeType
  | makeCell
  | getCellValue
  | setCellValue
  | beginWithStackStructure
  | endWithStackStructure
deriving DecidableEq

/-- The temporary slots of a class, its own first and then the inherited. -/
def temporarySlots : ComputationClass → List TemporarySlot
  | .nop | .variableReference | .interactorBindingReference => []
  | .makeClosure => [untypedSlot .computationSignatureValue]
  | .initializeClosure => [typedSlot .computationClosure]
  | .definition | .redefinition | .set => [typedSlot .computationValue]
  | .conditionalUpdate =>
      [untypedSlot .computationTestValue, typedSlot .computationValue]
  | .typeDefinition | .typeRedefinition => [typedSlot .computationValue]
  | .temporaryTransfer => [typedSlot .computationValue]
  | .keywordDefault =>
      [typedSlot .keywordDefaultValueKeywordVariable,
        typedSlot .computationValue]
  | .ifMerge | .loopMerge | .bindExitMerge =>
      [typedSlot .mergeLeftValue, typedSlot .mergeRightValue]
  | .slotValue => [typedSlot .computationInstance]
  | .slotValueSetter =>
      [typedSlot .computationNewValue, typedSlot .computationInstance]
  | .repeatedSlotValue =>
      [typedSlot .computationIndex, typedSlot .computationInstance]
  | .repeatedSlotValueSetter =>
      [typedSlot .computationNewValue, typedSlot .computationIndex,
        typedSlot .computationInstance]
  | .stackVector | .primitiveCall | .primitiveIndirectCall
  | .cVariablePointerCall => [typedSlot .arguments]
  | .simpleCall | .apply => [typedSlot .function, typedSlot .arguments]
  | .methodCall | .methodApply =>
      [typedSlot .nextMethods, typedSlot .function, typedSlot .arguments]
  | .engineNodeCall | .engineNodeApply =>
      [typedSlot .engineNode, typedSlot .function, typedSlot .arguments]
  | .if => [typedSlot .test]
  | .bindExit | .unwindProtect => [typedSlot .entryState]
  | .return => [typedSlot .computationValue]
  | .exit => [typedSlot .computationValue, typedSlot .entryState]
  | .endExitBlock | .endCleanupBlock => [typedSlot .entryState]
  | .endProtectedBlock => [typedSlot .returnTemp, typedSlot .entryState]
  | .loop | .endLoop | .loopCall | .bind => []
  | .values => [typedSlot .fixedValues, typedSlot .restValue]
  | .extractSingleValue | .extractRestValue => [typedSlot .computationValue]
  | .multipleValueSpill | .multipleValueUnspill =>
      [typedSlot .computationValue]
  | .adjustMultipleValues | .adjustMultipleValuesRest =>
      [typedSlot .computationValue]
  | .checkType | .keywordCheckType | .constrainType | .assignmentCheckType =>
      [typedSlot .type, typedSlot .computationValue]
  | .multipleValueCheckType | .multipleValueResultCheckType =>
      [typedSlot .types, typedSlot .computationValue]
  | .multipleValueCheckTypeRest | .multipleValueResultCheckTypeRest =>
      [typedSlot .restType, typedSlot .types, typedSlot .computationValue]
  | .guaranteeType =>
      [typedSlot .guaranteedType, typedSlot .computationValue]
  | .makeCell => [typedSlot .computationValue]
  | .getCellValue => [typedSlot .computationCell]
  | .setCellValue =>
      [typedSlot .computationCell, typedSlot .computationValue]
  | .beginWithStackStructure => [untypedSlot .wssSizeTemp]
  | .endWithStackStructure => []

/-- `graph-class-accessors`: the pattern of the macro asks for
`temporary slot ?:name :: ?:expression`, so a slot without a type falls to the
rule for other slots. -/
def graphClassAccessors (slots : List TemporarySlot) : List SlotName :=
  slots.filterMap fun slot => if slot.typed then some slot.name else none

/-- `used-temporary-accessors` -/
def usedTemporaryAccessors (kind : ComputationClass) : List SlotName :=
  graphClassAccessors (temporarySlots kind)

/-- Whether the class is a `<binary-merge>`. -/
def binaryMerge : ComputationClass → Bool
  | .ifMerge | .loopMerge | .bindExitMerge => true
  | _ => false

/-! ## Heaps -/

/-- What a temporary slot holds: `#f` or a value reference, or a vector of
these. -/
inductive Operand where
  | reference (t : Option Nat)
  | sequence (address : Nat)
deriving DecidableEq

/-- Computations and vectors by their addresses, and the users of every value
reference. -/
structure Heap where
  kind : Nat → ComputationClass
  slot : Nat → SlotName → Operand
  dead : Nat → Bool
  element : Nat → List (Option Nat)
  lists : PairList.Store Nat Nat
  computations : Nat
  vectors : Nat

/-- The heap before anything is converted. -/
def Heap.empty : Heap where
  kind := fun _ => .nop
  slot := fun _ _ => .reference none
  dead := fun _ => false
  element := fun _ => []
  lists := ⟨fun _ => 0, fun _ => none, fun _ => none, 0⟩
  computations := 0
  vectors := 0

/-- `users` -/
def Heap.users (h : Heap) (t : Nat) : List Nat := h.lists.items t

/-- The computation is in the graph. -/
def Heap.Live (h : Heap) (c : Nat) : Prop :=
  c < h.computations ∧ h.dead c = false

instance (h : Heap) (c : Nat) : Decidable (h.Live c) :=
  inferInstanceAs (Decidable (_ ∧ _))

/-- What a slot contributes to the operands. -/
def Heap.contents (h : Heap) (c : Nat) (name : SlotName) :
    List (Option Nat) :=
  match h.slot c name with
  | .reference t => [t]
  | .sequence v => h.element v

/-- The operand positions of a computation. -/
def Heap.operands (h : Heap) (c : Nat) : List (Option Nat) :=
  (temporarySlots (h.kind c)).flatMap fun slot => h.contents c slot.name

/-- Assign a slot. -/
def Heap.setSlot (h : Heap) (c : Nat) (name : SlotName)
    (operand : Operand) : Heap :=
  { h with
    slot := Function.update h.slot c
      (Function.update (h.slot c) name operand) }

/-- Assign an element of a vector. -/
def Heap.setElement (h : Heap) (v i : Nat) (t : Option Nat) : Heap :=
  { h with
    element := Function.update h.element v ((h.element v).set i t) }

/-! ## Users -/

/-- `add-user!`; the default method, for `#f`, does nothing. -/
def addUser (h : Heap) (t : Option Nat) (user : Nat) : Heap :=
  match t with
  | none => h
  | some t => { h with lists := h.lists.add t user }

/-- `remove-user!`, by `remove!` with `count: 1`. -/
def removeUser (h : Heap) (t : Option Nat) (user : Nat) : Heap :=
  match t with
  | none => h
  | some t => { h with lists := h.lists.remove t user }

/-- `do-used-temporaries` -/
def doUsedTemporaries (fn : Heap → Option Nat → Heap) (h : Heap) (c : Nat) :
    Heap :=
  (usedTemporaryAccessors (h.kind c)).foldl
    (fun h name =>
      match h.slot c name with
      | .sequence v => (h.element v).foldl fn h
      | .reference t => fn h t)
    h

/-- `register-used-temporaries` -/
def registerUsedTemporaries (h : Heap) (c : Nat) : Heap :=
  doUsedTemporaries (fun h t => addUser h t c) h c

/-- `remove-computation-references!` -/
def removeComputationReferences (h : Heap) (c : Nat) : Heap :=
  let h := { h with dead := Function.update h.dead c true }
  doUsedTemporaries (fun h t => removeUser h t c) h c

/-- Allocate a vector of value references. -/
def makeVector (h : Heap) (elements : List (Option Nat)) : Heap :=
  { h with
    element := Function.update h.element h.vectors elements
    vectors := h.vectors + 1 }

/-- `make` on a computation class, with the values of the slots. -/
def make (h : Heap) (kind : ComputationClass) (slots : SlotName → Operand) :
    Heap :=
  let c := h.computations
  let h := { h with
    kind := Function.update h.kind c kind
    slot := Function.update h.slot c slots
    dead := Function.update h.dead c false
    computations := c + 1 }
  registerUsedTemporaries h c

/-- The `<exit>` that `convert-return-from` makes: it is added to the users of
the entry state although `make` has registered it there. -/
def convertReturnFrom (h : Heap) (entryState value : Nat) : Heap :=
  let exit := h.computations
  let h := make h .exit fun
    | .entryState => .reference (some entryState)
    | .computationValue => .reference (some value)
    | _ => .reference none
  addUser h (some entryState) exit

/-! ## Replacement -/

/-- One step over a vector in `replace-temporary-references!`. -/
def replaceElement (c t : Nat) (new : Option Nat) (v : Nat)
    (state : Heap × Bool) (index : Nat) : Heap × Bool :=
  if (state.1.element v)[index]? = some (some t) then
    let h := state.1.setElement v index new
    let h := addUser h new c
    (removeUser h (some t) c, true)
  else
    state

/-- One step over the accessors in `replace-temporary-references!`. -/
def replaceInSlot (c t : Nat) (new : Option Nat) (state : Heap × Bool)
    (name : SlotName) : Heap × Bool :=
  match state.1.slot c name with
  | .sequence v =>
      (List.range (state.1.element v).length).foldl
        (replaceElement c t new v) state
  | .reference ref =>
      if ref = some t then
        let h := state.1.setSlot c name (.reference new)
        let h := addUser h new c
        (removeUser h (some t) c, true)
      else
        state

/-- `replace-temporary-references!`; an error when the assertion that the
references differ fails. -/
def replaceTemporaryReferences (h : Heap) (c t : Nat) (new : Option Nat) :
    Option (Heap × Bool) :=
  if new = some t then
    none
  else
    some ((usedTemporaryAccessors (h.kind c)).foldl
      (replaceInSlot c t new) (h, false))

/-- The body of the loop in `replace-temporary-in-users!`. -/
def replaceInUser (old : Nat) (new : Option Nat) (exclude : Nat → Bool)
    (user : Nat) (h : Heap) : Option Heap :=
  if exclude user then
    some h
  else
    (replaceTemporaryReferences h user old new).map Prod.fst

/-- `replace-temporary-in-users!`; a list has no more pairs than there are. -/
def replaceTemporaryInUsers (h : Heap) (old : Nat) (new : Option Nat)
    (exclude : Nat → Bool) : Option Heap :=
  PairList.forEach Heap.lists (replaceInUser old new exclude)
    h.lists.fresh h (h.lists.first old)

/-- `replace-call-argument!`; an error when the index is out of range. -/
def replaceCallArgument (h : Heap) (call new index : Nat) : Option Heap :=
  match h.slot call .arguments with
  | .reference _ => none
  | .sequence args =>
      match (h.element args)[index]? with
      | none => none
      | some old =>
          let h := removeUser h old call
          let h := addUser h (some new) call
          some (h.setElement args index (some new))

/-- `merge-replace-left-value!` and `merge-replace-right-value!`, on the slot
of that side. -/
def mergeReplaceValue (side : SlotName) (h : Heap) (mergeNode : Nat)
    (old new : Option Nat) : Heap :=
  let h := h.setSlot mergeNode side (.reference new)
  let h := removeUser h old mergeNode
  addUser h new mergeNode

/-- `merge-replace-left-value!` -/
def mergeReplaceLeftValue : Heap → Nat → Option Nat → Option Nat → Heap :=
  mergeReplaceValue .mergeLeftValue

/-- `merge-replace-right-value!` -/
def mergeReplaceRightValue : Heap → Nat → Option Nat → Option Nat → Heap :=
  mergeReplaceValue .mergeRightValue

/-! ## Runs -/

/-- What the converter and the optimizer do to the chains. -/
inductive Event where
  | makeVector (elements : List (Option Nat))
  | make (kind : ComputationClass) (slots : SlotName → Operand)
  | convertReturnFrom (entryState value : Nat)
  | replaceTemporaryReferences (c t : Nat) (new : Option Nat)
  | replaceTemporaryInUsers (old : Nat) (new : Option Nat)
      (exclude : Nat → Bool)
  | replaceCallArgument (call new index : Nat)
  | mergeReplaceLeftValue (mergeNode : Nat) (new : Option Nat)
  | mergeReplaceRightValue (mergeNode : Nat) (new : Option Nat)
  | removeComputationReferences (c : Nat)

/-- The vectors among the values of the slots exist. -/
def vectorsExist (h : Heap) (kind : ComputationClass)
    (slots : SlotName → Operand) : Bool :=
  (temporarySlots kind).all fun slot =>
    match slots slot.name with
    | .sequence v => decide (v < h.vectors)
    | .reference _ => true

/-- Run an event on computations that exist; the callers of the merge
functions pass the value that the slot holds. -/
def perform (h : Heap) : Event → Option Heap
  | .makeVector elements => some (makeVector h elements)
  | .make kind slots =>
      if vectorsExist h kind slots then some (make h kind slots) else none
  | .convertReturnFrom entryState value =>
      some (convertReturnFrom h entryState value)
  | .replaceTemporaryReferences c t new =>
      if c < h.computations then
        (replaceTemporaryReferences h c t new).map Prod.fst
      else none
  | .replaceTemporaryInUsers old new exclude =>
      replaceTemporaryInUsers h old new exclude
  | .replaceCallArgument call new index =>
      if call < h.computations ∧
          .arguments ∈ usedTemporaryAccessors (h.kind call) then
        replaceCallArgument h call new index
      else none
  | .mergeReplaceLeftValue mergeNode new =>
      if mergeNode < h.computations ∧ binaryMerge (h.kind mergeNode) then
        match h.slot mergeNode .mergeLeftValue with
        | .reference old => some (mergeReplaceLeftValue h mergeNode old new)
        | .sequence _ => none
      else none
  | .mergeReplaceRightValue mergeNode new =>
      if mergeNode < h.computations ∧ binaryMerge (h.kind mergeNode) then
        match h.slot mergeNode .mergeRightValue with
        | .reference old => some (mergeReplaceRightValue h mergeNode old new)
        | .sequence _ => none
      else none
  | .removeComputationReferences c =>
      if c < h.computations then some (removeComputationReferences h c)
      else none

end OpenDylan.Compiler.DefUseChains
