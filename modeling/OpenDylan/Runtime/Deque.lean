import Mathlib.Data.List.Basic

/-!
# Deques

An object deque keeps its elements in a vector with room on both sides and
remembers the first and the last index in use.  When an end is reached the
elements move to the other end of the vector, or into a larger vector if there
is no room at all.  Indices are integers: the last index of an empty deque may
be -1.  An access outside the vector and a loop that does not end are outcomes
of their own.
-/

namespace OpenDylan.Runtime.Deque

/-- Objects, among them `#f`. -/
class Objects (α : Type) where
  no : α

open Objects

/-- What stops an operation: the errors that the source signals, an access
outside the vector, and a loop that has run out of rounds. -/
inductive Stop (α : Type) where
  | wrongType (object : α)
  | rangeError (index : Int)
  | emptyCollection
  | negativeSize (size : Int)
  | outside (index : Int)
  | endless
deriving DecidableEq

/-! ## Representation -/

/-- `<island-deque>` -/
structure IslandDeque (α : Type) where
  firstIndex : Int
  lastIndex : Int
  elements : List α
deriving DecidableEq

/-- `<object-deque>` -/
structure ObjectDeque (α : Type) where
  elementType : α → Bool
  representation : IslandDeque α

section Operations

variable {α : Type}

/-- `size` of the representation. -/
def IslandDeque.vectorSize (rep : IslandDeque α) : Int := rep.elements.length

/-- `island-deque-element` -/
def IslandDeque.element (rep : IslandDeque α) (index : Int) :
    Except (Stop α) α :=
  match rep.elements[index.toNat]? with
  | none => .error (.outside index)
  | some object =>
      if 0 ≤ index then .ok object else .error (.outside index)

/-- `island-deque-element-setter` -/
def IslandDeque.setElement (rep : IslandDeque α) (index : Int) (object : α) :
    Except (Stop α) (IslandDeque α) :=
  if 0 ≤ index ∧ index < rep.vectorSize then
    .ok { rep with elements := rep.elements.set index.toNat object }
  else
    .error (.outside index)

/-- `check-type` with the element type of the deque. -/
def ObjectDeque.checkType (deque : ObjectDeque α) (object : α) :
    Except (Stop α) Unit :=
  if deque.elementType object then .ok () else .error (.wrongType object)

/-- `check-nat` -/
def checkNat (size : Int) : Except (Stop α) Unit :=
  if 0 ≤ size then .ok () else .error (.negativeSize size)

/-- `size` -/
def ObjectDeque.size (deque : ObjectDeque α) : Int :=
  (deque.representation.lastIndex - deque.representation.firstIndex) + 1

/-- Write one object into a number of slots from an index on. -/
def fillElements (object : α) :
    Nat → Int → IslandDeque α → Except (Stop α) (IslandDeque α)
  | 0, _, rep => return rep
  | count + 1, index, rep => do
      let rep ← rep.setElement index object
      fillElements object count (index + 1) rep

variable [Objects α]

/-- `make(<island-deque>, size: n, fill: #f)` -/
def makeIslandDeque (size : Int) : IslandDeque α :=
  ⟨0, 0, List.replicate size.toNat no⟩

/-- `initialize` -/
def initializeDeque [DecidableEq α] (elementType : α → Bool) (size : Int)
    (fill : α) : Except (Stop α) (ObjectDeque α) := do
  checkNat size
  let dataSize := max (size * 2) 4
  let rep : IslandDeque α := makeIslandDeque dataSize
  let firstIndex := dataSize / 2
  let lastIndex := firstIndex + size - 1
  let rep ←
    if fill = no then
      pure rep
    else
      fillElements fill (lastIndex - firstIndex + 1).toNat firstIndex rep
  return ⟨elementType, { rep with
    firstIndex := firstIndex
    lastIndex := lastIndex }⟩

/-! ## Room -/

omit [Objects α] in
/-- The loops that move elements within a vector, upwards or downwards. -/
def moveElements (step : Int) :
    Nat → Int → Int → IslandDeque α → Except (Stop α) (IslandDeque α)
  | 0, _, _, rep => return rep
  | count + 1, destination, source, rep => do
      let object ← rep.element source
      let rep ← rep.setElement destination object
      moveElements step count (destination + step) (source + step) rep

omit [Objects α] in
/-- The loop of `grow!` -/
def copyElements (old : IslandDeque α) :
    Nat → Int → Int → IslandDeque α → Except (Stop α) (IslandDeque α)
  | 0, _, _, rep => return rep
  | count + 1, source, destination, rep => do
      let object ← old.element source
      let rep ← rep.setElement destination object
      copyElements old count (source + 1) (destination + 1) rep

/-- `grow!` -/
def grow (deque : ObjectDeque α) : Except (Stop α) (ObjectDeque α) := do
  let oldRep := deque.representation
  let oldRepSize := (oldRep.lastIndex - oldRep.firstIndex) + 1
  let newRep : IslandDeque α := makeIslandDeque (oldRepSize * 2)
  let newRep := { newRep with firstIndex := oldRepSize / 2 }
  let newRep ← copyElements oldRep oldRepSize.toNat oldRep.firstIndex
    newRep.firstIndex newRep
  return { deque with
    representation := { newRep with
      lastIndex := newRep.firstIndex + oldRepSize.toNat - 1 } }

/-- The room that both functions make when there is none. -/
def growIfFull (deque : ObjectDeque α) : Except (Stop α) (ObjectDeque α) :=
  if deque.representation.vectorSize = deque.size then
    grow deque
  else
    return deque

/-- `make-room-at-first!` -/
def makeRoomAtFirst (deque : ObjectDeque α) :
    Except (Stop α) (ObjectDeque α) := do
  let deque ← growIfFull deque
  let rep := deque.representation
  let last := rep.vectorSize - 1
  let delta := last - (rep.lastIndex - rep.firstIndex)
  if rep.lastIndex = last ∨ delta < 0 then
    return deque
  else do
    let rep ← moveElements (-1) (last - delta + 1).toNat last
      ((last - delta) + rep.firstIndex) rep
    return { deque with
      representation := { rep with
        firstIndex := delta
        lastIndex := last } }

/-- `make-room-at-last!` -/
def makeRoomAtLast (deque : ObjectDeque α) :
    Except (Stop α) (ObjectDeque α) := do
  let deque ← growIfFull deque
  let rep := deque.representation
  let newLast := rep.lastIndex - rep.firstIndex
  if rep.firstIndex = 0 ∨ newLast < -1 then
    return deque
  else do
    let rep ← moveElements 1 (newLast + 1).toNat 0 rep.firstIndex rep
    return { deque with
      representation := { rep with
        firstIndex := 0
        lastIndex := newLast } }

/-- The loop of `push`; the number bounds its rounds. -/
def roomAtFirst : Nat → ObjectDeque α → Except (Stop α) (ObjectDeque α)
  | 0, _ => .error .endless
  | rounds + 1, deque =>
      if deque.representation.firstIndex = 0 then do
        let deque ← makeRoomAtFirst deque
        roomAtFirst rounds deque
      else
        return deque

/-- The loop of `trusted-push-last`; the number bounds its rounds. -/
def roomAtLast : Nat → ObjectDeque α → Except (Stop α) (ObjectDeque α)
  | 0, _ => .error .endless
  | rounds + 1, deque =>
      if deque.representation.lastIndex =
          deque.representation.vectorSize - 1 then do
        let deque ← makeRoomAtLast deque
        roomAtLast rounds deque
      else
        return deque

/-! ## Ends -/

/-- `push` -/
def push (rounds : Nat) (deque : ObjectDeque α) (newElement : α) :
    Except (Stop α) (ObjectDeque α) := do
  deque.checkType newElement
  let deque ← roomAtFirst rounds deque
  let rep := deque.representation
  let firstIndex := rep.firstIndex - 1
  let rep ← { rep with firstIndex := firstIndex }.setElement firstIndex
    newElement
  return { deque with representation := rep }

/-- `trusted-push-last` -/
def trustedPushLast (rounds : Nat) (deque : ObjectDeque α) (newElement : α) :
    Except (Stop α) (ObjectDeque α) := do
  let deque ← roomAtLast rounds deque
  let rep := deque.representation
  let lastIndex := rep.lastIndex + 1
  let rep ← { rep with lastIndex := lastIndex }.setElement lastIndex
    newElement
  return { deque with representation := rep }

/-- `push-last` -/
def pushLast (rounds : Nat) (deque : ObjectDeque α) (newElement : α) :
    Except (Stop α) (ObjectDeque α) := do
  deque.checkType newElement
  trustedPushLast rounds deque newElement

/-- `pop` -/
def pop (deque : ObjectDeque α) : Except (Stop α) (α × ObjectDeque α) := do
  let rep := deque.representation
  if rep.lastIndex < rep.firstIndex then
    .error .emptyCollection
  else do
    let value ← rep.element rep.firstIndex
    let rep ← rep.setElement rep.firstIndex no
    return (value, { deque with
      representation := { rep with firstIndex := rep.firstIndex + 1 } })

/-- `pop-last` -/
def popLast (deque : ObjectDeque α) :
    Except (Stop α) (α × ObjectDeque α) := do
  let rep := deque.representation
  if rep.lastIndex < rep.firstIndex then
    .error .emptyCollection
  else do
    let value ← rep.element rep.lastIndex
    let rep ← rep.setElement rep.lastIndex no
    return (value, { deque with
      representation := { rep with lastIndex := rep.lastIndex - 1 } })

/-! ## Sizes and elements -/

/-- Repeat `pop-last`. -/
def popLasts : Nat → ObjectDeque α → Except (Stop α) (ObjectDeque α)
  | 0, deque => return deque
  | count + 1, deque => do
      let (_, deque) ← popLast deque
      popLasts count deque

/-- Repeat `trusted-push-last` with `#f`. -/
def pushLasts (rounds : Nat) :
    Nat → ObjectDeque α → Except (Stop α) (ObjectDeque α)
  | 0, deque => return deque
  | count + 1, deque => do
      let deque ← trustedPushLast rounds deque no
      pushLasts rounds count deque

/-- `trusted-size-setter` -/
def trustedSizeSetter (rounds : Nat) (newSize : Int)
    (deque : ObjectDeque α) : Except (Stop α) (ObjectDeque α) :=
  let difference := newSize - deque.size
  if difference < 0 then
    popLasts (-difference).toNat deque
  else
    pushLasts rounds difference.toNat deque

/-- `size-setter` -/
def sizeSetter (rounds : Nat) (newSize : Int) (deque : ObjectDeque α) :
    Except (Stop α) (ObjectDeque α) := do
  checkNat newSize
  if newSize ≤ deque.size then
    trustedSizeSetter rounds newSize deque
  else do
    deque.checkType no
    trustedSizeSetter rounds newSize deque

omit [Objects α] in
/-- `element` -/
def element (deque : ObjectDeque α) (index : Int) (default : Option α) :
    Except (Stop α) α :=
  let rep := deque.representation
  if index < 0 ∨ index > rep.lastIndex - rep.firstIndex then
    match default with
    | none => .error (.rangeError index)
    | some default => do
        deque.checkType default
        return default
  else
    rep.element (index + rep.firstIndex)

/-- `element-setter`, which tries again after it has made the deque longer;
the number bounds the tries. -/
def elementSetterFrom (rounds : Nat) (newValue : α) (index : Int) :
    Nat → ObjectDeque α → Except (Stop α) (ObjectDeque α)
  | 0, _ => .error .endless
  | tries + 1, deque => do
      deque.checkType newValue
      let rep := deque.representation
      if index < 0 then
        .error (.rangeError index)
      else if index > rep.lastIndex - rep.firstIndex then do
        let deque ←
          if deque.size = index then
            trustedSizeSetter rounds (index + 1) deque
          else
            sizeSetter rounds (index + 1) deque
        elementSetterFrom rounds newValue index tries deque
      else do
        let rep ← rep.setElement (index + rep.firstIndex) newValue
        return { deque with representation := rep }

/-- `element-setter` -/
def elementSetter (rounds : Nat) (newValue : α) (deque : ObjectDeque α)
    (index : Int) : Except (Stop α) (ObjectDeque α) :=
  elementSetterFrom rounds newValue index rounds deque

/-! ## Removal and reversal -/

/-- The loop of `remove!` with the number of elements that it has not seen. -/
def grovel (target : α) (test : α → α → Bool) :
    Nat → Int → Int → Int → IslandDeque α → Except (Stop α) (IslandDeque α)
  | 0, _, source, destination, rep => do
      let rep ← fillElements no (source - destination).toNat destination rep
      return { rep with lastIndex := destination - 1 }
  | unseen + 1, count, source, destination, rep => do
      let item ← rep.element source
      if 0 < count ∧ test item target then
        grovel target test unseen (count - 1) (source + 1) destination rep
      else do
        let rep ← rep.setElement destination item
        grovel target test unseen count (source + 1) (destination + 1) rep

/-- `remove!` -/
def remove (deque : ObjectDeque α) (target : α) (test : α → α → Bool)
    (count : Option Int) : Except (Stop α) (ObjectDeque α) := do
  let rep := deque.representation
  let rep ← grovel target test (rep.lastIndex - rep.firstIndex + 1).toNat
    (count.getD deque.size) rep.firstIndex rep.firstIndex rep
  return { deque with representation := rep }

omit [Objects α] in
/-- The loop of `reverse!` -/
def swapElements :
    Nat → Int → Int → IslandDeque α → Except (Stop α) (IslandDeque α)
  | 0, _, _, rep => return rep
  | count + 1, low, high, rep => do
      let object ← rep.element low
      let other ← rep.element high
      let rep ← rep.setElement low other
      let rep ← rep.setElement high object
      swapElements count (low + 1) (high - 1) rep

omit [Objects α] in
/-- `reverse!` -/
def reverse (deque : ObjectDeque α) : Except (Stop α) (ObjectDeque α) := do
  let rep := deque.representation
  let stoppingIndex := -(-(rep.firstIndex + rep.lastIndex) / 2)
  let rep ← swapElements (stoppingIndex - rep.firstIndex).toNat
    rep.firstIndex rep.lastIndex rep
  return { deque with representation := rep }

/-! ## Runs -/

/-- The operations. -/
inductive Operation (α : Type) where
  | push (object : α)
  | pushLast (object : α)
  | pop
  | popLast
  | element (index : Int) (default : Option α)
  | elementSetter (object : α) (index : Int)
  | sizeSetter (size : Int)
  | remove (target : α) (test : α → α → Bool) (count : Option Int)
  | reverse

/-- What an operation returns; removal and reversal return the deque. -/
inductive Reply (α : Type) where
  | object (object : α)
  | size (size : Int)
  | deque
deriving DecidableEq

/-- Perform an operation. -/
def perform (rounds : Nat) (deque : ObjectDeque α) :
    Operation α → Except (Stop α) (Reply α × ObjectDeque α)
  | .push object => do
      let deque ← push rounds deque object
      return (.object object, deque)
  | .pushLast object => do
      let deque ← pushLast rounds deque object
      return (.object object, deque)
  | .pop => do
      let (object, deque) ← pop deque
      return (.object object, deque)
  | .popLast => do
      let (object, deque) ← popLast deque
      return (.object object, deque)
  | .element index default => do
      let object ← element deque index default
      return (.object object, deque)
  | .elementSetter object index => do
      let deque ← elementSetter rounds object deque index
      return (.object object, deque)
  | .sizeSetter size => do
      let deque ← sizeSetter rounds size deque
      return (.size size, deque)
  | .remove target test count => do
      let deque ← remove deque target test count
      return (.deque, deque)
  | .reverse => do
      let deque ← reverse deque
      return (.deque, deque)

/-- Perform operations in order.  An error is signalled before the operation
has changed anything. -/
def run (rounds : Nat) :
    List (Operation α) → ObjectDeque α →
      List (Except (Stop α) (Reply α)) × ObjectDeque α
  | [], deque => ([], deque)
  | operation :: operations, deque =>
      match perform rounds deque operation with
      | .ok (reply, deque) =>
          let (replies, deque) := run rounds operations deque
          (.ok reply :: replies, deque)
      | .error stop =>
          let (replies, deque) := run rounds operations deque
          (.error stop :: replies, deque)

end Operations

end OpenDylan.Runtime.Deque
