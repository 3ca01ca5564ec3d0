import Mathlib.Data.List.Basic

/-!
# Stretchy vectors

A stretchy vector keeps its elements in the first slots of a representation
that may have more slots than elements.  It grows within the representation as
long as there are slots, which is no more than a change of its size, and into a
larger representation then.  What shrinks a vector therefore fills the slots
that it gives up.

An access outside the slots is a failure of its own; that indices and sizes are
within the range of machine integers is taken for granted.
-/

namespace OpenDylan.Collections.StretchyVector

/-- What the definition of a class of stretchy vectors says of the type of the
elements: the object that new elements are filled with. -/
class ElementType (α : Type) where
  fill : α

/-- The errors that are signalled, and an access outside the slots. -/
inductive Failure where
  | outside (key : Nat)
  | elementRange (index : Int)
  | naturalNumber (number : Int)
  | capacitySize (capacity size : Int)
  | sequenceBounds (start last : Nat)
deriving DecidableEq

/-! ## Representations -/

/-- `<limited-stretchy-vector-representation>`: `%size` and the repeated
slot. -/
structure Representation (α : Type) where
  size : Nat
  slots : List α
deriving DecidableEq

/-- `<limited-stretchy-vector>` -/
structure LimitedStretchyVector (α : Type) where
  representation : Representation α
deriving DecidableEq

section Slots

variable {α : Type}

/-- `size` of a representation: the number of its slots. -/
def Representation.capacity (rep : Representation α) : Nat :=
  rep.slots.length

/-- `stretchy-vector-element` -/
def stretchyVectorElement (rep : Representation α) (key : Nat) :
    Except Failure α :=
  match rep.slots[key]? with
  | some element => .ok element
  | none => .error (.outside key)

/-- `stretchy-vector-element-setter` -/
def setStretchyVectorElement (value : α) (rep : Representation α)
    (key : Nat) : Except Failure (Representation α) :=
  if key < rep.slots.length then
    .ok { rep with slots := rep.slots.set key value }
  else
    .error (.outside key)

/-- Writing objects into the slots from a key on. -/
def writeElements : List α → Nat → Representation α →
    Except Failure (Representation α)
  | [], _, rep => .ok rep
  | element :: rest, key, rep => do
      let rep ← setStretchyVectorElement element rep key
      writeElements rest (key + 1) rep

/-- Writing one object into a number of slots from a key on. -/
def fillElements (fill : α) : Nat → Nat → Representation α →
    Except Failure (Representation α)
  | 0, _, rep => .ok rep
  | count + 1, key, rep => do
      let rep ← setStretchyVectorElement fill rep key
      fillElements fill count (key + 1) rep

/-- Copying a number of elements of another representation. -/
def copyElements (source : Representation α) : Nat → Nat → Nat →
    Representation α → Except Failure (Representation α)
  | 0, _, _, rep => .ok rep
  | count + 1, sourceKey, key, rep => do
      let element ← stretchyVectorElement source sourceKey
      let rep ← setStretchyVectorElement element rep key
      copyElements source count (sourceKey + 1) (key + 1) rep

/-- `size` -/
def LimitedStretchyVector.size (vector : LimitedStretchyVector α) : Nat :=
  vector.representation.size

/-- `element` with a default. -/
def LimitedStretchyVector.element (vector : LimitedStretchyVector α)
    (index : Int) (default : Option α) : Except Failure α :=
  if 0 ≤ index ∧ index < vector.size then
    stretchyVectorElement vector.representation index.toNat
  else
    match default with
    | some default => .ok default
    | none => .error (.elementRange index)

/-- `check-nat` -/
def checkNat (number : Int) : Except Failure Unit :=
  if 0 ≤ number then .ok () else .error (.naturalNumber number)

/-- The loop of `power-of-two-ceiling`. -/
def powerOfTwoSearch (value powerOfTwo : Nat) (positive : 0 < powerOfTwo) :
    Nat :=
  if value ≤ powerOfTwo then
    powerOfTwo
  else
    powerOfTwoSearch value (powerOfTwo + powerOfTwo) (by omega)
termination_by value - powerOfTwo

/-- `power-of-two-ceiling` -/
def powerOfTwoCeiling (value : Nat) : Nat :=
  powerOfTwoSearch value 1 Nat.one_pos

/-- `make` of a representation. -/
def makeRepresentation (capacity size : Nat) (fill : α) :
    Representation α where
  size := size
  slots := List.replicate capacity fill

end Slots

/-! ## Making -/

section Operations

variable {α : Type} [ElementType α]

/-- `collection-fill` -/
def collectionFill : α := ElementType.fill

/-- `stretchy-initialize`; a vector starts with the empty representation. -/
def stretchyInitialize (capacity size : Int) (fill : α) :
    Except Failure (LimitedStretchyVector α) := do
  checkNat size
  checkNat capacity
  if capacity < size then
    .error (.capacitySize capacity size)
  else if capacity > 0 then
    return ⟨makeRepresentation capacity.toNat size.toNat fill⟩
  else
    return ⟨makeRepresentation 0 0 collectionFill⟩

/-- The keywords of `make`. -/
structure Keywords (α : Type) where
  size : Option Int
  capacity : Option Int
  fill : Option α
deriving DecidableEq

/-- The size that is asked for. -/
def Keywords.theSize (keywords : Keywords α) : Int := keywords.size.getD 0

/-- The capacity that is asked for. -/
def Keywords.theCapacity (keywords : Keywords α) : Int :=
  keywords.capacity.getD keywords.theSize

/-- The fill that is asked for. -/
def Keywords.theFill (keywords : Keywords α) : α :=
  keywords.fill.getD collectionFill

/-- `make` and `initialize` -/
def makeVector (keywords : Keywords α) :
    Except Failure (LimitedStretchyVector α) :=
  stretchyInitialize keywords.theCapacity keywords.theSize keywords.theFill

/-! ## Sizes and elements -/

/-- `trusted-size-setter` -/
def trustedSizeSetter (newSize : Nat) (vector : LimitedStretchyVector α) :
    Except Failure (LimitedStretchyVector α) := do
  let v := vector.representation
  if newSize > v.capacity then
    let nv := makeRepresentation (powerOfTwoCeiling newSize) newSize
      collectionFill
    let nv ← copyElements v v.size 0 0 nv
    let nv ← fillElements collectionFill (newSize - v.size) v.size nv
    return ⟨nv⟩
  else if newSize < v.size then
    let s := v.size
    let v ← fillElements collectionFill (s - newSize) newSize
      { v with size := newSize }
    return ⟨v⟩
  else
    return ⟨{ v with size := newSize }⟩

/-- `size-setter` -/
def sizeSetter (newSize : Int) (vector : LimitedStretchyVector α) :
    Except Failure (LimitedStretchyVector α) := do
  checkNat newSize
  trustedSizeSetter newSize.toNat vector

/-- `add!` -/
def add (vector : LimitedStretchyVector α) (newElement : α) :
    Except Failure (LimitedStretchyVector α) := do
  let oldSize := vector.size
  let vector ← trustedSizeSetter (oldSize + 1) vector
  let rep ← setStretchyVectorElement newElement vector.representation oldSize
  return ⟨rep⟩

/-- The room that `element-setter` makes. -/
def growTo (index : Nat) (vector : LimitedStretchyVector α) :
    Except Failure (LimitedStretchyVector α) :=
  if index ≥ vector.size then
    if index = vector.size then
      trustedSizeSetter (index + 1) vector
    else
      sizeSetter (index + 1) vector
  else
    .ok vector

/-- `element-setter` -/
def elementSetter (newValue : α) (vector : LimitedStretchyVector α)
    (index : Int) : Except Failure (LimitedStretchyVector α) := do
  if index < 0 then
    .error (.elementRange index)
  else
    let vector ← growTo index.toNat vector
    let rep ← setStretchyVectorElement newValue vector.representation
      index.toNat
    return ⟨rep⟩

/-! ## Removing -/

omit [ElementType α] in
/-- The loop `grovel` of `remove!`, for the elements that are left: the
representation and the last destination. -/
def grovel (test : α → α → Bool) (target : α) :
    Nat → Int → Nat → Nat → Representation α →
      Except Failure (Representation α × Nat)
  | 0, _, _, dstIndex, src => .ok (src, dstIndex)
  | left + 1, count, srcIndex, dstIndex, src => do
      let item ← stretchyVectorElement src srcIndex
      if count > 0 ∧ test item target = true then
        grovel test target left (count - 1) (srcIndex + 1) dstIndex src
      else
        let src ← setStretchyVectorElement item src dstIndex
        grovel test target left count (srcIndex + 1) (dstIndex + 1) src

/-- `remove!` -/
def remove (vector : LimitedStretchyVector α) (target : α)
    (test : α → α → Bool) (count : Option Int) :
    Except Failure (LimitedStretchyVector α) := do
  let count := count.getD vector.size
  let src := vector.representation
  let srcSize := src.size
  let (src, dstIndex) ← grovel test target srcSize count 0 0 src
  let src ← fillElements collectionFill (srcSize - dstIndex) dstIndex src
  return ⟨{ src with size := dstIndex }⟩

/-! ## Replacing -/

omit [ElementType α] in
/-- `check-start-compute-end` -/
def checkStartComputeEnd (vector : LimitedStretchyVector α)
    (start last : Nat) : Except Failure Unit :=
  if last > vector.size ∨ last < start then
    .error (.sequenceBounds start last)
  else
    .ok ()

/-- `replace-subsequence!` of a `<vector>` by a `<vector>`. -/
def replaceByVector (target : LimitedStretchyVector α) (insert : List α)
    (start last : Nat) : Except Failure (LimitedStretchyVector α) := do
  let targetSize := target.size
  let insertSize := insert.length
  checkStartComputeEnd target start last
  let deleteSize := last - start
  if deleteSize = insertSize then
    let rep ← writeElements insert start target.representation
    return ⟨rep⟩
  else
    let newSize := targetSize - deleteSize + insertSize
    let newTarget ← makeVector
      { size := some newSize
        capacity := none
        fill := none }
    let newEnd := start + insertSize
    let rep ← copyElements target.representation start 0 0
      newTarget.representation
    let rep ← writeElements insert start rep
    let rep ← copyElements target.representation (targetSize - last) last
      newEnd rep
    return ⟨rep⟩

/-- `replace-subsequence!` of a `<mutable-sequence>` by a `<sequence>`; the
states of the iteration protocol are keys. -/
def replaceBySequence (target : LimitedStretchyVector α) (insert : List α)
    (start last : Nat) : Except Failure (LimitedStretchyVector α) := do
  let targetSize := target.size
  let insertSize := insert.length
  checkStartComputeEnd target start last
  let deleteSize := last - start
  if deleteSize = insertSize then
    let rep ← writeElements insert start target.representation
    return ⟨rep⟩
  else
    let newSize := targetSize - deleteSize + insertSize
    let newTarget ← makeVector
      { size := some newSize
        capacity := none
        fill := none }
    if start = 0 ∧ last = targetSize then
      let rep ← writeElements insert 0 newTarget.representation
      return ⟨rep⟩
    else
      let rep ← copyElements target.representation start 0 0
        newTarget.representation
      let rep ← writeElements insert start rep
      if last = targetSize then
        return ⟨rep⟩
      else
        let rep ← copyElements target.representation (targetSize - last) last
          (start + insertSize) rep
        return ⟨rep⟩

/-- The loop `dst[di] := e` over the elements of a sequence. -/
def assignElements : List α → Nat → LimitedStretchyVector α →
    Except Failure (LimitedStretchyVector α)
  | [], _, dst => .ok dst
  | e :: rest, di, dst => do
      let dst ← elementSetter e dst di
      assignElements rest (di + 1) dst

/-- The loop `dst[di] := dst[si]` with rising indices. -/
def shiftDown : Nat → Nat → Nat → LimitedStretchyVector α →
    Except Failure (LimitedStretchyVector α)
  | 0, _, _, dst => .ok dst
  | count + 1, di, si, dst => do
      let e ← dst.element si none
      let dst ← elementSetter e dst di
      shiftDown count (di + 1) (si + 1) dst

/-- The loop `dst[di] := dst[si]` with falling indices, for the first so many
elements from `si` on. -/
def shiftUp (di si : Nat) : Nat → LimitedStretchyVector α →
    Except Failure (LimitedStretchyVector α)
  | 0, dst => .ok dst
  | count + 1, dst => do
      let e ← dst.element ↑(si + count) none
      let dst ← elementSetter e dst ↑(di + count)
      shiftUp di si count dst

/-- `replace-subsequence!` of a `<stretchy-mutable-sequence>`. -/
def replaceStretchy (dst : LimitedStretchyVector α) (src : List α)
    (start last : Nat) : Except Failure (LimitedStretchyVector α) := do
  let dstSize := dst.size
  let newSize := start + (src.length + (dstSize - last))
  if newSize < dstSize then
    let dst ← assignElements src start dst
    let dst ← shiftDown (dstSize - last) (start + src.length) last dst
    sizeSetter newSize dst
  else if newSize > dstSize then
    let dst ← sizeSetter newSize dst
    let dst ← shiftUp (newSize - (dstSize - last)) last (dstSize - last) dst
    assignElements src start dst
  else
    assignElements src start dst

end Operations

end OpenDylan.Collections.StretchyVector
