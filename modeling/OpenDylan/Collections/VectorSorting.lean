import Mathlib.Data.List.Basic

/-!
# Sorting vectors

Small ranges of a vector are sorted by insertion, larger ones by merging or by
partitioning.  The sorts work in place and without bounds checks: an access
outside the vector and a loop or a recursion that does not end are outcomes of
their own.
-/

namespace OpenDylan.Collections.VectorSorting

/-- What stops a sort: the range error that the source signals, an access
outside a vector, a slot that was not filled, and endless running. -/
inductive Stop where
  | elementRangeError (key : Int)
  | outside (key : Int)
  | unfilled (key : Int)
  | endless
deriving DecidableEq

section Vectors

variable {Element : Type}

/-- `vector[key]` -/
def element (vector : List Element) (key : Int) : Except Stop Element :=
  match vector[key.toNat]? with
  | none => .error (.outside key)
  | some element => if 0 ≤ key then .ok element else .error (.outside key)

/-- `vector[key] := element` -/
def setElement (vector : List Element) (key : Int) (element : Element) :
    Except Stop (List Element) :=
  if 0 ≤ key ∧ key < vector.length then .ok (vector.set key.toNat element)
  else .error (.outside key)

/-- `sort-range-check` -/
def sortRangeCheck (size start finish : Int) : Except Stop Unit :=
  if start < 0 ∨ start > size then .error (.elementRangeError start)
  else if finish < 0 ∨ finish > size then .error (.elementRangeError finish)
  else .ok ()

/-- `swap-elements!` -/
def swapElements (vector : List Element) (key1 key2 : Int) :
    Except Stop (List Element) := do
  let elt1 ← element vector key1
  let elt2 ← element vector key2
  let vector ← setElement vector key1 elt2
  setElement vector key2 elt1

end Vectors

section Sorts

variable {Element : Type} (test : Element → Element → Bool)

/-! ## Insertion sort -/

/-- The inner loop of `insertion-sort!`. -/
def insertElement (currentElement : Element) (start insertKey : Int)
    (vector : List Element) : Except Stop (List Element) :=
  if insertKey < start then
    setElement vector (insertKey + 1) currentElement
  else do
    let insertElt ← element vector insertKey
    if test currentElement insertElt then
      let vector ← setElement vector (insertKey + 1) insertElt
      insertElement currentElement start (insertKey - 1) vector
    else
      setElement vector (insertKey + 1) currentElement
termination_by (insertKey + 1 - start).toNat
decreasing_by omega

/-- The outer loop of `insertion-sort!`. -/
def insertionLoop (start finish currentKey : Int) (vector : List Element) :
    Except Stop (List Element) :=
  if currentKey < finish then do
    let currentElement ← element vector currentKey
    let vector ←
      insertElement test currentElement start (currentKey - 1) vector
    insertionLoop start finish (currentKey + 1) vector
  else
    return vector
termination_by (finish - currentKey).toNat
decreasing_by omega

/-- `insertion-sort!` -/
def insertionSort (start finish : Int) (vector : List Element) :
    Except Stop (List Element) := do
  sortRangeCheck vector.length start finish
  insertionLoop test start finish (start + 1) vector

/-- `$small-sort-size` -/
def smallSortSize : Int := 10

/-! ## Merge sort -/

/-- The first loop of `merge!`, which fills the merge vector. -/
def mergeLoop (vector : List Element) (middle finish : Int) :
    (mergeSize mergeKey startKey middleKey : Int) → List (Option Element) →
      Except Stop (List (Option Element))
  | mergeSize, mergeKey, startKey, middleKey, mergeVector =>
      if mergeKey < mergeSize then do
        if startKey ≥ middle then
          let next ← element vector middleKey
          let mergeVector ← setElement mergeVector mergeKey (some next)
          mergeLoop vector middle finish mergeSize (mergeKey + 1) startKey
            (middleKey + 1) mergeVector
        else if middleKey ≥ finish then
          let next ← element vector startKey
          let mergeVector ← setElement mergeVector mergeKey (some next)
          mergeLoop vector middle finish mergeSize (mergeKey + 1)
            (startKey + 1) middleKey mergeVector
        else do
          let right ← element vector middleKey
          let left ← element vector startKey
          if test right left then
            let mergeVector ← setElement mergeVector mergeKey (some right)
            mergeLoop vector middle finish mergeSize (mergeKey + 1) startKey
              (middleKey + 1) mergeVector
          else
            let mergeVector ← setElement mergeVector mergeKey (some left)
            mergeLoop vector middle finish mergeSize (mergeKey + 1)
              (startKey + 1) middleKey mergeVector
      else
        return mergeVector
termination_by mergeSize mergeKey => (mergeSize - mergeKey).toNat
decreasing_by all_goals omega

/-- The second loop of `merge!`, which copies the merge vector back. -/
def copyLoop (mergeVector : List (Option Element)) (mergeSize mergeKey copyKey :
    Int) (vector : List Element) : Except Stop (List Element) :=
  if mergeKey < mergeSize then do
    match ← element mergeVector mergeKey with
    | none => .error (.unfilled mergeKey)
    | some next =>
        let vector ← setElement vector copyKey next
        copyLoop mergeVector mergeSize (mergeKey + 1) (copyKey + 1) vector
  else
    return vector
termination_by (mergeSize - mergeKey).toNat
decreasing_by omega

/-- `merge!` -/
def mergeRanges (start middle finish : Int) (vector : List Element) :
    Except Stop (List Element) := do
  let mergeSize := finish - start
  let mergeVector ← mergeLoop test vector middle finish mergeSize 0 start middle
    (List.replicate mergeSize.toNat none)
  copyLoop mergeVector mergeSize 0 start vector

/-- `merge-sort!`, with a bound on the depth of the recursion. -/
def mergeSort : (depth : Nat) → (start finish : Int) → List Element →
    Except Stop (List Element)
  | 0, _, _, _ => .error .endless
  | depth + 1, start, finish, vector => do
      sortRangeCheck vector.length start finish
      let length := finish - start
      if length < smallSortSize then
        insertionSort test start finish vector
      else if length > 1 then
        let middle := start + length.fdiv 2
        let vector ← mergeSort depth start middle vector
        let vector ← mergeSort depth middle finish vector
        mergeRanges test start middle finish vector
      else
        return vector

/-! ## Quick sort -/

/-- `median-of-three` -/
def medianOfThree (vector : List Element) (start finish : Int) :
    Except Stop Int := do
  let middle := (start + finish).tdiv 2
  let startElt ← element vector start
  let endElt ← element vector (finish - 1)
  let middleElt ← element vector middle
  if test startElt endElt then
    if test middleElt endElt then return middle else return finish
  else
    if test middleElt startElt then return middle else return start

-- The tests of the two scans only end the recursion; reading outside is an
-- error in any case.
/-- The first scan of `partition!`, upwards over smaller elements. -/
def scanSmall (vector : List Element) (pivotElement : Element)
    (smallKey : Int) : Except Stop Int :=
  if 0 ≤ smallKey ∧ smallKey < vector.length then do
    let small ← element vector smallKey
    if test small pivotElement then
      scanSmall vector pivotElement (smallKey + 1)
    else
      return smallKey
  else
    .error (.outside smallKey)
termination_by (vector.length - smallKey).toNat
decreasing_by omega

/-- The second scan of `partition!`, downwards over larger elements. -/
def scanLarge (vector : List Element) (pivotElement : Element)
    (largeKey : Int) : Except Stop Int :=
  if 0 ≤ largeKey ∧ largeKey < vector.length then do
    let large ← element vector largeKey
    if test pivotElement large then
      scanLarge vector pivotElement (largeKey - 1)
    else
      return largeKey
  else
    .error (.outside largeKey)
termination_by (largeKey + 1).toNat
decreasing_by omega

/-- The outer loop of `partition!`, with a bound on its rounds. -/
def partitionLoop (pivotElement : Element) :
    (rounds : Nat) → (smallKey largeKey : Int) → List Element →
      Except Stop (Int × List Element)
  | 0, _, _, _ => .error .endless
  | rounds + 1, smallKey, largeKey, vector => do
      let smallKey ← scanSmall test vector pivotElement smallKey
      let largeKey ← scanLarge test vector pivotElement largeKey
      if smallKey < largeKey then
        let vector ← swapElements vector smallKey largeKey
        partitionLoop pivotElement rounds (smallKey + 1) (largeKey - 1) vector
      else
        return (smallKey, vector)

/-- `partition!` -/
def partition (rounds : Nat) (start finish : Int) (vector : List Element) :
    Except Stop (Int × List Element) := do
  let pivotKey ← medianOfThree test vector start (finish - 1)
  let pivotElement ← element vector pivotKey
  partitionLoop test pivotElement rounds start (finish - 1) vector

/-- `quick-sort!`, with a bound on the depth of the recursion and on the rounds
of each partition. -/
def quickSort (rounds : Nat) : (depth : Nat) → (start finish : Int) →
    List Element → Except Stop (List Element)
  | 0, _, _, _ => .error .endless
  | depth + 1, start, finish, vector => do
      sortRangeCheck vector.length start finish
      let length := finish - start
      if length < smallSortSize then
        insertionSort test start finish vector
      else if length > 1 then
        let (middle, vector) ← partition test rounds start finish vector
        let vector ← quickSort rounds depth start middle vector
        quickSort rounds depth middle finish vector
      else
        return vector

/-! ## Sorting sequences -/

/-- `sort!` of a vector. -/
def sortVector (bound : Nat) (stable : Bool) (vector : List Element) :
    Except Stop (List Element) :=
  if stable then mergeSort test bound 0 vector.length vector
  else quickSort test bound bound 0 vector.length vector

end Sorts

/-- A class of sequences: their elements, and the conversions to a vector and
from one, which keep the elements. -/
structure SequenceClass (Sequence Element : Type) where
  elements : Sequence → List Element
  asVector : Sequence → List Element
  asTypeForCopy : Sequence → List Element → Sequence
  asVector_eq : ∀ sequence, asVector sequence = elements sequence
  elements_asTypeForCopy : ∀ sequence vector,
    elements (asTypeForCopy sequence vector) = vector

/-- `sort!` of a sequence that is not a vector. -/
def sortSequence {Sequence Element : Type}
    (sequences : SequenceClass Sequence Element)
    (test : Element → Element → Bool) (bound : Nat) (stable : Bool)
    (sequence : Sequence) : Except Stop Sequence := do
  let vector := sequences.asVector sequence
  let result ←
    if stable then mergeSort test bound 0 vector.length vector
    else quickSort test bound bound 0 vector.length vector
  return sequences.asTypeForCopy sequence result

/-! ## Access -/

section Access

variable {Element : Type} {vector front between back : List Element}
  {one other : Element} {key key1 key2 : Int}

theorem element_split (split : vector = front ++ one :: back)
    (position : key = front.length) : element vector key = .ok one := by
  subst split position
  simp [element]

theorem setElement_split (split : vector = front ++ one :: back)
    (position : key = front.length) (next : Element) :
    setElement vector key next = .ok (front ++ next :: back) := by
  subst split position
  rw [setElement, if_pos (by simp <;> omega)]
  simp

theorem element_within (split : vector = front ++ (between ++ one :: back))
    (position : key = front.length + between.length) :
    element vector key = .ok one :=
  element_split (by rw [split, List.append_assoc])
    (by rw [position, List.length_append]; rfl)

theorem setElement_within
    (split : vector = front ++ (between ++ one :: back))
    (position : key = front.length + between.length) (next : Element) :
    setElement vector key next = .ok (front ++ (between ++ next :: back)) := by
  have whole : vector = front ++ between ++ one :: back := by
    rw [split, List.append_assoc]
  rw [setElement_split whole (by rw [position, List.length_append]; rfl),
    List.append_assoc]

theorem swapElements_split
    (split : vector = front ++ one :: (between ++ other :: back))
    (position1 : key1 = front.length)
    (position2 : key2 = front.length + 1 + between.length) :
    swapElements vector key1 key2 =
      .ok (front ++ other :: (between ++ one :: back)) := by
  have split2 : vector = (front ++ one :: between) ++ other :: back := by
    simp [split]
  have position2' : key2 = (front ++ one :: between).length := by
    simp [position2]
    omega
  have first := setElement_split split position1 other
  have resplit : front ++ other :: (between ++ other :: back) =
      (front ++ other :: between) ++ other :: back := by simp
  have second := setElement_split resplit
    (by simp [position2]; omega : key2 = _) one
  simp only [swapElements, element_split split position1,
    element_split split2 position2', first, second, bind, Except.bind,
    List.append_assoc, List.cons_append]

end Access

end OpenDylan.Collections.VectorSorting
