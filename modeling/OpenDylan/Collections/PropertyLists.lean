import OpenDylan.Lib.Chain

/-!
# Property lists

A property list is a sequence of indicators, each followed by its value.  It
may be held as a list, as a vector of a fixed size or as a stretchy vector, and
each of these has its own loops.

A list is modelled by the pairs that it consists of, since its properties are
edited by assignments to their heads and tails.  A vector is the list of its
elements.
-/

namespace OpenDylan.Collections.PropertyLists

/-- What keeps an operation from returning. -/
inductive Failure where
  /-- "This plist does not have even length" -/
  | oddLength
  /-- An access outside the elements of a vector. -/
  | outside (key : Nat)
  /-- An assignment or an access that needs a pair. -/
  | noPair
  /-- The list has no end. -/
  | unending
deriving DecidableEq

variable {Object : Type}

/-! ## Pairs -/

/-- The pairs that have been made, and the empty list as an object. -/
structure Heap (Object : Type) where
  head : Nat → Object
  tail : Nat → Option Nat
  fresh : Nat
  emptyList : Object

/-- `head`, where the empty list has itself for its head. -/
def Heap.headOf (heap : Heap Object) : Option Nat → Object
  | some pair => heap.head pair
  | none => heap.emptyList

/-- `tail`, where the empty list has itself for its tail. -/
def Heap.tailOf (heap : Heap Object) : Option Nat → Option Nat
  | some pair => heap.tail pair
  | none => none

/-- `second` -/
def Heap.second (heap : Heap Object) (list : Option Nat) :
    Except Failure Object :=
  match heap.tailOf list with
  | some pair => .ok (heap.head pair)
  | none => .error .noPair

/-- `head-setter` -/
def Heap.setHead (heap : Heap Object) (value : Object) :
    Option Nat → Except Failure (Heap Object)
  | some pair =>
      .ok { heap with head := Function.update heap.head pair value }
  | none => .error .noPair

/-- `tail-setter` -/
def Heap.setTail (heap : Heap Object) (list : Option Nat) :
    Option Nat → Except Failure (Heap Object)
  | some pair =>
      .ok { heap with tail := Function.update heap.tail pair list }
  | none => .error .noPair

/-- `pair` -/
def Heap.pair (heap : Heap Object) (head : Object) (tail : Option Nat) :
    Heap Object × Option Nat :=
  ({ heap with
      head := Function.update heap.head heap.fresh head
      tail := Function.update heap.tail heap.fresh tail
      fresh := heap.fresh + 1 },
    some heap.fresh)

/-- `list` with two objects. -/
def Heap.list (heap : Heap Object) (one two : Object) :
    Heap Object × Option Nat :=
  let (heap, rest) := heap.pair two none
  heap.pair one rest

/-- The loop `find-tail` of `concatenate!`. -/
def findTail (heap : Heap Object) (x : Option Nat) :
    Nat → Option Nat → Except Failure (Heap Object)
  | 0, _ => .error .unending
  | fuel + 1, p =>
      if heap.tailOf p = none then
        heap.setTail x p
      else
        findTail heap x fuel (heap.tailOf p)

/-- `concatenate!` of a list and another one that is not empty. -/
def concatenateLists (heap : Heap Object) (x more : Option Nat) :
    Except Failure (Heap Object × Option Nat) :=
  if x = none then
    .ok (heap, more)
  else do
    let heap ← findTail heap more (heap.fresh + 1) x
    return (heap, x)

/-! ## Property lists as lists -/

section Lists

variable [DecidableEq Object]

/-- The loop of `get-property`. -/
def listGetLoop (heap : Heap Object) (indicator default : Object) :
    Nat → Option Nat → Except Failure Object
  | 0, _ => .error .unending
  | fuel + 1, plist =>
      if plist = none then
        .ok default
      else if heap.headOf plist = indicator then
        .ok (heap.headOf (heap.tailOf plist))
      else
        listGetLoop heap indicator default fuel
          (heap.tailOf (heap.tailOf plist))

/-- `get-property` of a list. -/
def listGetProperty (heap : Heap Object) (plist : Option Nat)
    (indicator default : Object) : Except Failure Object :=
  listGetLoop heap indicator default (heap.fresh + 1) plist

/-- The loop of `do-put-property!`: `none` at its end. -/
def listPutLoop (heap : Heap Object) (indicator value : Object) :
    Nat → Option Nat → Except Failure (Option (Heap Object))
  | 0, _ => .error .unending
  | fuel + 1, pl =>
      if pl = none then
        .ok none
      else if heap.headOf pl = indicator then do
        let heap ← heap.setHead value (heap.tailOf pl)
        return some heap
      else
        listPutLoop heap indicator value fuel (heap.tailOf (heap.tailOf pl))

/-- `do-put-property!` of a list. -/
def listPutProperty (heap : Heap Object) (plist : Option Nat)
    (indicator value : Object) :
    Except Failure (Heap Object × Option Nat) := do
  match ← listPutLoop heap indicator value (heap.fresh + 1) plist with
  | some heap => return (heap, plist)
  | none =>
      let (heap, more) := heap.list indicator value
      concatenateLists heap plist more

/-- The loop of `do-remove-property!`; `ppl` is the second pair of the entry
before `pl`, where the empty list also stands for `#f`. -/
def listRemoveLoop (heap : Heap Object) (plist : Option Nat)
    (false indicator : Object) :
    Nat → Option Nat → Option Nat →
      Except Failure (Object × Heap Object × Option Nat)
  | 0, _, _ => .error .unending
  | fuel + 1, pl, ppl =>
      if pl = none then
        .ok (false, heap, plist)
      else if heap.headOf pl = indicator then do
        let result ← heap.second pl
        if pl = plist then
          return (result, heap, heap.tailOf (heap.tailOf plist))
        else
          let heap ← heap.setTail (heap.tailOf (heap.tailOf pl)) ppl
          return (result, heap, plist)
      else
        let ppl :=
          if pl = plist then heap.tailOf pl
          else heap.tailOf (heap.tailOf ppl)
        listRemoveLoop heap plist false indicator fuel
          (heap.tailOf (heap.tailOf pl)) ppl

/-- `do-remove-property!` of a list. -/
def listRemoveProperty (heap : Heap Object) (plist : Option Nat)
    (false indicator : Object) :
    Except Failure (Object × Heap Object × Option Nat) :=
  listRemoveLoop heap plist false indicator (heap.fresh + 1) plist none

end Lists

/-! ## Property lists as vectors -/

/-- `element` of a vector. -/
def vectorElement (vector : List Object) (key : Nat) :
    Except Failure Object :=
  match vector[key]? with
  | some element => .ok element
  | none => .error (.outside key)

/-- `element-setter` of a vector. -/
def setVectorElement (value : Object) (vector : List Object) (key : Nat) :
    Except Failure (List Object) :=
  if key < vector.length then
    .ok (vector.set key value)
  else
    .error (.outside key)

/-- The assertion that a vector has an even length. -/
def assertEven (plist : List Object) : Except Failure Unit :=
  if plist.length % 2 = 0 then .ok () else .error .oddLength

section Vectors

variable [DecidableEq Object]

/-- The loop of `get-property` over a vector, for the entries that are left. -/
def vectorGetLoop (plist : List Object) (indicator default : Object) :
    Nat → Nat → Except Failure Object
  | 0, _ => .ok default
  | left + 1, i => do
      if (← vectorElement plist i) = indicator then
        vectorElement plist (i + 1)
      else
        vectorGetLoop plist indicator default left (i + 2)

/-- `get-property` of a vector. -/
def vectorGetProperty (plist : List Object) (indicator default : Object) :
    Except Failure Object := do
  assertEven plist
  vectorGetLoop plist indicator default (plist.length / 2) 0

/-- The loop of `do-put-property!` over a vector; `concatenate!` makes a
longer vector, or lets a stretchy vector grow. -/
def vectorPutLoop (plist : List Object) (indicator value : Object) :
    Nat → Nat → Except Failure (List Object)
  | 0, _ => .ok (plist ++ [indicator, value])
  | left + 1, i => do
      if (← vectorElement plist i) = indicator then
        setVectorElement value plist (i + 1)
      else
        vectorPutLoop plist indicator value left (i + 2)

/-- `do-put-property!` of a vector. -/
def vectorPutProperty (plist : List Object) (indicator value : Object) :
    Except Failure (List Object) := do
  assertEven plist
  vectorPutLoop plist indicator value (plist.length / 2) 0

/-- The loop of `do-remove-property!` over a stretchy vector: the value and
the place `j` at its end. -/
def stretchyRemoveLoop (indicator : Object) :
    Nat → Nat → Nat → Object → List Object →
      Except Failure (Object × Nat × List Object)
  | 0, _, j, value, plist => .ok (value, j, plist)
  | left + 1, i, j, value, plist => do
      if (← vectorElement plist i) = indicator then
        let value ← vectorElement plist (i + 1)
        stretchyRemoveLoop indicator left (i + 2) j value plist
      else
        let plist ← setVectorElement (← vectorElement plist i) plist j
        let plist ←
          setVectorElement (← vectorElement plist (i + 1)) plist (j + 1)
        stretchyRemoveLoop indicator left (i + 2) (j + 2) value plist

/-- `do-remove-property!` of a stretchy vector, whose size becomes `j`. -/
def stretchyRemoveProperty (plist : List Object) (false indicator : Object) :
    Except Failure (Object × List Object) := do
  assertEven plist
  let (value, j, plist) ←
    stretchyRemoveLoop indicator (plist.length / 2) 0 0 false plist
  return (value, plist.take j)

/-- The loop that counts the elements to be removed. -/
def countLoop (plist : List Object) (indicator : Object) :
    Nat → Nat → Nat → Except Failure Nat
  | 0, _, count => .ok count
  | left + 1, i, count => do
      if (← vectorElement plist i) = indicator then
        countLoop plist indicator left (i + 2) (count + 2)
      else
        countLoop plist indicator left (i + 2) count

/-- The loop that copies the elements that stay. -/
def copyLoop (plist : List Object) (indicator : Object) :
    Nat → Nat → Nat → Object → List Object →
      Except Failure (Object × List Object)
  | 0, _, _, value, new => .ok (value, new)
  | left + 1, i, j, value, new => do
      if (← vectorElement plist i) = indicator then
        let value ← vectorElement plist (i + 1)
        copyLoop plist indicator left (i + 2) j value new
      else
        let new ← setVectorElement (← vectorElement plist i) new j
        let new ←
          setVectorElement (← vectorElement plist (i + 1)) new (j + 1)
        copyLoop plist indicator left (i + 2) (j + 2) value new

/-- `do-remove-property!` of a simple object vector, where a new vector is
filled with `#f`. -/
def vectorRemoveProperty (plist : List Object) (false indicator : Object) :
    Except Failure (Object × List Object) := do
  assertEven plist
  let length := plist.length
  let count ← countLoop plist indicator (length / 2) 0 0
  if count = 0 then
    return (false, plist)
  else
    let new := List.replicate (length - count) false
    copyLoop plist indicator (length / 2) 0 0 false new

end Vectors

/-! ## Runs of operations -/

/-- The operations on a variable that holds a property list. -/
inductive Operation (Object : Type) where
  | getProperty (indicator default : Object)
  | putProperty (indicator value : Object)
  | removeProperty (indicator : Object)
deriving DecidableEq

section Steps

variable [DecidableEq Object]

/-- One operation on a list: the answer, and the list after it. -/
def listStep (false : Object) (state : Heap Object × Option Nat) :
    Operation Object →
      Except Failure (Option Object × Heap Object × Option Nat)
  | .getProperty indicator default => do
      let value ← listGetProperty state.1 state.2 indicator default
      return (some value, state)
  | .putProperty indicator value => do
      let state ← listPutProperty state.1 state.2 indicator value
      return (none, state)
  | .removeProperty indicator => do
      let (value, state) ←
        listRemoveProperty state.1 state.2 false indicator
      return (some value, state)

/-- One operation on a vector, with the method that removes. -/
def vectorsStep
    (remove : List Object → Object → Except Failure (Object × List Object))
    (plist : List Object) :
    Operation Object → Except Failure (Option Object × List Object)
  | .getProperty indicator default => do
      let value ← vectorGetProperty plist indicator default
      return (some value, plist)
  | .putProperty indicator value => do
      let plist ← vectorPutProperty plist indicator value
      return (none, plist)
  | .removeProperty indicator => do
      let (value, plist) ← remove plist indicator
      return (some value, plist)

/-- One operation on a simple object vector. -/
def vectorStep (false : Object) (plist : List Object) :
    Operation Object → Except Failure (Option Object × List Object) :=
  vectorsStep (fun plist => vectorRemoveProperty plist false) plist

/-- One operation on a stretchy vector. -/
def stretchyStep (false : Object) (plist : List Object) :
    Operation Object → Except Failure (Option Object × List Object) :=
  vectorsStep (fun plist => stretchyRemoveProperty plist false) plist

/-- The answers of a run of operations, and what it leaves. -/
def run {State : Type}
    (step : State → Operation Object →
      Except Failure (Option Object × State)) :
    State → List (Operation Object) →
      Except Failure (List (Option Object) × State)
  | state, [] => .ok ([], state)
  | state, operation :: operations => do
      let (answer, state) ← step state operation
      let (answers, state) ← run step state operations
      return (answer :: answers, state)

end Steps

end OpenDylan.Collections.PropertyLists
