import OpenDylan.Lib.Chain
import Mathlib.Data.List.Infix

/-!
# Object locking in the dispatch engine

The run-time system write-locks generic functions by recording them in
`*object-lock-data*`, one linked list shared by all threads.  Each
`with-object-lock` or `with-multiple-object-lock` form allocates one spine
pair per object; the head of a spine pair is a cell `(object . token)`.
Beginning to lock splices the spine pairs in front of the list, and the
cleanup clause splices them out again.

Pairs are addresses into `head` and `tail`, so that the splicing is the
pointer surgery of the source.  Loops over the spine carry a fuel equal to the
number of allocated pairs, which never runs out under the invariant.
-/

namespace OpenDylan.Runtime.ObjectLock

open OpenDylan.Lib.Chain

variable {Object Token : Type}

/-! ## Lock data -/

/-- The pair `(object . token)` in the head of a spine pair. -/
@[ext]
structure LockCell (Object Token : Type) where
  object : Object
  token : Option Token
deriving DecidableEq

/-- The pairs reachable from `*object-lock-data*` and from pending requests. -/
structure LockData (Object Token : Type) where
  head : Nat → LockCell Object Token
  tail : Nat → Option Nat
  allocated : Nat
  objectLockData : Option Nat

/-- What `pointer-id?` compares: an object, or the cell of a spine pair. -/
inductive Reference (Object : Type) where
  | object (object : Object)
  | cell (pair : Nat)
deriving DecidableEq

/-- Identity of two references. -/
def pointerId [DecidableEq Object] (left right : Reference Object) : Bool :=
  left = right

/-- Allocate `pair(pair(object, #f), rest)`. -/
def LockData.allocate (data : LockData Object Token)
    (object : Object) (rest : Option Nat) : LockData Object Token :=
  { data with
    head := Function.update data.head data.allocated ⟨object, none⟩
    tail := Function.update data.tail data.allocated rest
    allocated := data.allocated + 1 }

/-- The spine pairs of `*object-lock-data*`, in order. -/
def LockData.recordedPairs (data : LockData Object Token) : List Nat :=
  walk data.tail data.allocated data.objectLockData

/-- The cells recorded in `*object-lock-data*`. -/
def LockData.recordedCells (data : LockData Object Token) :
    List (LockCell Object Token) :=
  data.recordedPairs.map data.head

/--
`make-multiple-object-lock-cells`: the step clause builds the list in reverse,
and the first nonempty value of it is the last pair of the result.
-/
def makeMultipleObjectLockCells (data : LockData Object Token) :
    List Object → Option Nat → Option Nat →
      LockData Object Token × Option Nat × Option Nat
  | [], answer, last =>
      (data, answer, if last = none then answer else last)
  | object :: objects, answer, last =>
      makeMultipleObjectLockCells (data.allocate object answer) objects
        (some data.allocated) (if last = none then answer else last)

/-! ## Looking for conflicts -/

/-- What `checklock` finds out about one requested object. -/
inductive CellCheck where
  | notListed
  | ownToken
  | otherToken
deriving DecidableEq

/-- The value of `multiple-objects-locked?`: `#f`, `#t` or the objects that
the requesting thread has locked itself. -/
inductive Locked (Object : Type) where
  | unlocked
  | byOther
  | recursively (objects : List Object)
deriving DecidableEq

section Requests

variable [DecidableEq Object] [DecidableEq Token]

/-- The inner loop of `multiple-objects-locked?`. -/
def checklock (data : LockData Object Token) (object : Object)
    (token : Token) : Nat → Option Nat → Option CellCheck
  | 0, _ => none
  | _ + 1, none => some .notListed
  | fuel + 1, some pair =>
      if pointerId (.object object) (.cell pair) then
        if some token = (data.head pair).token then
          some .ownToken
        else
          some .otherToken
      else
        checklock data object token fuel (data.tail pair)

/-- The outer loop of `multiple-objects-locked?`. -/
def peruse (data : LockData Object Token) (token : Token) :
    Nat → Option Nat → List Object → Option (Locked Object)
  | 0, _, _ => none
  | _ + 1, none, recursiveLosers =>
      if recursiveLosers = [] then
        some .unlocked
      else
        some (.recursively recursiveLosers)
  | fuel + 1, some cell, recursiveLosers =>
      match checklock data (data.head cell).object token
          (data.allocated + 1) data.objectLockData with
      | none => none
      | some .notListed =>
          peruse data token fuel (data.tail cell) recursiveLosers
      | some .ownToken =>
          peruse data token fuel (data.tail cell)
            ((data.head cell).object :: recursiveLosers)
      | some .otherToken => some .byOther

/-- `multiple-objects-locked?` -/
def multipleObjectsLocked (data : LockData Object Token)
    (cells : Nat) (token : Token) : Option (Locked Object) :=
  if data.objectLockData = none then
    some .unlocked
  else
    peruse data token (data.allocated + 1) (some cells) []

/-- Store the token into every cell of a spine. -/
def markCells (data : LockData Object Token) (token : Token) :
    Nat → Option Nat → Option (LockData Object Token)
  | 0, _ => none
  | _ + 1, none => some data
  | fuel + 1, some pair =>
      markCells
        { data with
          head := Function.update data.head pair
            ⟨(data.head pair).object, some token⟩ }
        token fuel (data.tail pair)

/-- The result of one round of `try-again`. -/
inductive Outcome (Object Token : Type) where
  | completed (data : LockData Object Token)
  | waiting
  | recursiveLock (objects : List Object)

/-- One round of `try-again` in `begin-locking-multiple-objects`. -/
def beginLockingMultipleObjects (data : LockData Object Token)
    (hd tl : Nat) (token : Token) : Option (Outcome Object Token) :=
  match multipleObjectsLocked data hd token with
  | none => none
  | some .unlocked =>
      match markCells data token (data.allocated + 1) (some hd) with
      | none => none
      | some marked =>
          some (.completed
            { marked with
              tail := Function.update marked.tail tl marked.objectLockData
              objectLockData := some hd })
  | some .byOther => some .waiting
  | some (.recursively objects) => some (.recursiveLock objects)

/-- The loop of `end-locking-object-cell` over the spine. -/
def sigh (data : LockData Object Token) (cell : Nat) :
    Nat → Nat → Option Nat → Option (LockData Object Token)
  | 0, _, _ => none
  | _ + 1, _, none => some data
  | fuel + 1, previous, some pair =>
      if pair = cell then
        some { data with
          tail := Function.update data.tail previous (data.tail pair) }
      else
        sigh data cell fuel pair (data.tail pair)

/-- `end-locking-object-cell` -/
def endLockingObjectCell (data : LockData Object Token) (cell : Nat) :
    Option (LockData Object Token) :=
  if some cell = data.objectLockData then
    some { data with objectLockData := data.tail cell }
  else
    match data.objectLockData with
    | none => some data
    | some first =>
        sigh data cell (data.allocated + 1) first (data.tail first)

/-- `end-locking-multiple-objects`, from the pair `cell` up to `tl`. -/
def endLockingMultipleObjects (tl : Nat) :
    Nat → LockData Object Token → Nat → Option (LockData Object Token)
  | 0, _, _ => none
  | fuel + 1, data, cell =>
      match endLockingObjectCell data cell with
      | none => none
      | some removed =>
          if cell = tl then
            some removed
          else
            match removed.tail cell with
            | none => none
            | some next => endLockingMultipleObjects tl fuel removed next

/-! ## Threads -/

/-- Where a thread is in a locking form. -/
inductive Phase where
  | requesting
  | holding
  | unwinding
deriving DecidableEq

/-- One locking form being executed: its spine, and the objects it names. -/
structure Request (Object : Type) where
  pairs : List Nat
  hd : Nat
  tl : Nat
  objects : List Object
  phase : Phase
deriving DecidableEq

/-- The lock data with the locking forms of every thread, innermost first. -/
structure System (Object Token : Type) where
  data : LockData Object Token
  requests : Token → List (Request Object)

/-- A thread may enter a locking form when it is not inside the entry or the
exit of another one. -/
def mayEnter : List (Request Object) → Bool
  | [] => true
  | request :: _ => request.phase = .holding

/-- The steps of the threads; each is atomic under the notification lock. -/
inductive Event (Object Token : Type) where
  | enterObject (thread : Token) (object : Object)
  | enterMultiple (thread : Token) (objects : List Object)
  | beginLocking (thread : Token)
  | abort (thread : Token)
  | exit (thread : Token)

/-- Push a new request of a thread. -/
def System.push (system : System Object Token) (thread : Token)
    (data : LockData Object Token) (request : Request Object) :
    System Object Token :=
  { data := data
    requests := Function.update system.requests thread
      (request :: system.requests thread) }

/-- One step of the system; `none` when the event cannot happen. -/
def step (system : System Object Token) :
    Event Object Token → Option (System Object Token)
  | .enterObject thread object =>
      if mayEnter (system.requests thread) then
        let pair := system.data.allocated
        some (system.push thread (system.data.allocate object none)
          ⟨[pair], pair, pair, [object], .requesting⟩)
      else
        none
  | .enterMultiple thread objects =>
      if mayEnter (system.requests thread) then
        match makeMultipleObjectLockCells system.data objects none none with
        | (data, some hd, some tl) =>
            some (system.push thread data
              ⟨(List.range' system.data.allocated objects.length).reverse,
                hd, tl, objects.reverse, .requesting⟩)
        | _ => none
      else
        none
  | .beginLocking thread =>
      match system.requests thread with
      | ⟨pairs, hd, tl, objects, .requesting⟩ :: outer =>
          match beginLockingMultipleObjects system.data hd tl thread with
          | none => none
          | some (.completed data) =>
              some
                { data := data
                  requests := Function.update system.requests thread
                    (⟨pairs, hd, tl, objects, .holding⟩ :: outer) }
          | some .waiting => some system
          | some (.recursiveLock _) =>
              some { system with
                requests := Function.update system.requests thread
                  (⟨pairs, hd, tl, objects, .unwinding⟩ :: outer) }
      | _ => none
  | .abort thread =>
      match system.requests thread with
      | ⟨pairs, hd, tl, objects, .requesting⟩ :: outer =>
          some { system with
            requests := Function.update system.requests thread
              (⟨pairs, hd, tl, objects, .unwinding⟩ :: outer) }
      | _ => none
  | .exit thread =>
      match system.requests thread with
      | request :: outer =>
          if request.phase = .requesting then
            none
          else
            match endLockingMultipleObjects request.tl
                (system.data.allocated + 1) system.data request.hd with
            | none => none
            | some data =>
                some
                  { data := data
                    requests := Function.update system.requests thread
                      outer }
      | [] => none

/-- A run: the events happen one after the other. -/
def run (system : System Object Token) :
    List (Event Object Token) → Option (System Object Token)
  | [] => some system
  | event :: events => (step system event).bind (fun next => run next events)

/-- No lock is recorded and no thread is in a locking form. -/
def initial [Inhabited Object] : System Object Token :=
  { data :=
      { head := fun _ => ⟨default, none⟩
        tail := fun _ => none
        allocated := 0
        objectLockData := none }
    requests := fun _ => [] }

end Requests

end OpenDylan.Runtime.ObjectLock
