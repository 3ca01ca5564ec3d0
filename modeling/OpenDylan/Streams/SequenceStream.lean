import Mathlib.Data.List.Basic

/-!
# Sequence streams

A stream over a sequence keeps the positions at which it begins, at which the
next operation takes place and at which its elements end, and perhaps a limit
that is looked at in place of the last of them.  The sequence has more room
than is in use; when a write needs more, it is replaced by a longer one.
-/

namespace OpenDylan.Streams.SequenceStream

/-- What stops a stream: an index outside a sequence, bounds of a copy that are
out of order, and a negative size. -/
inductive Stop where
  | outside (index : Nat)
  | badBounds (start finish : Int)
  | negativeSize (size : Int)
deriving DecidableEq

/-- `stream-direction` -/
inductive Direction where
  | input
  | output
  | inputOutput
deriving DecidableEq

/-- `readable?` of an open stream -/
def Direction.readable : Direction → Bool
  | .output => false
  | _ => true

/-- `writable?` of an open stream -/
def Direction.writable : Direction → Bool
  | .input => false
  | _ => true

/-- `<sequence-stream>`, with the elements that a new sequence of the class of
its sequence is filled with. -/
structure Stream (Object : Type) where
  direction : Direction
  stretchy : Bool
  fill : Object
  streamSequence : List Object
  initialPosition : Nat
  currentPosition : Nat
  finalPosition : Nat
  streamLimit : Option Nat

/-- What reading into a sequence comes to. -/
inductive Outcome (Object : Type) where
  | count (count : Int)
  | onEndOfStream (value : Object)
  | incompleteReadError (count : Int) (sequence : List Object)
deriving DecidableEq

/-- What operations answer, errors of the stream included. -/
inductive Answer (Object : Type) where
  | element (element : Object)
  | elements (elements : List Object)
  | onEndOfStream (value : Object)
  | endOfStreamError
  | incompleteReadError (count : Int) (sequence : List Object)
  | into (destination : List Object) (outcome : Outcome Object)
  | size (size : Int)
  | done
  | streamNotReadable
  | streamNotWritable
deriving DecidableEq

section Streams

variable {Object : Type}

/-! ## Sequences -/

/-- `sequence[position]` -/
def elementAt (sequence : List Object) (position : Nat) :
    Except Stop Object :=
  match sequence[position]? with
  | none => .error (.outside position)
  | some element => .ok element

/-- `sequence[position] := element` -/
def setElementAt (sequence : List Object) (position : Nat)
    (element : Object) : Except Stop (List Object) :=
  if position < sequence.length then
    .ok (sequence.set position element)
  else
    .error (.outside position)

/-- `copy-sequence` -/
def copySequence (sequence : List Object) (start : Nat) (finish : Int) :
    Except Stop (List Object) :=
  if start ≤ finish ∧ finish ≤ sequence.length then
    .ok ((sequence.take finish.toNat).drop start)
  else
    .error (.badBounds start finish)

/-- The loop of `copy-bytes` -/
def copyBytes (destination : List Object) (destinationStart : Nat)
    (source : List Object) (sourceStart : Nat) :
    Nat → Except Stop (List Object)
  | 0 => .ok destination
  | count + 1 => do
      let element ← elementAt source sourceStart
      let destination ← setElementAt destination destinationStart element
      copyBytes destination (destinationStart + 1) source (sourceStart + 1)
        count

/-! ## Streams -/

/-- The sizes and bounds that a stream is made with. -/
structure Bounds (contents : List Object) where
  start : Nat
  finish : Option Nat
  inside : finish.getD contents.length ≤ contents.length
  ordered : start ≤ finish.getD contents.length

/-- The stream that `make` initializes. -/
def makeStream (direction : Direction) (stretchy : Bool) (fill : Object)
    (contents : List Object) (bounds : Bounds contents) : Stream Object where
  direction := direction
  stretchy := stretchy
  fill := fill
  streamSequence := contents
  initialPosition := bounds.start
  currentPosition := bounds.start
  streamLimit := bounds.finish
  finalPosition :=
    if direction = .output then bounds.start else contents.length

/-- `stream-limit(stream) | stream.final-position` -/
def Stream.limit (stream : Stream Object) : Nat :=
  stream.streamLimit.getD stream.finalPosition

/-- `end-of-stream-value` -/
def endOfStreamValue : Option Object → Answer Object
  | some value => .onEndOfStream value
  | none => .endOfStreamError

/-- `peek` -/
def peek (stream : Stream Object) (onEndOfStream : Option Object) :
    Except Stop (Answer Object × Stream Object) :=
  if stream.direction.readable then
    let position := stream.currentPosition
    if position < stream.limit then do
      let element ← elementAt stream.streamSequence position
      return (.element element, stream)
    else
      .ok (endOfStreamValue onEndOfStream, stream)
  else
    .ok (.streamNotReadable, stream)

/-- `read-element` -/
def readElement (stream : Stream Object) (onEndOfStream : Option Object) :
    Except Stop (Answer Object × Stream Object) :=
  if stream.direction.readable then
    let position := stream.currentPosition
    if position < stream.limit then do
      let element ← elementAt stream.streamSequence position
      return (.element element,
        { stream with currentPosition := position + 1 })
    else
      .ok (endOfStreamValue onEndOfStream, stream)
  else
    .ok (.streamNotReadable, stream)

/-- `sequence[position] := element` if there is another element -/
def putBack [DecidableEq Object] (sequence : List Object) (position : Nat)
    (element : Object) : Except Stop (List Object) := do
  let before ← elementAt sequence position
  if before ≠ element then setElementAt sequence position element
  else return sequence

/-- `unread-element` -/
def unreadElement [DecidableEq Object] (stream : Stream Object)
    (element : Object) : Except Stop (Answer Object × Stream Object) :=
  if stream.direction.readable then
    let position := stream.currentPosition
    if 0 < position then do
      let sequence ← putBack stream.streamSequence (position - 1) element
      return (.element element,
        { stream with
          currentPosition := position - 1, streamSequence := sequence })
    else
      .ok (.element element, stream)
  else
    .ok (.streamNotReadable, stream)

/-- What `read` does at the end of a stream. -/
def incompleteRead (sequence : List Object) (position : Nat) (sourceN : Int) :
    Except Stop (Answer Object) :=
  if sourceN = 0 then
    .ok .endOfStreamError
  else do
    let elements ← copySequence sequence position (position + sourceN)
    return .incompleteReadError sourceN elements

/-- `read` -/
def read (stream : Stream Object) (n : Nat) (onEndOfStream : Option Object) :
    Except Stop (Answer Object × Stream Object) :=
  if stream.direction.readable then
    let position := stream.currentPosition
    let sourceN : Int := stream.limit - position
    if n > sourceN then
      let stream' :=
        { stream with currentPosition := (position + sourceN).toNat }
      match onEndOfStream with
      | some value => .ok (.onEndOfStream value, stream')
      | none => do
          let answer ← incompleteRead stream.streamSequence position sourceN
          return (answer, stream')
    else do
      let elements ←
        copySequence stream.streamSequence position (position + n)
      return (.elements elements,
        { stream with currentPosition := position + n })
  else
    .ok (.streamNotReadable, stream)

/-- `read-into!` -/
def readInto (stream : Stream Object) (n : Nat) (destination : List Object)
    (start : Nat) (onEndOfStream : Option Object) :
    Except Stop (Answer Object × Stream Object) :=
  if stream.direction.readable then
    let position := stream.currentPosition
    let sourceN : Int := stream.limit - position
    let destinationN : Int := destination.length - start
    let nRead : Int := min (n : Int) (min sourceN destinationN)
    let stream' :=
      { stream with currentPosition := (position + nRead).toNat }
    if n > nRead then
      match onEndOfStream with
      | some value => .ok (.into destination (.onEndOfStream value), stream')
      | none => do
          let elements ← copySequence destination start (start + nRead)
          return (.into destination (.incompleteReadError nRead elements),
            stream')
    else do
      let destination ← copyBytes destination start stream.streamSequence
        position nRead.toNat
      return (.into destination (.count nRead), stream')
  else
    .ok (.streamNotReadable, stream)

/-- `grow-for-stream`: a stretchy vector gets the size that is asked for,
another sequence is copied to one that is at least twice as long. -/
def growForStream (stretchy : Bool) (fill : Object) (sequence : List Object)
    (minSize : Nat) : List Object :=
  let n := sequence.length
  if stretchy then
    sequence.take minSize ++ List.replicate (minSize - n) fill
  else
    sequence ++ List.replicate (max minSize (2 * n) - n) fill

/-- The loop that makes a sequence long enough. -/
def growWhile (stretchy : Bool) (fill : Object) (required : Nat)
    (sequence : List Object) : List Object :=
  if sequence.length < required then
    growWhile stretchy fill required
      (growForStream stretchy fill sequence required)
  else
    sequence
termination_by required - sequence.length
decreasing_by
  unfold growForStream
  split <;> simp <;> omega

/-- `write-element` -/
def writeElement (stream : Stream Object) (element : Object) :
    Except Stop (Answer Object × Stream Object) :=
  if stream.direction.writable then do
    let position := stream.currentPosition
    let grown := growWhile stream.stretchy stream.fill (position + 1)
      stream.streamSequence
    let sequence ← setElementAt grown position element
    return (.done,
      { stream with
        streamSequence := sequence
        currentPosition := position + 1
        finalPosition :=
          if position ≥ stream.finalPosition then position + 1
          else stream.finalPosition })
  else
    .ok (.streamNotWritable, stream)

/-- `write` -/
def write (stream : Stream Object) (source : List Object) (start : Nat)
    (finish : Option Nat) : Except Stop (Answer Object × Stream Object) :=
  if stream.direction.writable then do
    let position := stream.currentPosition
    let count := finish.getD source.length - start
    let grown := growWhile stream.stretchy stream.fill (position + count)
      stream.streamSequence
    let sequence ← copyBytes grown position source start count
    let newPosition := position + count
    return (.done,
      { stream with
        streamSequence := sequence
        currentPosition := newPosition
        finalPosition :=
          if newPosition > stream.finalPosition then newPosition
          else stream.finalPosition })
  else
    .ok (.streamNotWritable, stream)

/-- `stream-size` -/
def streamSize (stream : Stream Object) : Int :=
  stream.limit - stream.initialPosition

/-- `clear-contents` -/
def clearContents (stream : Stream Object) : Stream Object :=
  { stream with
    currentPosition := 0
    finalPosition := stream.streamLimit.getD 0 }

/-- `stream-contents` -/
def streamContents (stream : Stream Object) (clear : Bool) :
    Except Stop (Answer Object × Stream Object) :=
  let start := stream.initialPosition
  let n : Int := stream.limit - start
  if n < 0 then
    .error (.negativeSize n)
  else do
    let result ← copyBytes (List.replicate n.toNat stream.fill) 0
      stream.streamSequence start n.toNat
    return (.elements result,
      if clear then clearContents stream else stream)

/-- An operation on a stream; bounds of other sequences are inside them. -/
inductive Operation (Object : Type) where
  | readElement (onEndOfStream : Option Object)
  | peek (onEndOfStream : Option Object)
  | unreadElement (element : Object)
  | read (n : Nat) (onEndOfStream : Option Object)
  | readInto (n : Nat) (destination : List Object) (start : Nat)
      (inside : start ≤ destination.length) (onEndOfStream : Option Object)
  | writeElement (element : Object)
  | write (source : List Object) (bounds : Bounds source)
  | streamSize
  | streamContents (clear : Bool)

/-- One operation. -/
def step [DecidableEq Object] (stream : Stream Object) :
    Operation Object → Except Stop (Answer Object × Stream Object)
  | .readElement onEndOfStream => readElement stream onEndOfStream
  | .peek onEndOfStream => peek stream onEndOfStream
  | .unreadElement element => unreadElement stream element
  | .read n onEndOfStream => read stream n onEndOfStream
  | .readInto n destination start _ onEndOfStream =>
      readInto stream n destination start onEndOfStream
  | .writeElement element => writeElement stream element
  | .write source bounds => write stream source bounds.start bounds.finish
  | .streamSize => .ok (.size (streamSize stream), stream)
  | .streamContents clear => streamContents stream clear

/-- A sequence of operations. -/
def run [DecidableEq Object] :
    List (Operation Object) → Stream Object →
      Except Stop (List (Answer Object) × Stream Object)
  | [], stream => return ([], stream)
  | operation :: operations, stream => do
      let (answer, stream) ← step stream operation
      let (answers, stream) ← run operations stream
      return (answer :: answers, stream)

end Streams

end OpenDylan.Streams.SequenceStream
