import OpenDylan.Lib.Positioned
import OpenDylan.Streams.SequenceStream

/-!
# Copying and growing

What the loops of a sequence stream come to: elements are laid over others, and
a sequence that grows keeps what it has.
-/

namespace OpenDylan.Streams.SequenceStream

open Lib.Positioned

variable {Object : Type} {sequence destination source : List Object}

theorem elementAt_ok {position : Nat} {element : Object}
    (here : sequence[position]? = some element) :
    elementAt sequence position = .ok element := by
  unfold elementAt
  rw [here]

theorem setElementAt_ok {position : Nat} {element : Object}
    (inside : position < sequence.length) :
    setElementAt sequence position element =
      .ok (sequence.set position element) := by
  unfold setElementAt
  rw [if_pos inside]

/-- Putting back an element stores it. -/
theorem putBack_ok [DecidableEq Object] {position : Nat} (element : Object)
    (inside : position < sequence.length) :
    putBack sequence position element =
      .ok (sequence.set position element) := by
  unfold putBack
  rw [elementAt_ok (List.getElem?_eq_getElem inside)]
  show (if sequence[position] ≠ element then _ else _) = _
  by_cases same : sequence[position] = element
  · rw [if_neg (not_not.mpr same), ← same, List.set_getElem_self]
    rfl
  · rw [if_pos same]
    exact setElementAt_ok inside

theorem copySequence_ok {start : Nat} {count : Nat}
    (inside : start + count ≤ sequence.length) :
    copySequence sequence start ((start : Int) + count) =
      .ok ((sequence.drop start).take count) := by
  unfold copySequence
  rw [if_pos (by omega)]
  have finish : ((start : Int) + count).toNat = start + count := by omega
  rw [finish, List.drop_take, Nat.add_sub_cancel_left]

/-- Copying lays a part of the source over the destination. -/
theorem copyBytes_ok {count destinationStart sourceStart : Nat}
    (room : destinationStart + count ≤ destination.length)
    (enough : sourceStart + count ≤ source.length) :
    copyBytes destination destinationStart source sourceStart count =
      .ok (overlay destination destinationStart
        ((source.drop sourceStart).take count)) := by
  induction count generalizing destination destinationStart sourceStart with
  | zero => rw [copyBytes, List.take_zero, overlay_nil]
  | succ count inductionHypothesis =>
      have inside : sourceStart < source.length := by omega
      have space : destinationStart < destination.length := by omega
      have here := List.getElem?_eq_getElem inside
      have length : destinationStart + 1 + count ≤
          (destination.set destinationStart source[sourceStart]).length := by
        rw [List.length_set]
        omega
      have later : sourceStart + 1 + count ≤ source.length := by omega
      unfold copyBytes
      rw [elementAt_ok here]
      show (setElementAt destination destinationStart _ >>= _) = _
      rw [setElementAt_ok space]
      show copyBytes _ _ _ _ _ = _
      rw [inductionHypothesis length later, overlay_cons space, List.drop_eq_getElem_cons inside,
        List.take_succ_cons]

theorem growForStream_append (stretchy : Bool) (fill : Object)
    {minSize : Nat} (short : sequence.length < minSize) :
    ∃ room, growForStream stretchy fill sequence minSize = sequence ++ room ∧
      minSize ≤ (sequence ++ room).length := by
  unfold growForStream
  cases stretchy with
  | true =>
      refine ⟨List.replicate (minSize - sequence.length) fill, ?_, ?_⟩
      · rw [if_pos rfl, List.take_of_length_le (Nat.le_of_lt short)]
      · rw [List.length_append, List.length_replicate]
        omega
  | false =>
      refine ⟨List.replicate (max minSize (2 * sequence.length) -
        sequence.length) fill, rfl, ?_⟩
      rw [List.length_append, List.length_replicate]
      omega

/-- A sequence that grows keeps its elements and is long enough. -/
theorem growWhile_append (stretchy : Bool) (fill : Object) (required : Nat)
    (sequence : List Object) :
    ∃ room, growWhile stretchy fill required sequence = sequence ++ room ∧
      required ≤ (sequence ++ room).length := by
  unfold growWhile
  by_cases short : sequence.length < required
  · obtain ⟨room, grown, enough⟩ :=
      growForStream_append stretchy fill short
    refine ⟨room, ?_, enough⟩
    rw [if_pos short, grown]
    unfold growWhile
    rw [if_neg (Nat.not_lt.mpr enough)]
  · refine ⟨[], ?_, ?_⟩
    · rw [if_neg short, List.append_nil]
    · rw [List.append_nil]
      exact Nat.not_lt.mp short

end OpenDylan.Streams.SequenceStream

/-!
# Sequence streams as contents with a position

A stream stands for the elements from its initial position to its end, with a
position in them.  Its operations are those on the contents when an incomplete
`read-into!` consumes nothing, a write ends within the limit, and contents are
cleared that start at 0 and have no limit.
-/

namespace OpenDylan.Streams.SequenceStream

open Lib.Positioned

variable {Object : Type} [DecidableEq Object] {stream : Stream Object}
  {cursor : Cursor Object}

/-! ## Contents and positions -/

/-- What reading answers on a stream that can be read. -/
def whenReadable (direction : Direction) (cursor : Cursor Object)
    (result : Answer Object × Cursor Object) :
    Answer Object × Cursor Object :=
  if direction.readable then result else (.streamNotReadable, cursor)

/-- What writing answers on a stream that can be written. -/
def whenWritable (direction : Direction) (cursor : Cursor Object)
    (result : Answer Object × Cursor Object) :
    Answer Object × Cursor Object :=
  if direction.writable then result else (.streamNotWritable, cursor)

/-- One operation on contents with a position. -/
def cursorStep (direction : Direction) (cursor : Cursor Object) :
    Operation Object → Answer Object × Cursor Object
  | .readElement onEndOfStream =>
      whenReadable direction cursor
        (match cursor.rest with
          | [] => (endOfStreamValue onEndOfStream, cursor)
          | element :: _ => (.element element, cursor.advance 1))
  | .peek onEndOfStream =>
      whenReadable direction cursor
        (match cursor.rest with
          | [] => (endOfStreamValue onEndOfStream, cursor)
          | element :: _ => (.element element, cursor))
  | .unreadElement element =>
      whenReadable direction cursor (.element element, cursor.back element)
  | .read n onEndOfStream =>
      whenReadable direction cursor
        (if n ≤ cursor.rest.length then .elements (cursor.rest.take n)
          else
            match onEndOfStream with
            | some value => .onEndOfStream value
            | none =>
                match cursor.rest with
                | [] => .endOfStreamError
                | rest => .incompleteReadError rest.length rest,
          cursor.advance n)
  | .readInto n destination start _ onEndOfStream =>
      let consumed :=
        cursor.rest.take (min n (destination.length - start))
      whenReadable direction cursor
        (.into (overlay destination start consumed)
          (if consumed.length = n then .count n
            else
              match onEndOfStream with
              | some value => .onEndOfStream value
              | none => .incompleteReadError consumed.length consumed),
          cursor.advance consumed.length)
  | .writeElement element =>
      whenWritable direction cursor (.done, cursor.overwrite [element])
  | .write source bounds =>
      whenWritable direction cursor
        (.done, cursor.overwrite ((source.drop bounds.start).take
          (bounds.finish.getD source.length - bounds.start)))
  | .streamSize => (.size cursor.contents.length, cursor)
  | .streamContents clear =>
      (.elements cursor.contents, if clear then Cursor.start [] else cursor)

/-- A sequence of operations on contents with a position. -/
def cursorRun (direction : Direction) :
    List (Operation Object) → Cursor Object →
      List (Answer Object) × Cursor Object
  | [], cursor => ([], cursor)
  | operation :: operations, cursor =>
      let first := cursorStep direction cursor operation
      let rest := cursorRun direction operations first.2
      (first.1 :: rest.1, rest.2)

/-- The contents that a stream is made with: those between its bounds, and none
when it is for output and has no limit. -/
def madeContents (direction : Direction) (contents : List Object)
    (bounds : Bounds contents) : List Object :=
  if direction = .output ∧ bounds.finish = none then []
  else (contents.take (bounds.finish.getD contents.length)).drop bounds.start

/-- The answers to a sequence of operations on a stream are those on its
contents with a position. -/
def AsContents (stream : Stream Object) (contents : List Object)
    (operations : List (Operation Object)) : Prop :=
  ∃ last, run operations stream =
    .ok ((cursorRun stream.direction operations (Cursor.start contents)).1,
      last)

/-! ## The contents of a stream -/

/-- The contents of a stream and its position in them. -/
structure Refines (stream : Stream Object) (cursor : Cursor Object) :
    Prop where
  sequence : ∃ before after,
    stream.streamSequence = before ++ cursor.contents ++ after ∧
      before.length = stream.initialPosition
  position :
    stream.currentPosition = stream.initialPosition + cursor.position
  limit : stream.limit = stream.initialPosition + cursor.contents.length

/-- Before an operation, it does not come to where streams and contents differ:
an incomplete `read-into!` finds nothing to consume, what is written ends
within a limit, an element is not put back before the initial position, and
contents that are cleared start at 0 and have no limit but 0. -/
def Allowed (stream : Stream Object) : Operation Object → Prop
  | .readElement _ => True
  | .peek _ => True
  | .unreadElement _ =>
      stream.direction.readable = true → stream.initialPosition = 0 ∨
        stream.initialPosition < stream.currentPosition
  | .read _ _ => True
  | .readInto n destination start _ _ =>
      stream.direction.readable = true →
        let nRead := min n (min (stream.limit - stream.currentPosition)
          (destination.length - start))
        nRead = n ∨ nRead = 0
  | .writeElement _ =>
      stream.direction.writable = true →
        ∀ limit ∈ stream.streamLimit, stream.currentPosition + 1 ≤ limit
  | .write source bounds =>
      stream.direction.writable = true →
        ∀ limit ∈ stream.streamLimit,
          stream.currentPosition +
            (bounds.finish.getD source.length - bounds.start) ≤ limit
  | .streamSize => True
  | .streamContents clear =>
      clear = true →
        stream.initialPosition = 0 ∧ stream.streamLimit.getD 0 = 0

/-- Every operation of a sequence is allowed in the state before it. -/
def AllowedRun : Stream Object → List (Operation Object) → Prop
  | _, [] => True
  | stream, operation :: operations =>
      Allowed stream operation ∧
        ∀ answer next, step stream operation = .ok (answer, next) →
          AllowedRun next operations

section Positions

omit [DecidableEq Object]

theorem Refines.inside (refines : Refines stream cursor) :
    stream.initialPosition + cursor.contents.length ≤
      stream.streamSequence.length := by
  obtain ⟨before, after, whole, length⟩ := refines.sequence
  rw [whole, ← length]
  simp

theorem Refines.getElem? (refines : Refines stream cursor) {index : Nat}
    (inside : index < cursor.contents.length) :
    stream.streamSequence[stream.initialPosition + index]? =
      cursor.contents[index]? := by
  obtain ⟨before, after, whole, length⟩ := refines.sequence
  rw [whole, ← length, List.append_assoc,
    List.getElem?_append_right (Nat.le_add_right _ _), Nat.add_sub_cancel_left,
    List.getElem?_append_left inside]

theorem Refines.slice (refines : Refines stream cursor) {index count : Nat}
    (inside : index + count ≤ cursor.contents.length) :
    (stream.streamSequence.drop (stream.initialPosition + index)).take count =
      (cursor.contents.drop index).take count := by
  obtain ⟨before, after, whole, length⟩ := refines.sequence
  rw [whole, ← length, List.append_assoc, List.drop_length_add_append,
    List.drop_append_of_le_length (by omega), List.take_append_of_le_length]
  rw [List.length_drop]
  omega

/-- Moving within the contents. -/
theorem Refines.move (refines : Refines stream cursor)
    {position : Nat} {moved : Cursor Object}
    (contents : moved.contents = cursor.contents)
    (place : position = stream.initialPosition + moved.position) :
    Refines { stream with currentPosition := position } moved where
  sequence := by
    rw [contents]
    exact refines.sequence
  position := place
  limit := by
    rw [contents]
    exact refines.limit

theorem Refines.advance (refines : Refines stream cursor) {count : Nat}
    (inside : cursor.position + count ≤ cursor.contents.length) :
    Refines { stream with currentPosition := stream.currentPosition + count }
      (cursor.advance count) := by
  apply refines.move
  · rfl
  · show _ = stream.initialPosition +
      min (cursor.position + count) cursor.contents.length
    rw [refines.position, Nat.min_eq_left inside, Nat.add_assoc]

theorem Refines.lt_limit_iff (refines : Refines stream cursor) :
    stream.currentPosition < stream.limit ↔
      cursor.position < cursor.contents.length := by
  rw [refines.position, refines.limit]
  omega

theorem rest_cons (inside : cursor.position < cursor.contents.length) :
    ∃ element, cursor.contents[cursor.position]? = some element ∧
      cursor.rest = element :: cursor.contents.drop (cursor.position + 1) :=
  ⟨_, List.getElem?_eq_getElem inside, List.drop_eq_getElem_cons inside⟩

theorem rest_nil (outside : ¬cursor.position < cursor.contents.length) :
    cursor.rest = [] :=
  List.drop_eq_nil_of_le (Nat.not_lt.mp outside)

theorem Refines.sourceN (refines : Refines stream cursor) :
    (stream.limit : Int) - stream.currentPosition =
      (cursor.rest.length : Int) := by
  have within := cursor.within
  rw [refines.limit, refines.position, Cursor.length_rest]
  omega

/-- The rest of a stream. -/
theorem Refines.copyRest (refines : Refines stream cursor) {count : Nat}
    (inside : count ≤ cursor.rest.length) :
    copySequence stream.streamSequence stream.currentPosition
        ((stream.currentPosition : Int) + count) =
      .ok (cursor.rest.take count) := by
  have within := cursor.within
  have room := refines.inside
  rw [Cursor.length_rest] at inside
  rw [copySequence_ok, refines.position, refines.slice]
  · rfl
  · omega
  · rw [refines.position]
    omega

/-- What was written lies over the contents. -/
theorem Refines.wrote (refines : Refines stream cursor)
    {elements room : List Object} {final : Nat}
    (within : ∀ limit ∈ stream.streamLimit,
      stream.currentPosition + elements.length ≤ limit)
    (last : final =
      max stream.finalPosition (stream.currentPosition + elements.length)) :
    Refines { stream with
      streamSequence := overlay (stream.streamSequence ++ room)
        stream.currentPosition elements
      currentPosition := stream.currentPosition + elements.length
      finalPosition := final } (cursor.overwrite elements) where
  sequence := by
    obtain ⟨before, after, whole, length⟩ := refines.sequence
    refine ⟨before, (after ++ room).drop
      (cursor.position + elements.length - cursor.contents.length), ?_,
      length⟩
    show overlay (stream.streamSequence ++ room) stream.currentPosition _ = _
    rw [whole, refines.position, ← length,
      List.append_assoc (before ++ cursor.contents), overlay_append
        cursor.within]
    rfl
  position := by
    show stream.currentPosition + elements.length =
      stream.initialPosition + (cursor.position + elements.length)
    rw [refines.position, Nat.add_assoc]
  limit := by
    have place := refines.position
    have limit := refines.limit
    show stream.streamLimit.getD final = stream.initialPosition +
      (overlay cursor.contents cursor.position elements).length
    rw [length_overlay cursor.within]
    unfold Stream.limit at limit
    cases limited : stream.streamLimit with
    | none =>
        rw [limited] at limit
        simp only [Option.getD_none] at limit ⊢
        omega
    | some bound =>
        have ends := within bound limited
        rw [limited] at limit
        simp only [Option.getD_some] at limit ⊢
        omega

end Positions

/-! ## Single operations -/

/-- An operation answers as on the contents. -/
def StepRefines (stream : Stream Object) (cursor : Cursor Object)
    (operation : Operation Object) : Prop :=
  ∃ next, step stream operation =
      .ok ((cursorStep stream.direction cursor operation).1, next) ∧
    Refines next (cursorStep stream.direction cursor operation).2 ∧
      next.direction = stream.direction

theorem Refines.readElement (refines : Refines stream cursor)
    (onEndOfStream : Option Object) :
    StepRefines stream cursor (.readElement onEndOfStream) := by
  simp only [StepRefines, step, cursorStep, whenReadable,
    SequenceStream.readElement]
  by_cases readable : stream.direction.readable = true
  · simp only [readable, if_true, refines.lt_limit_iff]
    by_cases inside : cursor.position < cursor.contents.length
    · obtain ⟨element, here, rest⟩ := rest_cons inside
      have there := refines.getElem? inside
      rw [← refines.position, here] at there
      simp only [inside, if_true, rest, elementAt_ok there]
      exact ⟨_, rfl, refines.advance (by omega), rfl⟩
    · simp only [inside, if_false, rest_nil inside]
      exact ⟨_, rfl, refines, rfl⟩
  · simp only [readable]
    exact ⟨_, rfl, refines, rfl⟩

theorem Refines.peek (refines : Refines stream cursor)
    (onEndOfStream : Option Object) :
    StepRefines stream cursor (.peek onEndOfStream) := by
  simp only [StepRefines, step, cursorStep, whenReadable,
    SequenceStream.peek]
  by_cases readable : stream.direction.readable = true
  · simp only [readable, if_true, refines.lt_limit_iff]
    by_cases inside : cursor.position < cursor.contents.length
    · obtain ⟨element, here, rest⟩ := rest_cons inside
      have there := refines.getElem? inside
      rw [← refines.position, here] at there
      simp only [inside, if_true, rest, elementAt_ok there]
      exact ⟨_, rfl, refines, rfl⟩
    · simp only [inside, if_false, rest_nil inside]
      exact ⟨_, rfl, refines, rfl⟩
  · simp only [readable]
    exact ⟨_, rfl, refines, rfl⟩

theorem Refines.unreadElement (refines : Refines stream cursor)
    (element : Object) (allowed : Allowed stream (.unreadElement element)) :
    StepRefines stream cursor (.unreadElement element) := by
  simp only [StepRefines, step, cursorStep, whenReadable,
    SequenceStream.unreadElement]
  by_cases readable : stream.direction.readable = true
  · simp only [readable, if_true]
    by_cases first : cursor.position = 0
    · have atStart : stream.currentPosition = 0 := by
        have place := refines.position
        cases allowed readable with
        | inl zero => omega
        | inr later => omega
      simp only [atStart, Nat.lt_irrefl, if_false]
      refine ⟨_, rfl, ?_, rfl⟩
      have back : cursor.back element = cursor := by
        ext1
        · exact if_pos first
        · show cursor.position - 1 = cursor.position
          omega
      rw [back]
      exact refines
    · have within := cursor.within
      have inside : cursor.position - 1 < cursor.contents.length := by omega
      have there := refines.getElem? inside
      have place : stream.initialPosition + (cursor.position - 1) =
          stream.currentPosition - 1 := by
        rw [refines.position]
        omega
      have positive : 0 < stream.currentPosition := by
        rw [refines.position]
        omega
      rw [place, List.getElem?_eq_getElem inside] at there
      have room : stream.currentPosition - 1 <
          stream.streamSequence.length :=
        (List.getElem?_eq_some_iff.mp there).1
      simp only [positive, if_true, putBack_ok element room]
      refine ⟨_, rfl, ?_, rfl⟩
      · have contents : (cursor.back element).contents =
            cursor.contents.set (cursor.position - 1) element := if_neg first
        constructor
        case sequence =>
            obtain ⟨before, after, whole, length⟩ := refines.sequence
            refine ⟨before, after, ?_, length⟩
            show stream.streamSequence.set _ _ = _
            rw [whole, contents, ← place, ← length, List.append_assoc,
              List.set_append_right _ _ (Nat.le_add_right _ _),
              Nat.add_sub_cancel_left, List.set_append_left _ _ inside,
              List.append_assoc]
        case position => exact place.symm
        case limit =>
            rw [contents, List.length_set]
            exact refines.limit
  · simp only [readable]
    exact ⟨_, rfl, refines, rfl⟩

theorem Refines.read (refines : Refines stream cursor) (n : Nat)
    (onEndOfStream : Option Object) :
    StepRefines stream cursor (.read n onEndOfStream) := by
  have within := cursor.within
  have length : cursor.rest.length =
      cursor.contents.length - cursor.position := Cursor.length_rest
  simp only [StepRefines, step, cursorStep, whenReadable,
    SequenceStream.read]
  by_cases readable : stream.direction.readable = true
  · simp only [readable, if_true, refines.sourceN]
    by_cases enough : n ≤ cursor.rest.length
    · have notMore : ¬(n : Int) > cursor.rest.length := by omega
      simp only [enough, notMore, if_true, if_false, refines.copyRest enough]
      exact ⟨_, rfl, refines.advance (by omega), rfl⟩
    · have more : (n : Int) > cursor.rest.length := by omega
      have final : Refines { stream with currentPosition :=
          ((stream.currentPosition : Int) + cursor.rest.length).toNat }
            (cursor.advance n) := by
        apply refines.move
        · rfl
        · show _ = stream.initialPosition +
            min (cursor.position + n) cursor.contents.length
          rw [refines.position]
          omega
      simp only [enough, more, if_true, if_false]
      cases onEndOfStream with
      | some value => exact ⟨_, rfl, final, rfl⟩
      | none =>
          have copied := refines.copyRest (Nat.le_refl _)
          rw [List.take_length] at copied
          simp only [incompleteRead, copied]
          cases rest : cursor.rest with
          | nil =>
              rw [rest] at final
              exact ⟨_, rfl, final, rfl⟩
          | cons element elements =>
              rw [rest] at final
              have some : ¬((element :: elements).length : Int) = 0 := by
                rw [List.length_cons]
                omega
              simp only [some, if_false]
              exact ⟨_, rfl, final, rfl⟩
  · simp only [readable]
    exact ⟨_, rfl, refines, rfl⟩

theorem Refines.readInto (refines : Refines stream cursor) (n : Nat)
    (destination : List Object) (start : Nat)
    (inside : start ≤ destination.length) (onEndOfStream : Option Object)
    (allowed : Allowed stream
      (.readInto n destination start inside onEndOfStream)) :
    StepRefines stream cursor
      (.readInto n destination start inside onEndOfStream) := by
  have within := cursor.within
  have length : cursor.rest.length =
      cursor.contents.length - cursor.position := Cursor.length_rest
  have sourceN := refines.sourceN
  simp only [StepRefines, step, cursorStep, whenReadable,
    SequenceStream.readInto]
  by_cases readable : stream.direction.readable = true
  · have whole := allowed readable
    have available : stream.limit - stream.currentPosition =
        cursor.rest.length := by omega
    simp only [available] at whole
    simp only [readable, if_true, sourceN]
    by_cases complete : n ≤ min cursor.rest.length
        (destination.length - start)
    · have nRead : min (n : Int) (min (cursor.rest.length : Int)
          ((destination.length : Int) - start)) = n := by omega
      have count : min n (destination.length - start) = n := by omega
      have consumed : (cursor.rest.take n).length = n := by
        rw [List.length_take]
        omega
      have notMore : ¬(n : Int) > n := by omega
      have room := refines.inside
      simp only [nRead, count, consumed, notMore, if_true, if_false]
      refine ⟨{ stream with
        currentPosition := stream.currentPosition + n }, ?_,
          refines.advance (by omega), rfl⟩
      rw [Int.toNat_natCast, copyBytes_ok (by omega), refines.position,
        refines.slice (by omega)]
      · rfl
      · rw [refines.position]
        omega
    · have nothing : min cursor.rest.length (destination.length - start) =
          0 := by omega
      have nRead : min (n : Int) (min (cursor.rest.length : Int)
          ((destination.length : Int) - start)) = 0 := by omega
      have consumed : cursor.rest.take (min n
          (destination.length - start)) = [] := by
        rw [List.take_eq_nil_iff]
        by_cases done : cursor.rest = []
        · exact Or.inr done
        · have some : 0 < cursor.rest.length :=
            List.length_pos_of_ne_nil done
          exact Or.inl (by omega)
      have more : (n : Int) > 0 := by omega
      have different : ¬0 = n := by omega
      have same : cursor.advance 0 = cursor := by
        ext1
        · rfl
        · exact Nat.min_eq_left within
      simp only [nRead, consumed, more, different, if_true, if_false,
        overlay_nil, List.length_nil, same]
      cases onEndOfStream with
      | some value => exact ⟨_, rfl, refines.move rfl refines.position, rfl⟩
      | none =>
          have copied : copySequence destination start ((start : Int) + 0) =
              .ok [] := copySequence_ok inside
          simp only [copied]
          exact ⟨_, rfl, refines.move rfl refines.position, rfl⟩
  · simp only [readable]
    exact ⟨_, rfl, refines, rfl⟩

theorem Refines.writeElement (refines : Refines stream cursor)
    (element : Object) (allowed : Allowed stream (.writeElement element)) :
    StepRefines stream cursor (.writeElement element) := by
  simp only [StepRefines, step, cursorStep, whenWritable,
    SequenceStream.writeElement]
  by_cases writable : stream.direction.writable = true
  · obtain ⟨room, grown, enough⟩ := growWhile_append stream.stretchy
      stream.fill (stream.currentPosition + 1) stream.streamSequence
    have inside : stream.currentPosition <
        (stream.streamSequence ++ room).length := enough
    simp only [writable, if_true, grown, setElementAt_ok inside]
    refine ⟨_, rfl, ?_, rfl⟩
    rw [← overlay_singleton inside]
    apply refines.wrote
    · exact allowed writable
    · rw [List.length_singleton]
      split <;> omega
  · simp only [writable]
    exact ⟨_, rfl, refines, rfl⟩

theorem Refines.write (refines : Refines stream cursor)
    (source : List Object) (bounds : Bounds source)
    (allowed : Allowed stream (.write source bounds)) :
    StepRefines stream cursor (.write source bounds) := by
  simp only [StepRefines, step, cursorStep, whenWritable,
    SequenceStream.write]
  by_cases writable : stream.direction.writable = true
  · have ordered := bounds.ordered
    have inside := bounds.inside
    have ends := allowed writable
    generalize count : bounds.finish.getD source.length - bounds.start =
      written at ends ⊢
    obtain ⟨room, grown, enough⟩ := growWhile_append stream.stretchy
      stream.fill (stream.currentPosition + written) stream.streamSequence
    have length : ((source.drop bounds.start).take written).length =
        written := by
      rw [List.length_take, List.length_drop]
      omega
    have available : bounds.start + written ≤ source.length := by omega
    simp only [writable, if_true, grown, copyBytes_ok enough available]
    refine ⟨_, rfl, ?_, rfl⟩
    have place : stream.currentPosition + written =
        stream.currentPosition +
          ((source.drop bounds.start).take written).length := by
      rw [length]
    rw [place]
    apply refines.wrote
    · rw [length]
      exact ends
    · split <;> omega
  · simp only [writable]
    exact ⟨_, rfl, refines, rfl⟩

theorem Refines.streamSize (refines : Refines stream cursor) :
    StepRefines stream cursor .streamSize := by
  refine ⟨stream, ?_, refines, rfl⟩
  show Except.ok (Answer.size (SequenceStream.streamSize stream), stream) =
    .ok (Answer.size (cursor.contents.length : Int), stream)
  unfold SequenceStream.streamSize
  have size : (stream.limit : Int) - stream.initialPosition =
      cursor.contents.length := by
    rw [refines.limit]
    omega
  rw [size]

theorem Refines.streamContents (refines : Refines stream cursor)
    (clear : Bool) (allowed : Allowed stream (.streamContents clear)) :
    StepRefines stream cursor (.streamContents clear) := by
  have room := refines.inside
  have size : (stream.limit : Int) - stream.initialPosition =
      cursor.contents.length := by
    rw [refines.limit]
    omega
  have notNegative : ¬(cursor.contents.length : Int) < 0 := by omega
  have slice : (stream.streamSequence.drop stream.initialPosition).take
      cursor.contents.length = cursor.contents := by
    have whole : 0 + cursor.contents.length ≤ cursor.contents.length := by
      omega
    have same := refines.slice whole
    rw [Nat.add_zero, List.drop_zero, List.take_length] at same
    exact same
  have result : copyBytes (List.replicate cursor.contents.length stream.fill)
      0 stream.streamSequence stream.initialPosition
        cursor.contents.length = .ok cursor.contents := by
    rw [copyBytes_ok (by rw [List.length_replicate]; omega) room, slice]
    simp [overlay]
  simp only [StepRefines, step, cursorStep, SequenceStream.streamContents,
    size, notNegative, if_false, Int.toNat_natCast, result]
  refine ⟨_, rfl, ?_, ?_⟩
  · cases clear with
    | false => exact refines
    | true =>
        have empty := allowed rfl
        show Refines (clearContents stream) (Cursor.start [])
        constructor
        case sequence =>
            exact ⟨[], stream.streamSequence, rfl, empty.1.symm⟩
        case position =>
            show 0 = stream.initialPosition + 0
            rw [empty.1]
        case limit =>
            show stream.streamLimit.getD (stream.streamLimit.getD 0) =
              stream.initialPosition + 0
            rw [empty.1]
            cases limited : stream.streamLimit with
            | none => rfl
            | some bound =>
                have zero := empty.2
                rw [limited] at zero
                exact zero
  · cases clear with
    | false => rfl
    | true => rfl

/-- An operation that is allowed answers as on the contents. -/
theorem Refines.step (refines : Refines stream cursor)
    (operation : Operation Object) (allowed : Allowed stream operation) :
    StepRefines stream cursor operation := by
  cases operation with
  | readElement onEndOfStream => exact refines.readElement onEndOfStream
  | peek onEndOfStream => exact refines.peek onEndOfStream
  | unreadElement element => exact refines.unreadElement element allowed
  | read n onEndOfStream => exact refines.read n onEndOfStream
  | readInto n destination start inside onEndOfStream =>
      exact refines.readInto n destination start inside onEndOfStream allowed
  | writeElement element => exact refines.writeElement element allowed
  | write source bounds => exact refines.write source bounds allowed
  | streamSize => exact refines.streamSize
  | streamContents clear => exact refines.streamContents clear allowed

/-! ## Runs -/

theorem run_cons {operation : Operation Object}
    {operations : List (Operation Object)} {answer : Answer Object}
    {answers : List (Answer Object)} {next last : Stream Object}
    (stepped : SequenceStream.step stream operation = .ok (answer, next))
    (ran : run operations next = .ok (answers, last)) :
    run (operation :: operations) stream = .ok (answer :: answers, last) := by
  unfold run
  rw [stepped]
  show (run operations next >>= _) = _
  rw [ran]
  rfl

theorem Refines.run (refines : Refines stream cursor)
    (operations : List (Operation Object))
    (allowed : AllowedRun stream operations) :
    ∃ last, run operations stream =
        .ok ((cursorRun stream.direction operations cursor).1, last) ∧
      Refines last (cursorRun stream.direction operations cursor).2 := by
  induction operations generalizing stream cursor with
  | nil => exact ⟨stream, rfl, refines⟩
  | cons operation operations inductionHypothesis =>
      obtain ⟨next, stepped, refines, direction⟩ :=
        refines.step operation allowed.1
      obtain ⟨last, ran, refines⟩ :=
        inductionHypothesis refines (allowed.2 _ next stepped)
      rw [direction] at ran refines
      exact ⟨last, run_cons stepped ran, refines⟩

omit [DecidableEq Object] in
/-- The contents and the position that a stream is made with. -/
theorem makeStream_refines (direction : Direction) (stretchy : Bool)
    (fill : Object) (contents : List Object) (bounds : Bounds contents) :
    Refines (makeStream direction stretchy fill contents bounds)
      (Cursor.start (madeContents direction contents bounds)) := by
  have inside := bounds.inside
  have ordered := bounds.ordered
  have length : (contents.take bounds.start).length = bounds.start := by
    rw [List.length_take]
    omega
  unfold madeContents
  split
  case isTrue empty =>
      constructor
      case sequence =>
          refine ⟨contents.take bounds.start, contents.drop bounds.start, ?_,
            length⟩
          show contents = _ ++ [] ++ _
          rw [List.append_nil, List.take_append_drop]
      case position => rfl
      case limit =>
          show bounds.finish.getD (if direction = .output then _ else _) = _
          rw [empty.2, if_pos empty.1]
          rfl
  case isFalse some =>
      constructor
      case sequence =>
          refine ⟨contents.take bounds.start,
            contents.drop (bounds.finish.getD contents.length), ?_, length⟩
          show contents = contents.take bounds.start ++
            (contents.take (bounds.finish.getD contents.length)).drop
              bounds.start ++ _
          have first : contents.take bounds.start =
              (contents.take (bounds.finish.getD contents.length)).take
                bounds.start := by
            rw [List.take_take, Nat.min_eq_left ordered]
          rw [first, List.take_append_drop, List.take_append_drop]
      case position => rfl
      case limit =>
          show bounds.finish.getD (if direction = .output then bounds.start
            else contents.length) = bounds.start +
              ((contents.take (bounds.finish.getD contents.length)).drop
                bounds.start).length
          rw [List.length_drop, List.length_take]
          cases limited : bounds.finish with
          | none =>
              have notOutput : ¬direction = .output :=
                fun output => some ⟨output, limited⟩
              rw [limited] at ordered
              simp only [Option.getD_none] at ordered ⊢
              rw [if_neg notOutput]
              omega
          | some bound =>
              rw [limited] at ordered inside
              simp only [Option.getD_some] at ordered inside ⊢
              omega

theorem AllowedRun.cons {operation : Operation Object}
    {operations : List (Operation Object)} {answer : Answer Object}
    {next : Stream Object} (allowed : Allowed stream operation)
    (stepped : SequenceStream.step stream operation = .ok (answer, next))
    (rest : AllowedRun next operations) :
    AllowedRun stream (operation :: operations) := by
  constructor
  · exact allowed
  · intro other after same
    rw [stepped] at same
    cases same
    exact rest

/-- Writing an element where there is room. -/
theorem writeElement_inside {element : Object}
    (possible : stream.direction.writable = true ∧
      stream.currentPosition < stream.streamSequence.length) :
    SequenceStream.step stream (.writeElement element) =
      .ok (.done,
        { stream with
          streamSequence :=
            stream.streamSequence.set stream.currentPosition element
          currentPosition := stream.currentPosition + 1
          finalPosition :=
            if stream.currentPosition ≥ stream.finalPosition then
              stream.currentPosition + 1
            else stream.finalPosition }) := by
  simp only [SequenceStream.step, SequenceStream.writeElement, possible.1,
    if_true]
  unfold growWhile
  rw [if_neg (Nat.not_lt.mpr possible.2), setElementAt_ok possible.2]
  rfl

theorem not_asContents {contents : List Object}
    {operations : List (Operation Object)} {answers : List (Answer Object)}
    {last : Stream Object}
    (ran : SequenceStream.run operations stream = .ok (answers, last))
    (differ : answers ≠ (cursorRun stream.direction operations
      (Cursor.start contents)).1) :
    ¬AsContents stream contents operations := by
  rintro ⟨other, again⟩
  rw [ran] at again
  cases again
  exact differ rfl

end OpenDylan.Streams.SequenceStream
