import OpenDylan.Streams.LineReading

/-!
# Reading text

`read-text` puts a line feed for every newline that it reads, but on a string
stream it copies the characters that are there.  Lines are read from string
streams as from others.
-/

namespace OpenDylan.Streams.LineReading

open OpenDylan.Lib.Lines OpenDylan.Lib.Positioned

section Laws

variable {Stream : Type} {kind : StreamClass Stream} {stream : Stream}
  {text : List Char}

/-! ## Text with line feeds -/

theorem setElement_front (front rest : List Object) (old : Object)
    (character : Char) :
    setElement (front ++ old :: rest) front.length (.character character) =
      .ok (front ++ .character character :: rest) := by
  simp [setElement]

/-- What a text is read as first, and what is left of it. -/
theorem selectCharacter_left (left : kind.HasLeft stream text)
    (character : Char) :
    ∃ next rest first, kind.HasLeft next rest ∧
      selectCharacter kind (.character character) stream =
        .ok (.character first, next) ∧
      unified (character :: text) = first :: unified rest := by
  by_cases isReturn : character = '\r'
  · rcases eatLineFeed_left left with ⟨next, eaten, nextLeft⟩
    refine ⟨next, dropLineFeed text, '\n', nextLeft, ?_, ?_⟩
    · simp [selectCharacter, isReturn, eaten, bind, Except.bind, pure,
        Except.pure]
    · rw [isReturn, unified_return]
  · refine ⟨stream, text, character, left, ?_, unified_cons isReturn text⟩
    simp [selectCharacter, isReturn]

theorem readTextLoop_left (left : kind.HasLeft stream text)
    (onEndOfStream : Option Object) (n : Nat) {count : Nat}
    (available : count ≤ (unified text).length)
    (front back : List Object) (room : back.length = count) :
    ∃ next rest, kind.HasLeft next rest ∧
      unified rest = (unified text).drop count ∧
      readTextLoop kind onEndOfStream n count stream (front ++ back)
          front.length =
        .ok (.integer n, front ++ characters ((unified text).take count),
          next) := by
  induction count generalizing stream text front back with
  | zero =>
      refine ⟨stream, text, left, rfl, ?_⟩
      rw [List.eq_nil_of_length_eq_zero room]
      rfl
  | succ count inductionHypothesis =>
      cases text with
      | nil => cases available
      | cons character text =>
          cases back with
          | nil => cases room
          | cons old back =>
              rcases kind.streamAtEnd_left left with ⟨here, atEnd, hereLeft⟩
              rcases kind.readElement_left hereLeft with
                ⟨after, read, afterLeft⟩
              rcases selectCharacter_left afterLeft character with
                ⟨behind, rest, first, behindLeft, selected, unifies⟩
              have enough : count ≤ (unified rest).length := by
                rw [unifies] at available
                exact Nat.le_of_succ_le_succ available
              rcases inductionHypothesis behindLeft enough
                (front ++ [.character first]) back (Nat.succ.inj room) with
                ⟨next, last, nextLeft, lastUnified, loop⟩
              refine ⟨next, last, nextLeft, ?_, ?_⟩
              · rw [unifies, List.drop_succ_cons, lastUnified]
              · rw [readTextLoop, atEnd]
                simp only [read, selected, setElement_front, bind, Except.bind]
                rw [unifies]
                simpa [characters] using loop

/-- `read-text` answers the first characters of the text with line feeds. -/
theorem readText_left (left : kind.HasLeft stream text) {n : Nat}
    (available : n ≤ (unified text).length) {onEndOfStream : Option Object}
    (other : onEndOfStream ≠ some (.integer n)) :
    ∃ next rest, kind.HasLeft next rest ∧
      unified rest = (unified text).drop n ∧
      readText (readTextInto kind) stream n onEndOfStream =
        .ok (.sequence (characters ((unified text).take n)), next) := by
  rcases readTextLoop_left left onEndOfStream n available []
    (List.replicate n (.character ' ')) List.length_replicate with
    ⟨next, rest, nextLeft, restUnified, loop⟩
  refine ⟨next, rest, nextLeft, restUnified, ?_⟩
  rw [List.nil_append, List.nil_append, List.length_nil] at loop
  simp [readText, readTextInto, loop, Ne.symm other, bind, Except.bind, pure,
    Except.pure]

end Laws

/-! ## String streams -/

/-- `stream-at-end?` of a sequence stream -/
def stringAtEnd (stream : SequenceStream.Stream Object) : Bool :=
  if stream.direction = .output then false
  else
    let limit := if stream.direction = .input then stream.streamLimit else none
    decide (stream.currentPosition ≥ limit.getD stream.finalPosition)

/-- What `read-element` or `peek` of a sequence stream comes to. -/
def elementAnswer :
    Except SequenceStream.Stop
      (SequenceStream.Answer Object × SequenceStream.Stream Object) →
      Except Stop (Object × SequenceStream.Stream Object)
  | .ok (.element element, stream) => .ok (element, stream)
  | .ok (.onEndOfStream value, stream) => .ok (value, stream)
  | .ok (.endOfStreamError, _) => .error .endOfStreamError
  | .ok (_, _) => .error .streamNotReadable
  | .error stop => .error (.sequenceStream stop)

/-- A string stream has a text left.  It has no limit or is for input only, and
does not look for its end in another place than where it reads. -/
structure StringHasLeft (stream : SequenceStream.Stream Object)
    (text : List Char) : Prop where
  readable : stream.direction.readable = true
  limit : stream.direction = .input ∨ stream.streamLimit = none
  contents : ∃ cursor, SequenceStream.Refines stream cursor ∧
    cursor.rest = characters text

variable {stream : SequenceStream.Stream Object} {text : List Char}

theorem StringHasLeft.atEnd (left : StringHasLeft stream text) :
    stringAtEnd stream = text.isEmpty := by
  rcases left.contents with ⟨cursor, refines, rest⟩
  have place : stringAtEnd stream =
      decide (stream.currentPosition ≥ stream.limit) := by
    rw [stringAtEnd, if_neg, SequenceStream.Stream.limit]
    · rcases left.limit with input | unlimited
      · simp [input]
      · simp [unlimited]
    · intro output
      have readable := left.readable
      rw [output] at readable
      cases readable
  have length : text.length = cursor.contents.length - cursor.position := by
    rw [← Cursor.length_rest, rest, characters, List.length_map]
  rw [place, refines.position, refines.limit, Bool.eq_iff_iff,
    decide_eq_true_iff, List.isEmpty_iff_length_eq_zero]
  have within := cursor.within
  omega

theorem readElement_limit {onEndOfStream : Option Object}
    {answer : SequenceStream.Answer Object}
    {next : SequenceStream.Stream Object}
    (read : SequenceStream.readElement stream onEndOfStream =
      .ok (answer, next)) :
    next.streamLimit = stream.streamLimit := by
  rw [SequenceStream.readElement] at read
  split at read
  · dsimp only at read
    split at read
    · cases element : SequenceStream.elementAt stream.streamSequence
        stream.currentPosition with
      | error stop =>
          rw [element] at read
          cases read
      | ok found =>
          rw [element] at read
          cases read
          rfl
    · cases read
      rfl
  · cases read
    rfl

theorem peek_stays {onEndOfStream : Option Object}
    {answer : SequenceStream.Answer Object}
    {next : SequenceStream.Stream Object}
    (peeked : SequenceStream.peek stream onEndOfStream = .ok (answer, next)) :
    next = stream := by
  rw [SequenceStream.peek] at peeked
  split at peeked
  · dsimp only at peeked
    split at peeked
    · cases element : SequenceStream.elementAt stream.streamSequence
        stream.currentPosition with
      | error stop =>
          rw [element] at peeked
          cases peeked
      | ok found =>
          rw [element] at peeked
          cases peeked
          rfl
    · cases peeked
      rfl
  · cases peeked
    rfl

theorem StringHasLeft.readElement {character : Char}
    (left : StringHasLeft stream (character :: text)) :
    ∃ next, elementAnswer (SequenceStream.readElement stream none) =
        .ok (.character character, next) ∧ StringHasLeft next text := by
  rcases left.contents with ⟨cursor, refines, rest⟩
  rcases refines.readElement none with ⟨next, read, nextRefines, same⟩
  have isRest : cursor.rest = .character character :: characters text := rest
  simp only [SequenceStream.step, SequenceStream.cursorStep,
    SequenceStream.whenReadable, left.readable, if_true, isRest]
    at read nextRefines
  refine ⟨next, by rw [read]; rfl, ?_, ?_, _, nextRefines, ?_⟩
  · rw [same]
    exact left.readable
  · rw [same, readElement_limit read]
    exact left.limit
  · rw [Cursor.rest_advance, isRest]
    rfl

theorem StringHasLeft.peek (left : StringHasLeft stream text)
    (onEndOfStream : Object) :
    ∃ next, elementAnswer (SequenceStream.peek stream (some onEndOfStream)) =
        .ok ((text.head?.map .character).getD onEndOfStream, next) ∧
      StringHasLeft next text := by
  rcases left.contents with ⟨cursor, refines, rest⟩
  rcases refines.peek (some onEndOfStream) with ⟨next, peeked, -, -⟩
  simp only [SequenceStream.step, SequenceStream.cursorStep,
    SequenceStream.whenReadable, left.readable, if_true, rest] at peeked
  refine ⟨stream, ?_, left⟩
  cases peek_stays peeked
  rw [peeked]
  cases text with
  | nil => rfl
  | cons character text => rfl

/-- The bounds of a whole string. -/
def wholeString (text : List Char) :
    SequenceStream.Bounds (characters text) where
  start := 0
  finish := none
  inside := Nat.le_refl _
  ordered := Nat.zero_le _

/-- `make(<string-stream>, contents: text)` -/
def makeStringStream (text : List Char) : SequenceStream.Stream Object :=
  SequenceStream.makeStream .input false (.character ' ') (characters text)
    (wholeString text)

theorem makeStringStream_left (text : List Char) :
    StringHasLeft (makeStringStream text) text where
  readable := rfl
  limit := Or.inl rfl
  contents := by
    have made := SequenceStream.makeStream_refines .input false
      (Object.character ' ') (characters text) (wholeString text)
    refine ⟨_, made, ?_⟩
    show ((characters text).take (characters text).length).drop 0 = _
    rw [List.take_length, List.drop_zero]

/-- String streams, as far as they are read element by element. -/
def stringStreams : StreamClass (SequenceStream.Stream Object) where
  streamAtEnd stream := .ok (stringAtEnd stream, stream)
  readElement stream := elementAnswer (SequenceStream.readElement stream none)
  peek onEndOfStream stream :=
    elementAnswer (SequenceStream.peek stream (some onEndOfStream))
  HasLeft := StringHasLeft
  streamAtEnd_left := by
    intro stream text left
    exact ⟨stream, by rw [left.atEnd], left⟩
  readElement_left := by
    intro stream character text left
    exact left.readElement
  peek_left := by
    intro stream text onEndOfStream left
    exact left.peek onEndOfStream

/-! ## Text of string streams -/

/-- `read-text` answers the first characters that a string stream has left. -/
theorem stringReadText_left {cursor : Cursor Object}
    (readable : stream.direction.readable = true)
    (refines : SequenceStream.Refines stream cursor)
    (isRest : cursor.rest = characters text) {n : Nat}
    (available : n ≤ text.length) {onEndOfStream : Option Object}
    (other : onEndOfStream ≠ some (.integer n)) :
    ∃ next, readText stringReadTextInto stream n onEndOfStream =
        .ok (.sequence (characters (text.take n)), next) ∧
      ∃ after, SequenceStream.Refines next after ∧
        after.rest = characters (text.drop n) := by
  have length : cursor.rest.length = text.length := by
    rw [isRest, characters, List.length_map]
  have apart : stream.limit - stream.currentPosition = text.length := by
    rw [refines.position, refines.limit, ← length, Cursor.length_rest]
    omega
  have allowed : SequenceStream.Allowed stream (.readInto n
      (List.replicate n (.character ' ')) 0 (Nat.zero_le _) onEndOfStream) := by
    intro _
    rw [apart, List.length_replicate, Nat.sub_zero,
      Nat.min_eq_right available, Nat.min_self]
    exact Or.inl rfl
  have taken : (characters text).take n = characters (text.take n) := by
    rw [characters, ← List.map_take]
    rfl
  have whole : (characters (text.take n)).length = n := by
    rw [characters, List.length_map, List.length_take]
    exact Nat.min_eq_left available
  have filled : overlay (List.replicate n (Object.character ' ')) 0
      (characters (text.take n)) = characters (text.take n) := by
    rw [overlay, whole, List.drop_eq_nil_of_le]
    · rw [List.take_zero, List.nil_append, List.append_nil]
    · simp
  rcases refines.readInto n _ 0 (Nat.zero_le _) onEndOfStream allowed with
    ⟨next, read, nextRefines, -⟩
  simp only [SequenceStream.step, SequenceStream.cursorStep,
    SequenceStream.whenReadable, readable, if_true, isRest,
    List.length_replicate, Nat.sub_zero, Nat.min_self, taken, whole, filled]
    at read nextRefines
  refine ⟨next, ?_, _, nextRefines, ?_⟩
  · simp [readText, stringReadTextInto, read, Ne.symm other, bind, Except.bind,
      pure, Except.pure]
  · rw [Cursor.rest_advance, isRest, characters, ← List.map_drop]
    rfl

/-! ## Lines and text -/

/-- What the readers do with a stream that has a text left: `read-line` reads
the lines of joined lines, `read-line-into!` stores the first line in a string,
and `read-text` reads the first characters of the text as it stands. -/
structure ReadsText {Stream : Type} (kind : StreamClass Stream)
    (readTextInto : Stream → Nat → List Object → Nat → Option Object →
      Except Stop (Object × List Object × Stream))
    (asRead : List Char → List Char) (stream : Stream) (text : List Char) :
    Prop where
  lines : ∀ lines last, Separated lines last → joined lines last = text →
    ∀ fuel, text.length < fuel →
      readLines kind fuel fuel stream = .ok (lineAnswers lines last)
  lineInto : text ≠ [] → ∀ fuel, text.length < fuel →
    ∀ string start onEndOfStream, ∃ next, kind.HasLeft next (split text).rest ∧
      readLineInto kind fuel stream string start onEndOfStream true =
        .ok (.sequence
            (stored string start (characters (split text).line)),
          (split text).terminated, next)
  text : ∀ n, n ≤ (asRead text).length →
    ∀ onEndOfStream, onEndOfStream ≠ some (.integer n) →
      ∃ next, readText readTextInto stream n onEndOfStream =
        .ok (.sequence (characters ((asRead text).take n)), next)

theorem readsText_of {Stream : Type} (kind : StreamClass Stream)
    {stream : Stream} (left : kind.HasLeft stream text) :
    ReadsText kind (readTextInto kind) unified stream text where
  lines := by
    rintro lines last separated rfl fuel enough
    exact readLines_joined separated left enough enough
  lineInto := by
    intro nonempty fuel enough string start onEndOfStream
    exact readLineInto_left left nonempty enough string start onEndOfStream
  text := by
    intro n available onEndOfStream other
    rcases readText_left left available other with ⟨next, -, -, -, read⟩
    exact ⟨next, read⟩

end OpenDylan.Streams.LineReading
