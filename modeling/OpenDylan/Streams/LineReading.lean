import Mathlib.Data.List.Induction
import OpenDylan.Lib.Lines
import OpenDylan.Streams.SequenceStreamRefinement

/-!
# Reading lines and text

`read-line`, `read-line-into!` and `read-text` look at the elements of a stream
one by one, and take a line feed, a carriage return and both in this order for
the end of a line.  A string stream has its own method for text, which copies
what is there.
-/

namespace OpenDylan.Streams.LineReading

open OpenDylan.Lib.Lines OpenDylan.Lib.Positioned

/-- The objects that are elements of streams and values for their end. -/
inductive Object where
  | character (character : Char)
  | integer (value : Int)
  | false
  | other (identity : Nat)
deriving DecidableEq

/-- The characters of a string. -/
def characters (text : List Char) : List Object :=
  text.map .character

/-- What stops a reader; the fuel is that of a loop without bounds. -/
inductive Stop where
  | endOfStreamError
  | incompleteReadError (count : Int) (sequence : List Object)
  | outside (index : Nat)
  | notCharacter (element : Object)
  | streamNotReadable
  | sequenceStream (stop : SequenceStream.Stop)
  | outOfFuel
deriving DecidableEq

/-- What reading a line or a text answers. -/
inductive Answer where
  | sequence (elements : List Object)
  | onEndOfStream (value : Object)
deriving DecidableEq

/-- A class of streams with what its methods do, and the texts that its streams
have left to read. -/
structure StreamClass (Stream : Type) where
  streamAtEnd : Stream → Except Stop (Bool × Stream)
  readElement : Stream → Except Stop (Object × Stream)
  peek : Object → Stream → Except Stop (Object × Stream)
  HasLeft : Stream → List Char → Prop
  streamAtEnd_left : ∀ {stream text}, HasLeft stream text →
    ∃ next, streamAtEnd stream = .ok (text.isEmpty, next) ∧ HasLeft next text
  readElement_left : ∀ {stream character text},
    HasLeft stream (character :: text) →
      ∃ next, readElement stream = .ok (.character character, next) ∧
        HasLeft next text
  peek_left : ∀ {stream text} (onEndOfStream : Object),
    HasLeft stream text →
      ∃ next, peek onEndOfStream stream =
          .ok ((text.head?.map .character).getD onEndOfStream, next) ∧
        HasLeft next text

/-- `end-of-stream-value` -/
def endOfStreamValue : Option Object → Except Stop Answer
  | some value => .ok (.onEndOfStream value)
  | none => .error .endOfStreamError

section Readers

variable {Stream : Type} (kind : StreamClass Stream)

/-- If `'\r'` is followed by `'\n'`, eat the `'\n'` -/
def eatLineFeed (stream : Stream) : Except Stop Stream := do
  let (next, stream) ← kind.peek .false stream
  if next = .character '\n' then
    let (_, stream) ← kind.readElement stream
    return stream
  else
    return stream

/-- The loop of `read-line` and `read-line-into!`, by what it does with the
elements of the line -/
def lineLoop {Line : Type} (add : Line → Object → Except Stop Line) :
    Nat → Stream → Line → Bool → Except Stop (Line × Bool × Stream)
  | 0, _, _, _ => .error .outOfFuel
  | fuel + 1, stream, line, matched => do
      let (atEnd, stream) ← kind.streamAtEnd stream
      if !atEnd && !matched then
        let (element, stream) ← kind.readElement stream
        if element = .character '\n' then
          lineLoop add fuel stream line true
        else if element = .character '\r' then
          let stream ← eatLineFeed kind stream
          lineLoop add fuel stream line true
        else
          let line ← add line element
          lineLoop add fuel stream line false
      else
        return (line, matched, stream)

/-- `read-line` -/
def readLine (fuel : Nat) (stream : Stream) (onEndOfStream : Option Object) :
    Except Stop (Answer × Bool × Stream) := do
  let (atEnd, stream) ← kind.streamAtEnd stream
  if atEnd then
    let answer ← endOfStreamValue onEndOfStream
    return (answer, false, stream)
  else
    let (line, matched, stream) ← lineLoop kind
      (fun sequence element => .ok (sequence ++ [element])) fuel stream []
      false
    return (.sequence line, matched, stream)

/-- `string[index] := element`, for a string -/
def setElement (string : List Object) (index : Nat) (element : Object) :
    Except Stop (List Object) :=
  match element with
  | .character _ =>
      if index < string.length then .ok (string.set index element)
      else .error (.outside index)
  | _ => .error (.notCharacter element)

/-- The variables of `read-line-into!`. -/
structure LineInto where
  string : List Object
  index : Nat
  overflow : Option (List Object)
deriving DecidableEq

/-- `add-with-overflow` -/
def addWithOverflow (ssize start : Nat) (grow : Bool) (into : LineInto)
    (element : Object) : Except Stop LineInto :=
  if grow && decide (into.index ≥ ssize) then
    let overflow := into.overflow.getD
      (List.replicate (start - ssize) (.character ' '))
    .ok { into with overflow := some (overflow ++ [element]) }
  else do
    let string ← setElement into.string into.index element
    return { into with string := string, index := into.index + 1 }

/-- `concatenate` of a string and a vector of its characters -/
def concatenate (string : List Object) :
    List Object → Except Stop (List Object)
  | [] => .ok string
  | .character character :: elements =>
      concatenate (string ++ [.character character]) elements
  | element :: _ => .error (.notCharacter element)

/-- The string with the overflow -/
def LineInto.finish (into : LineInto) : Except Stop (List Object) :=
  match into.overflow with
  | some overflow => concatenate into.string overflow
  | none => .ok into.string

/-- `read-line-into!` -/
def readLineInto (fuel : Nat) (stream : Stream) (string : List Object)
    (start : Nat) (onEndOfStream : Option Object) (grow : Bool) :
    Except Stop (Answer × Bool × Stream) := do
  let (atEnd, stream) ← kind.streamAtEnd stream
  if atEnd then
    let answer ← endOfStreamValue onEndOfStream
    return (answer, false, stream)
  else
    let (into, matched, stream) ← lineLoop kind
      (addWithOverflow string.length start grow) fuel stream
      { string := string, index := start, overflow := none } false
    let string ← into.finish
    return (.sequence string, matched, stream)

/-- What `read-text-into!` stores for an element that it has read -/
def selectCharacter (element : Object) (stream : Stream) :
    Except Stop (Object × Stream) :=
  if element = .character '\r' then do
    let stream ← eatLineFeed kind stream
    return (.character '\n', stream)
  else
    .ok (element, stream)

/-- The loop of `read-text-into!`, for a number of characters; the text and
the value that it answers -/
def readTextLoop (onEndOfStream : Option Object) (n : Nat) :
    Nat → Stream → List Object → Nat →
      Except Stop (Object × List Object × Stream)
  | 0, stream, text, _ => .ok (.integer n, text, stream)
  | count + 1, stream, text, index => do
      let (atEnd, stream) ← kind.streamAtEnd stream
      if atEnd then
        match onEndOfStream with
        | some value => return (value, text, stream)
        | none => .error .endOfStreamError
      else
        let (element, stream) ← kind.readElement stream
        let (character, stream) ← selectCharacter kind element stream
        let text ← setElement text index character
        readTextLoop onEndOfStream n count stream text (index + 1)

/-- `read-text-into!` -/
def readTextInto (stream : Stream) (n : Nat) (text : List Object)
    (start : Nat) (onEndOfStream : Option Object) :
    Except Stop (Object × List Object × Stream) :=
  readTextLoop kind onEndOfStream n n stream text start

end Readers

/-- `read-text-into!` of a string stream -/
def stringReadTextInto (stream : SequenceStream.Stream Object) (n : Nat)
    (text : List Object) (start : Nat) (onEndOfStream : Option Object) :
    Except Stop (Object × List Object × SequenceStream.Stream Object) :=
  match SequenceStream.readInto stream n text start onEndOfStream with
  | .ok (.into text (.count count), stream) =>
      .ok (.integer count, text, stream)
  | .ok (.into text (.onEndOfStream value), stream) =>
      .ok (value, text, stream)
  | .ok (.into _ (.incompleteReadError count sequence), _) =>
      .error (.incompleteReadError count sequence)
  | .ok (_, _) => .error .streamNotReadable
  | .error stop => .error (.sequenceStream stop)

/-- `read-text`, by the method for `read-text-into!` -/
def readText {Stream : Type}
    (readTextInto : Stream → Nat → List Object → Nat → Option Object →
      Except Stop (Object × List Object × Stream))
    (stream : Stream) (n : Nat) (onEndOfStream : Option Object) :
    Except Stop (Answer × Stream) := do
  let text := List.replicate n (Object.character ' ')
  let (value, text, stream) ← readTextInto stream n text 0 onEndOfStream
  if some value = onEndOfStream then
    return (.onEndOfStream value, stream)
  else
    return (.sequence text, stream)

/-- Reading lines until the end of a stream: the lines, and whether they ended
with a newline. -/
def readLines {Stream : Type} (kind : StreamClass Stream) (fuel : Nat) :
    Nat → Stream → Except Stop (List (List Object × Bool))
  | 0, _ => .error .outOfFuel
  | count + 1, stream => do
      let (answer, newline, stream) ← readLine kind fuel stream (some .false)
      match answer with
      | .onEndOfStream _ => return []
      | .sequence line =>
          let lines ← readLines kind fuel count stream
          return (line, newline) :: lines

/-! ## Reading from any class of streams -/

section Laws

variable {Stream : Type} {kind : StreamClass Stream} {stream : Stream}
  {text : List Char}

theorem eatLineFeed_left (left : kind.HasLeft stream text) :
    ∃ next, eatLineFeed kind stream = .ok next ∧
      kind.HasLeft next (dropLineFeed text) := by
  rcases kind.peek_left .false left with ⟨peeked, isNext, peekedLeft⟩
  cases text with
  | nil =>
      refine ⟨peeked, ?_, peekedLeft⟩
      rw [eatLineFeed, isNext]
      rfl
  | cons character text =>
      by_cases lineFeed : character = '\n'
      · cases lineFeed
        rcases kind.readElement_left peekedLeft with ⟨next, read, nextLeft⟩
        refine ⟨next, ?_, nextLeft⟩
        simp [eatLineFeed, isNext, read, bind, Except.bind, pure, Except.pure]
      · refine ⟨peeked, ?_, ?_⟩
        · simp [eatLineFeed, isNext, lineFeed, bind, Except.bind, pure,
            Except.pure]
        · rw [dropLineFeed_of_head (by simpa using lineFeed)]
          exact peekedLeft

variable {Line : Type} (add : Line → Object → Except Stop Line)

theorem lineLoop_matched (left : kind.HasLeft stream text) (fuel : Nat)
    (line : Line) :
    ∃ next, lineLoop kind add (fuel + 1) stream line true =
        .ok (line, true, next) ∧ kind.HasLeft next text := by
  rcases kind.streamAtEnd_left left with ⟨next, atEnd, nextLeft⟩
  refine ⟨next, ?_, nextLeft⟩
  simp [lineLoop, atEnd, bind, Except.bind, pure, Except.pure]

theorem lineLoop_lineFeed (left : kind.HasLeft stream ('\n' :: text))
    (fuel : Nat) (line : Line) :
    ∃ next, kind.HasLeft next text ∧
      lineLoop kind add (fuel + 1) stream line false =
        lineLoop kind add fuel next line true := by
  rcases kind.streamAtEnd_left left with ⟨here, atEnd, hereLeft⟩
  rcases kind.readElement_left hereLeft with ⟨next, read, nextLeft⟩
  refine ⟨next, nextLeft, ?_⟩
  rw [lineLoop, atEnd]
  simp [read, bind, Except.bind]

theorem lineLoop_return (left : kind.HasLeft stream ('\r' :: text))
    (fuel : Nat) (line : Line) :
    ∃ next, kind.HasLeft next (dropLineFeed text) ∧
      lineLoop kind add (fuel + 1) stream line false =
        lineLoop kind add fuel next line true := by
  rcases kind.streamAtEnd_left left with ⟨here, atEnd, hereLeft⟩
  rcases kind.readElement_left hereLeft with ⟨after, read, afterLeft⟩
  rcases eatLineFeed_left afterLeft with ⟨next, eaten, nextLeft⟩
  refine ⟨next, nextLeft, ?_⟩
  rw [lineLoop, atEnd]
  simp [read, eaten, bind, Except.bind]

theorem lineLoop_other {character : Char}
    (left : kind.HasLeft stream (character :: text))
    (notLineFeed : character ≠ '\n') (notReturn : character ≠ '\r')
    (fuel : Nat) (line : Line) :
    ∃ next, kind.HasLeft next text ∧
      lineLoop kind add (fuel + 1) stream line false =
        add line (.character character) >>= fun line =>
          lineLoop kind add fuel next line false := by
  rcases kind.streamAtEnd_left left with ⟨here, atEnd, hereLeft⟩
  rcases kind.readElement_left hereLeft with ⟨next, read, nextLeft⟩
  refine ⟨next, nextLeft, ?_⟩
  rw [lineLoop, atEnd]
  simp [read, notLineFeed, notReturn, bind, Except.bind]

/-- The loop adds the characters of the first line and leaves the rest. -/
theorem lineLoop_left (left : kind.HasLeft stream text) {fuel : Nat}
    (enough : text.length < fuel) (line : Line) :
    ∃ next, kind.HasLeft next (split text).rest ∧
      lineLoop kind add fuel stream line false =
        (characters (split text).line).foldlM add line >>= fun line =>
          .ok (line, (split text).terminated, next) := by
  induction text generalizing stream fuel line with
  | nil =>
      cases fuel with
      | zero => cases enough
      | succ fuel =>
          rcases kind.streamAtEnd_left left with ⟨next, atEnd, nextLeft⟩
          refine ⟨next, nextLeft, ?_⟩
          rw [lineLoop, atEnd]
          rfl
  | cons character text inductionHypothesis =>
      cases fuel with
      | zero => cases enough
      | succ fuel =>
          have shorter : text.length < fuel := Nat.lt_of_succ_lt_succ enough
          rcases Nat.exists_eq_add_one.mpr (Nat.zero_lt_of_lt shorter) with
            ⟨less, rfl⟩
          by_cases lineFeed : character = '\n'
          · cases lineFeed
            rcases lineLoop_lineFeed add left (less + 1) line with
              ⟨after, afterLeft, step⟩
            rcases lineLoop_matched add afterLeft less line with
              ⟨next, finish, nextLeft⟩
            exact ⟨next, nextLeft, step.trans finish⟩
          · by_cases isReturn : character = '\r'
            · cases isReturn
              rcases lineLoop_return add left (less + 1) line with
                ⟨after, afterLeft, step⟩
              rcases lineLoop_matched add afterLeft less line with
                ⟨next, finish, nextLeft⟩
              exact ⟨next, nextLeft, step.trans finish⟩
            · rcases lineLoop_other add left lineFeed isReturn
                (less + 1) line with ⟨after, afterLeft, step⟩
              have first : split (character :: text) = { split text with
                  line := character :: (split text).line } := by
                rw [split, if_neg lineFeed, if_neg isReturn]
              rw [step, first]
              cases added : add line (.character character) with
              | error stop =>
                  rcases inductionHypothesis afterLeft shorter line with
                    ⟨next, nextLeft, -⟩
                  refine ⟨next, nextLeft, ?_⟩
                  simp [characters, added, bind, Except.bind]
              | ok longer =>
                  rcases inductionHypothesis afterLeft shorter longer with
                    ⟨next, nextLeft, rest⟩
                  refine ⟨next, nextLeft, ?_⟩
                  simpa [characters, added, bind, Except.bind] using rest

/-! ## Lines -/

theorem foldlM_snoc (elements sequence : List Object) :
    elements.foldlM (fun sequence element =>
        (.ok (sequence ++ [element]) : Except Stop (List Object))) sequence =
      .ok (sequence ++ elements) := by
  induction elements generalizing sequence with
  | nil => simp [pure, Except.pure]
  | cons element elements inductionHypothesis =>
      rw [List.foldlM_cons]
      show elements.foldlM _ (sequence ++ [element]) = _
      rw [inductionHypothesis, List.append_assoc]
      rfl

/-- `read-line` answers the first line of the text that is left. -/
theorem readLine_left (left : kind.HasLeft stream text)
    (nonempty : text ≠ []) {fuel : Nat} (enough : text.length < fuel)
    (onEndOfStream : Option Object) :
    ∃ next, kind.HasLeft next (split text).rest ∧
      readLine kind fuel stream onEndOfStream =
        .ok (.sequence (characters (split text).line),
          (split text).terminated, next) := by
  rcases kind.streamAtEnd_left left with ⟨here, atEnd, hereLeft⟩
  rcases lineLoop_left _ hereLeft enough [] with ⟨next, nextLeft, loop⟩
  refine ⟨next, nextLeft, ?_⟩
  have remains : text.isEmpty = false := by
    simpa using nonempty
  rw [foldlM_snoc] at loop
  simp [readLine, atEnd, remains, loop, bind, Except.bind, pure, Except.pure]

theorem readLine_end (left : kind.HasLeft stream []) (fuel : Nat)
    (value : Object) :
    ∃ next, readLine kind fuel stream (some value) =
      .ok (.onEndOfStream value, false, next) := by
  rcases kind.streamAtEnd_left left with ⟨next, atEnd, -⟩
  refine ⟨next, ?_⟩
  simp [readLine, atEnd, endOfStreamValue, bind, Except.bind, pure,
    Except.pure]

/-- The answers to `read-line` for lines and a last one without newline. -/
def lineAnswers (lines : List (List Char × Terminator)) (last : List Char) :
    List (List Object × Bool) :=
  lines.map (fun line => (characters line.1, true)) ++
    if last = [] then [] else [(characters last, false)]

theorem readLines_end (left : kind.HasLeft stream []) (fuel count : Nat) :
    readLines kind fuel (count + 1) stream = .ok [] := by
  rcases readLine_end left fuel .false with ⟨next, read⟩
  simp [readLines, read, bind, Except.bind, pure, Except.pure]

/-- One line of the text that is left. -/
theorem readLines_line (left : kind.HasLeft stream text)
    (nonempty : text ≠ []) {fuel : Nat} (enough : text.length < fuel)
    (count : Nat) :
    ∃ next, kind.HasLeft next (split text).rest ∧
      readLines kind fuel (count + 1) stream =
        readLines kind fuel count next >>= fun lines =>
          .ok ((characters (split text).line, (split text).terminated) ::
            lines) := by
  rcases readLine_left left nonempty enough (some .false) with
    ⟨next, nextLeft, read⟩
  refine ⟨next, nextLeft, ?_⟩
  simp only [readLines, read, bind, Except.bind, pure, Except.pure]

theorem length_joined_cons (line : List Char) (terminator : Terminator)
    (lines : List (List Char × Terminator)) (last : List Char) :
    (joined lines last).length <
      (joined ((line, terminator) :: lines) last).length := by
  have one : 0 < terminator.text.length := by
    cases terminator <;> decide
  simp only [joined, List.length_append]
  omega

/-- Reading joined lines to the end gives the lines. -/
theorem readLines_joined {lines : List (List Char × Terminator)}
    {last : List Char} (separated : Separated lines last)
    (left : kind.HasLeft stream (joined lines last)) {fuel count : Nat}
    (enough : (joined lines last).length < fuel)
    (enoughLines : (joined lines last).length < count) :
    readLines kind fuel count stream = .ok (lineAnswers lines last) := by
  induction lines generalizing stream count with
  | nil =>
      change kind.HasLeft stream last at left
      change last.length < count at enoughLines
      by_cases none : last = []
      · cases none
        cases count with
        | zero => cases enoughLines
        | succ count => exact readLines_end left fuel count
      · have some : 0 < last.length := List.length_pos_of_ne_nil none
        rcases Nat.exists_eq_add_of_le' (Nat.lt_of_le_of_lt some enoughLines)
          with ⟨more, rfl⟩
        rcases readLines_line left none enough (more + 1) with
          ⟨next, nextLeft, step⟩
        rw [split_plain separated] at nextLeft step
        refine step.trans ?_
        rw [readLines_end nextLeft, lineAnswers, if_neg none]
        rfl
  | cons line lines inductionHypothesis =>
      rcases line with ⟨line, terminator⟩
      rcases separated with ⟨plain, apart, separated⟩
      have shorter := length_joined_cons line terminator lines last
      have nonempty : joined ((line, terminator) :: lines) last ≠ [] :=
        List.ne_nil_of_length_pos (Nat.zero_lt_of_lt shorter)
      cases count with
      | zero => cases enoughLines
      | succ count =>
          rcases readLines_line left nonempty enough count with
            ⟨next, nextLeft, step⟩
          rw [joined, split_terminated plain apart] at nextLeft step
          refine step.trans ?_
          rw [inductionHypothesis separated nextLeft (by omega) (by omega)]
          rfl

/-! ## Lines in a string -/

/-- A string with a line in it from an index on; where the string ends before
the index there are blanks. -/
def stored (string : List Object) (start : Nat) (line : List Object) :
    List Object :=
  if line = [] then string
  else
    overlay
      (string ++ List.replicate (start - string.length) (.character ' '))
      start line

/-- The variables of `read-line-into!` after some elements. -/
def intoAfter (string : List Object) (start : Nat) (line : List Object) :
    LineInto where
  string := overlay string start (line.take (string.length - start))
  index := start + min line.length (string.length - start)
  overflow :=
    if line.length ≤ string.length - start then none
    else some (List.replicate (start - string.length) (.character ' ') ++
      line.drop (string.length - start))

theorem addWithOverflow_inside {string : List Object} {start : Nat}
    {line : List Object}
    (inside : line.length < string.length - start) (character : Char) :
    addWithOverflow string.length start true (intoAfter string start line)
        (.character character) =
      .ok (intoAfter string start (line ++ [.character character])) := by
  have before : start ≤ string.length := by omega
  have least : min line.length (string.length - start) = line.length := by
    omega
  have next : min (line.length + 1) (string.length - start) =
      line.length + 1 := by
    omega
  have wide : (overlay string start line).length = string.length := by
    rw [length_overlay before]
    omega
  have below : ¬start + line.length ≥ string.length := by omega
  have whole : line.take (string.length - start) = line :=
    List.take_of_length_le (Nat.le_of_lt inside)
  have longer : (line ++ [Object.character character]).take
      (string.length - start) = line ++ [.character character] := by
    apply List.take_of_length_le
    rw [List.length_append]
    exact inside
  have room : start + line.length < string.length := by omega
  rw [addWithOverflow, intoAfter, intoAfter, whole, longer, List.length_append,
    List.length_singleton, least, next, if_pos (Nat.le_of_lt inside),
    if_pos (Nat.succ_le_of_lt inside)]
  simp [below, setElement, wide, room, overlay_snoc room, Nat.add_assoc, bind,
    Except.bind, pure, Except.pure]

theorem addWithOverflow_outside {string : List Object} {start : Nat}
    {line : List Object}
    (outside : string.length - start ≤ line.length) (character : Char) :
    addWithOverflow string.length start true (intoAfter string start line)
        (.character character) =
      .ok (intoAfter string start (line ++ [.character character])) := by
  have least : min line.length (string.length - start) =
      string.length - start := by
    omega
  have next : min (line.length + 1) (string.length - start) =
      string.length - start := by
    omega
  have past : start + (string.length - start) ≥ string.length := by omega
  have beyond : ¬line.length + 1 ≤ string.length - start := by omega
  rw [addWithOverflow, intoAfter, intoAfter, List.length_append,
    List.length_singleton, least, next, if_neg beyond,
    List.take_append_of_le_length outside,
    List.drop_append_of_le_length outside]
  by_cases full : line.length ≤ string.length - start
  · have empty : line.drop (string.length - start) = [] :=
      List.drop_eq_nil_of_le full
    simp [past, full, empty]
  · simp [past, full]

theorem foldlM_addWithOverflow (string : List Object) (start : Nat)
    (line : List Char) :
    (characters line).foldlM (addWithOverflow string.length start true)
        { string := string, index := start, overflow := none } =
      .ok (intoAfter string start (characters line)) := by
  induction line using List.reverseRecOn with
  | nil => simp [characters, intoAfter, overlay_nil, pure, Except.pure]
  | append_singleton line character inductionHypothesis =>
      rw [characters, List.map_append, ← characters, List.foldlM_append,
        inductionHypothesis]
      by_cases inside : (characters line).length < string.length - start
      · have added := addWithOverflow_inside inside character
        simp [added, bind, Except.bind, pure, Except.pure]
      · have added :=
          addWithOverflow_outside (Nat.le_of_not_lt inside) character
        simp [added, bind, Except.bind, pure, Except.pure]

theorem concatenate_characters (string : List Object) (text : List Char) :
    concatenate string (characters text) =
      .ok (string ++ characters text) := by
  induction text generalizing string with
  | nil => simp [characters, concatenate]
  | cons character text inductionHypothesis =>
      show concatenate (string ++ [.character character]) (characters text) = _
      rw [inductionHypothesis, List.append_assoc]
      rfl

theorem finish_inside {string : List Object} {start : Nat}
    {line : List Object} (fits : line.length ≤ string.length - start) :
    (intoAfter string start line).finish = .ok (stored string start line) := by
  rw [intoAfter, LineInto.finish, if_pos fits, List.take_of_length_le fits,
    stored]
  by_cases empty : line = []
  · rw [if_pos empty, empty, overlay_nil]
  · have some := List.length_pos_of_ne_nil empty
    have inside : start - string.length = 0 := by omega
    rw [if_neg empty, inside, List.replicate_zero, List.append_nil]

theorem overlay_outside {string line : List Object} {start : Nat}
    (outside : string.length - start < line.length) (blanks : List Object)
    (wide : blanks.length = start - string.length) :
    overlay string start (line.take (string.length - start)) ++
        (blanks ++ line.drop (string.length - start)) =
      overlay (string ++ blanks) start line := by
  by_cases inside : start ≤ string.length
  · have empty : blanks = [] := by
      apply List.eq_nil_of_length_eq_zero
      omega
    have covered : string.drop (start + (string.length - start)) = [] := by
      apply List.drop_eq_nil_of_le
      omega
    have past : string.drop (start + line.length) = [] := by
      apply List.drop_eq_nil_of_le
      omega
    have taken : (line.take (string.length - start)).length =
        string.length - start := by
      rw [List.length_take]
      omega
    simp [overlay, empty, taken, covered, past]
  · have none : string.length - start = 0 := by omega
    have whole : (string ++ blanks).length = start := by
      rw [List.length_append]
      omega
    rw [none, List.take_zero, overlay_nil, List.drop_zero, overlay,
      List.take_of_length_le (Nat.le_of_eq whole), List.drop_eq_nil_of_le,
      List.append_nil, List.append_assoc]
    omega

theorem finish_outside {string : List Object} {start : Nat}
    {line : List Char}
    (outside : string.length - start < (characters line).length) :
    (intoAfter string start (characters line)).finish =
      .ok (stored string start (characters line)) := by
  have nonempty : characters line ≠ [] :=
    List.ne_nil_of_length_pos (Nat.zero_lt_of_lt outside)
  have overflow : List.replicate (start - string.length)
        (Object.character ' ') ++
      (characters line).drop (string.length - start) =
      characters (List.replicate (start - string.length) ' ' ++
        line.drop (string.length - start)) := by
    simp [characters]
  rw [intoAfter, LineInto.finish, if_neg (Nat.not_le_of_lt outside), stored,
    if_neg nonempty]
  simp only [overflow, concatenate_characters]
  rw [← overflow, overlay_outside outside _ List.length_replicate]

/-- `read-line-into!` stores the first line of the text that is left. -/
theorem readLineInto_left (left : kind.HasLeft stream text)
    (nonempty : text ≠ []) {fuel : Nat} (enough : text.length < fuel)
    (string : List Object) (start : Nat) (onEndOfStream : Option Object) :
    ∃ next, kind.HasLeft next (split text).rest ∧
      readLineInto kind fuel stream string start onEndOfStream true =
        .ok (.sequence
            (stored string start (characters (split text).line)),
          (split text).terminated, next) := by
  rcases kind.streamAtEnd_left left with ⟨here, atEnd, hereLeft⟩
  rcases lineLoop_left (addWithOverflow string.length start true)
    hereLeft enough ⟨string, start, none⟩ with ⟨next, nextLeft, loop⟩
  refine ⟨next, nextLeft, ?_⟩
  have remains : text.isEmpty = false := by
    simpa using nonempty
  have finished : (intoAfter string start
      (characters (split text).line)).finish =
        .ok (stored string start (characters (split text).line)) := by
    by_cases fits : (characters (split text).line).length ≤
        string.length - start
    · exact finish_inside fits
    · exact finish_outside (Nat.lt_of_not_le fits)
  rw [foldlM_addWithOverflow] at loop
  simp [readLineInto, atEnd, remains, loop, finished, bind, Except.bind, pure,
    Except.pure]

end Laws

end OpenDylan.Streams.LineReading
