import Mathlib.Data.List.Basic

/-!
# Indenting streams

An indenting stream passes what is written to it on to an inner stream, with
the blanks at the start of a line replaced by an indentation.  The blanks are
counted in a column until another character comes.  An outcome keeps what has
been passed on also when an error is signalled.
-/

namespace OpenDylan.Streams.Indenting

/-! ## Streams and outcomes -/

inductive StreamError where
  /-- The end of a part of a sequence that is to be written. -/
  | badEnd (finish : Int)
  | badIndex (index : Nat)
  | divisionByZero
deriving DecidableEq

/-- `<indenting-stream>`, with the characters that its inner stream has got. -/
structure IndentingStream where
  innerStream : List Char
  isSpaceColumn : Option Int := some 0
  isIndentation : Int := 0
  isInputTabWidth : Int := 8
  isOutputTabWidth : Option Int := none
deriving DecidableEq

structure Outcome where
  stream : IndentingStream
  error : Option StreamError
deriving DecidableEq

/-- An operation that has come to its end. -/
def done (stream : IndentingStream) : Outcome := ⟨stream, none⟩

/-- An operation that an error ends. -/
def signal (stream : IndentingStream) (error : StreamError) : Outcome :=
  ⟨stream, some error⟩

def Outcome.andThen (first : Outcome)
    (next : IndentingStream → Outcome) : Outcome :=
  match first.error with
  | none => next first.stream
  | some _ => first

/-- Characters for the inner stream. -/
def IndentingStream.writeInner (stream : IndentingStream)
    (elements : List Char) : IndentingStream :=
  { stream with innerStream := stream.innerStream ++ elements }

/-- `copy-sequence` -/
def copySequence (elements : List Char) (start finish : Nat) : List Char :=
  (elements.take finish).drop start

/-- `remainder`; `none` for a division by zero. -/
def remainder (x y : Int) : Option Int :=
  if y = 0 then none else some (x.tmod y)

/-- `truncate/`; `none` for a division by zero. -/
def truncateDivide (x y : Int) : Option (Int × Int) :=
  if y = 0 then none else some (x.tdiv y, x.tmod y)

/-! ## Indenting -/

/-- `$spaces` -/
def spaces : List Char := List.replicate 64 ' '

/-- `$tabs` -/
def tabs : List Char := List.replicate 32 '\t'

/-- `write-spaces` and `write-tabs`, with the string of blanks that they
take.  The count bounds the rounds. -/
def writeBlanks (blanks : List Char) :
    Nat → Int → IndentingStream → Outcome
  | rounds, count, stream =>
      if count > blanks.length then
        match rounds with
        -- Not reached: the rounds are no less than the count.
        | 0 => done stream
        | rounds + 1 =>
            writeBlanks blanks rounds (count - blanks.length)
              (stream.writeInner blanks)
      else if 0 ≤ count then
        done (stream.writeInner (copySequence blanks 0 count.toNat))
      else
        signal stream (.badEnd count)

/-- `write-spaces` -/
def writeSpaces (count : Int) (stream : IndentingStream) : Outcome :=
  writeBlanks spaces count.toNat count stream

/-- `write-tabs` -/
def writeTabs (count : Int) (stream : IndentingStream) : Outcome :=
  writeBlanks tabs count.toNat count stream

/-- `write-indent` -/
def writeIndent (stream : IndentingStream) (count : Int) : Outcome :=
  match stream.isOutputTabWidth with
  | none => writeSpaces count stream
  | some tabWidth =>
      if count ≥ tabWidth then
        match truncateDivide count tabWidth with
        | none => signal stream .divisionByZero
        | some (tabs, spaces) =>
            (writeTabs tabs stream).andThen (writeSpaces spaces)
      else
        writeSpaces count stream

/-! ## Writing -/

/-- The column after a tab; `none` for a division by zero. -/
def tabColumn (column tabWidth : Int) : Option Int :=
  (remainder column tabWidth).map fun rest => column + tabWidth - rest

/-- `write-element` -/
def writeElement (stream : IndentingStream) (elt : Char) : Outcome :=
  if elt = ' ' then
    match stream.isSpaceColumn with
    | some column => done { stream with isSpaceColumn := some (column + 1) }
    | none => done (stream.writeInner [elt])
  else if elt = '\t' then
    match stream.isSpaceColumn with
    | some column =>
        match tabColumn column stream.isInputTabWidth with
        | none => signal stream .divisionByZero
        | some column => done { stream with isSpaceColumn := some column }
    | none => done (stream.writeInner [elt])
  else if elt = '\n' ∨ elt = '\r' then
    done ({ stream with isSpaceColumn := some 0 }.writeInner [elt])
  else
    let indented :=
      match stream.isSpaceColumn with
      | some column => writeIndent stream (stream.isIndentation + column)
      | none => done stream
    indented.andThen fun stream =>
      done ({ stream with isSpaceColumn := none }.writeInner [elt])

/-- The loop of `write`, with `left` elements before the end. -/
def writeLoop (elements : List Char) :
    Nat → Nat → Nat → Option Int → IndentingStream → Outcome
  | 0, index, start, spaceColumn, stream =>
      let stream :=
        if start ≠ index then
          stream.writeInner (copySequence elements start index)
        else
          stream
      done { stream with isSpaceColumn := spaceColumn }
  | left + 1, index, start, spaceColumn, stream =>
      match elements[index]? with
      | none => signal stream (.badIndex index)
      | some elt =>
          if elt = ' ' then
            match spaceColumn with
            | some column =>
                writeLoop elements left (index + 1) (index + 1)
                  (some (column + 1)) stream
            | none =>
                writeLoop elements left (index + 1) start none stream
          else if elt = '\t' then
            match spaceColumn with
            | some column =>
                match tabColumn column stream.isInputTabWidth with
                | none => signal stream .divisionByZero
                | some column =>
                    writeLoop elements left (index + 1) (index + 1)
                      (some column) stream
            | none =>
                writeLoop elements left (index + 1) start none stream
          else if elt = '\n' ∨ elt = '\r' then
            writeLoop elements left (index + 1) (index + 1) (some 0)
              (stream.writeInner (copySequence elements start (index + 1)))
          else
            let indented :=
              match spaceColumn with
              | some column => writeIndent stream (stream.isIndentation + column)
              | none => done stream
            indented.andThen
              (writeLoop elements left (index + 1) start none)

/-- `write` -/
def write (stream : IndentingStream) (elements : List Char)
    (start finish : Nat) : Outcome :=
  writeLoop elements (finish - start) start start stream.isSpaceColumn stream

/-! ## Writing one character at a time and in chunks -/

/-- A text written with `write-element` alone. -/
def writeElements : List Char → IndentingStream → Outcome
  | [], stream => done stream
  | elt :: text, stream => (writeElement stream elt).andThen (writeElements text)

/-- A part of a text: a character for `write-element`, or elements with bounds
for `write`. -/
inductive Chunk where
  | element (elt : Char)
  | part (elements : List Char) (start finish : Nat)

/-- The bounds of a chunk lie inside its elements. -/
def Chunk.InBounds : Chunk → Prop
  | .element _ => True
  | .part elements _ finish => finish ≤ elements.length

/-- The characters of a chunk. -/
def Chunk.text : Chunk → List Char
  | .element character => [character]
  | .part elements start finish => copySequence elements start finish

def Chunk.write (stream : IndentingStream) : Chunk → Outcome
  | .element character => writeElement stream character
  | .part elements start finish =>
      Indenting.write stream elements start finish

def writeChunks : List Chunk → IndentingStream → Outcome
  | [], stream => done stream
  | chunk :: chunks, stream => (chunk.write stream).andThen (writeChunks chunks)

end OpenDylan.Streams.Indenting
