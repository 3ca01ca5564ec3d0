import OpenDylan.Compiler.LexerTransitions

/-!
# The lexer

`get-token` starts the state machine at the position of the lexer and keeps
advancing it until it jams.  The last accepting state that was seen decides
which fragment is made; whitespace and comments make the machine start over.
Nested comments and the quotes around strings are counted in the lexer itself.

Conditions that the reader handles leave `get-token` by a non-local exit, as
they do under `read-top-level-fragment`; the one for an unterminated hash
literal is no reader error and returns.  The fragments that are made from the
text of a token alone, and the decoding of the contents of a string, are a
parameter.
-/

namespace OpenDylan.Compiler.Lexer

/-! ## Fragments -/

/-- A range in the source, from `make-lexer-source-location`. -/
structure SourceLocation where
  startPosn : Nat
  startLine : Nat
  startColumn : Int
  endPosn : Nat
  endLine : Nat
  endColumn : Int
deriving DecidableEq

/-- What a fragment says besides its class. -/
inductive Value where
  | nothing
  | name (name : List Code)
  | integer (value : Int)
  | character (code : Code)
  | float (text : List Code)
  | string (contents : List Code)
  | symbol (contents : List Code)
  | constrained (name constraint : List Code)
  | parserCall (name data : List Code)
deriving DecidableEq

/-- A fragment, with the function that made it for its class. -/
structure Fragment where
  builder : Builder
  location : SourceLocation
  value : Value
deriving DecidableEq

/-- What the construction of a fragment can signal. -/
inductive LiteralError where
  | integerTooLarge
  | characterCodeTooLarge
  | invalidStringLiteral
  | ratiosNotSupported
deriving DecidableEq

/-- What `get-token` can signal. -/
inductive Condition where
  | invalidToken (location : SourceLocation)
  | literal (error : LiteralError) (location : SourceLocation)
  | subscriptOutOfBounds
  | noPreviousAcceptingState
  | noColonInConstrainedName
deriving DecidableEq

/-- The constructors that use only the text of a token, and `decode-string` of
the text between the delimiters. -/
structure Builders where
  read : Builder → List Code → Except LiteralError Value
  decodeString : List Code → Bool → Except LiteralError (List Code)

/-! ## The lexer and its actions -/

/-- `<lexer>`, apart from its source -/
structure Lexer where
  position : Nat
  lineNumber : Nat
  lineStartPosition : Nat
  doubleQuoteStartCount : Nat
  doubleQuoteEndCount : Nat
  delimitedCommentStartCount : Nat
  delimitedCommentEndCount : Nat
  previousToken : Option Fragment
deriving DecidableEq

/-- A lexer made at a position. -/
def Lexer.make (position lineNumber lineStartPosition : Nat) : Lexer where
  position := position
  lineNumber := lineNumber
  lineStartPosition := lineStartPosition
  doubleQuoteStartCount := 0
  doubleQuoteEndCount := 0
  delimitedCommentStartCount := 0
  delimitedCommentEndCount := 0
  previousToken := none

/-- What a state says about accepting. -/
inductive Acceptable where
  | yes
  | no
  | usePrevious
  | clearPrevious
  | accept
deriving DecidableEq

/-- A truth value as an answer. -/
def Acceptable.ofBool (answer : Bool) : Acceptable :=
  if answer then .yes else .no

/-- The functions of the conditionally accepting states. -/
def Action.run (lexer : Lexer) : Action → Acceptable × Lexer
  | .incrementDelimitedCommentStartCount =>
      (.clearPrevious, { lexer with
        delimitedCommentStartCount := lexer.delimitedCommentStartCount + 1 })
  | .incrementDelimitedCommentEndCount =>
      let count := lexer.delimitedCommentEndCount + 1
      (.ofBool (count == lexer.delimitedCommentStartCount),
        { lexer with delimitedCommentEndCount := count })
  | .incrementDoubleQuoteStartCount =>
      let count := lexer.doubleQuoteStartCount + 1
      (.ofBool (2 == count), { lexer with doubleQuoteStartCount := count })
  | .incrementDoubleQuoteEndCount =>
      let count := lexer.doubleQuoteEndCount + 1
      (if count = lexer.doubleQuoteStartCount ∧ count ≠ 2 then .accept
        else .no,
        { lexer with doubleQuoteEndCount := count })
  | .resetDoubleQuoteEndCount =>
      (if lexer.doubleQuoteStartCount = lexer.doubleQuoteEndCount ∨
            lexer.doubleQuoteStartCount = 2 then .usePrevious
        else .no,
        { lexer with doubleQuoteEndCount := 0 })

/-- `do-state-action` -/
def doStateAction (lexer : Lexer) (name : StateName) : Acceptable × Lexer :=
  match (machine name).action with
  | none => (.ofBool (machine name).fragmentBuilder.isSome, lexer)
  | some action =>
      let (answer, lexer) := action.run lexer
      match answer with
      | .yes => (.ofBool (machine name).fragmentBuilder.isSome, lexer)
      | other => (other, lexer)

/-! ## Advancing the machine -/

/-- The local variables of `get-token`. -/
structure Scan where
  lexer : Lexer
  startPos : Nat
  startLineNumber : Nat
  startLineStartPos : Nat
  currentLineNumber : Nat
  currentLineStartPos : Nat
  builder : Option Builder
  endPos : Option Nat
  endLineNumber : Option Nat
  endLineStartPos : Option Nat
deriving DecidableEq

/-- The local variables at the beginning. -/
def Scan.begin (lexer : Lexer) : Scan where
  lexer := lexer
  startPos := lexer.position
  startLineNumber := lexer.lineNumber
  startLineStartPos := lexer.lineStartPosition
  currentLineNumber := lexer.lineNumber
  currentLineStartPos := lexer.lineStartPosition
  builder := none
  endPos := none
  endLineNumber := none
  endLineStartPos := none

/-- `make-source-location` -/
def Scan.location (scan : Scan) (endPos endLineStartPos : Nat) :
    SourceLocation where
  startPosn := scan.startPos
  startLine := scan.startLineNumber
  startColumn := scan.startPos - scan.startLineStartPos
  endPosn := endPos
  endLine := scan.endLineNumber.getD scan.currentLineNumber
  endColumn := endPos - endLineStartPos

/-- `save-accepting-state` -/
def Scan.saveAcceptingState (scan : Scan) (pos : Nat) (builder : Builder) :
    Scan :=
  { scan with
    builder := some builder
    endPos := some pos
    endLineNumber := some scan.currentLineNumber
    endLineStartPos := some scan.currentLineStartPos }

/-- The assignments of `start-over`. -/
def Scan.startOver (scan : Scan) (pos : Nat) : Scan :=
  { scan with
    startPos := pos
    startLineNumber := scan.currentLineNumber
    startLineStartPos := scan.currentLineStartPos
    builder := none
    endPos := none
    endLineNumber := none
    endLineStartPos := none }

/-- Forget an accepting state. -/
def Scan.clearPrevious (scan : Scan) : Scan :=
  { scan with
    builder := none
    endPos := none
    endLineNumber := some scan.currentLineNumber
    endLineStartPos := some scan.currentLineStartPos }

/-- The end of a comment resets the counts of its delimiters. -/
def Lexer.resetDelimitedComment (lexer : Lexer) : Lexer :=
  { lexer with
    delimitedCommentStartCount := 0
    delimitedCommentEndCount := 0 }

/-- Count a newline. -/
def Scan.readCode (scan : Scan) (code : Code) (pos : Nat) : Scan :=
  if code = 10 then
    { scan with
      currentLineNumber := scan.currentLineNumber + 1
      currentLineStartPos := pos + 1 }
  else
    scan

/-- What `repeat` goes on with. -/
inductive Next where
  | advance (name : StateName) (scan : Scan)
  | stop (scan : Scan)
  | failed (scan : Scan)

/-- `repeat` in a state at a position.  Starting over leads to the initial
state, which accepts nothing. -/
def enter (name : StateName) (pos : Nat) (scan : Scan) : Next :=
  let (acceptable, lexer) := doStateAction scan.lexer name
  let scan := { scan with lexer := lexer }
  match acceptable, (machine name).fragmentBuilder with
  | .clearPrevious, _ => .advance name scan.clearPrevious
  | .no, _ => .advance name scan
  | _, none => .advance name scan
  | _, some .whitespace => .advance .start (scan.startOver pos)
  | _, some .comment =>
      .advance .start ({ scan with
        lexer := scan.lexer.resetDelimitedComment }.startOver pos)
  | .yes, some builder =>
      .advance name (scan.saveAcceptingState pos builder)
  | .usePrevious, some _ =>
      if scan.builder.isSome then .stop scan else .failed scan
  | .accept, some builder => .stop (scan.saveAcceptingState pos builder)

/-- How the machine comes to an end: it jams at a position, stops in an
accepting state, or fails. -/
inductive Stopped where
  | jammed (pos : Nat) (scan : Scan)
  | accepted (scan : Scan)
  | failed (scan : Scan)

/-- `advance` in a state over the rest of the source. -/
def advance : List Code → StateName → Nat → Scan → Stopped
  | [], _, pos, scan => .jammed pos scan
  | code :: rest, name, pos, scan =>
      if (machine name).transitions.isEmpty then
        .jammed pos scan
      else
        match name.next code with
        | none => .jammed pos (scan.readCode code pos)
        | some new =>
            match enter new (pos + 1) (scan.readCode code pos) with
            | .advance new scan => advance rest new (pos + 1) scan
            | .stop scan => .accepted scan
            | .failed scan => .failed scan

/-- The machine started at the position of a lexer. -/
def scanToken (contents : List Code) (lexer : Lexer) : Stopped :=
  advance (contents.drop lexer.position) .start lexer.position
    (Scan.begin lexer)

/-! ## Making fragments -/

/-- `extract-string` -/
def extractString (contents : List Code) (start finish : Nat) : List Code :=
  (contents.drop start).take (finish - start)

/-- `$escape-code` -/
def escapeCode : Code := 92

/-- The end delimiter for a start delimiter of the data of a hash literal,
from `$hash-data-start-delimiters` and `$hash-data-end-delimiters`. -/
def endDelimiter (code : Code) : Option Code :=
  ("\"\x7b[(|\x60'".toList.zip "\"\x7d])|\x60'".toList).findSome? fun pair =>
    if code.val == pair.1.toNat then some (Fin.ofNat 256 pair.2.toNat) else none

/-- `delimiter-code?` -/
def delimiterCode (code : Code) : Bool :=
  " \n\t,;()[]\x7b\x7d".toList.any fun char => code.val == char.toNat

/-- The loop of `make-hash-literal` to the end delimiter: the position of that,
if there is one, and the lexer with the newlines that were passed. -/
def findEndDelimiter (delimiter : Code) :
    List Code → Nat → Code → Lexer → Option Nat × Lexer
  | [], _, _, lexer => (none, lexer)
  | char :: rest, i, prevChar, lexer =>
      if char = delimiter ∧ prevChar ≠ escapeCode then
        (some i, lexer)
      else if char = 10 then
        findEndDelimiter delimiter rest (i + 1) char
          { lexer with
            lineNumber := lexer.lineNumber + 1
            lineStartPosition := i }
      else
        findEndDelimiter delimiter rest (i + 1) char lexer

/-- `make-hash-literal`, up to the call that is made of the name and the
data. -/
def makeHashLiteral (contents : List Code) (lexer : Lexer)
    (location : SourceLocation) : Except Condition Fragment × Lexer :=
  let name :=
    extractString contents (location.startPosn + 2) (location.endPosn - 1)
  let call data : Fragment :=
    { builder := .makeHashLiteral
      location := location
      value := .parserCall name data }
  let dataStart := lexer.position
  match contents.drop dataStart with
  | [] => (.error .subscriptOutOfBounds, lexer)
  | delimiter :: rest =>
      match endDelimiter delimiter with
      | some finish =>
          match findEndDelimiter finish rest (dataStart + 1) 0 lexer with
          | (some i, lexer) =>
              (.ok (call (extractString contents (dataStart + 1) i)),
                { lexer with position := i + 1 })
          | (none, lexer) => (.ok (call []), lexer)
      | none =>
          let data := (delimiter :: rest).takeWhile fun char =>
            !delimiterCode char
          (.ok (call data),
            { lexer with position := dataStart + data.length })

/-- `extract-string-contents` -/
def extractStringContents (builders : Builders) (contents : List Code)
    (prefixLength : Nat) (escapes : Bool) (lexer : Lexer)
    (location : SourceLocation) : Except LiteralError (List Code) × Lexer :=
  let count := lexer.doubleQuoteStartCount
  let lexer := { lexer with
    doubleQuoteStartCount := 0
    doubleQuoteEndCount := 0 }
  if location.endPosn - location.startPosn = 2 + prefixLength then
    (.ok [], lexer)
  else
    (builders.decodeString
      (extractString contents (location.startPosn + count + prefixLength)
        (location.endPosn - count)) escapes, lexer)

/-- Whether the previous token makes a name with one colon a constrained
name. -/
def isQuery : Builder → Bool
  | .queryFragment | .queryQueryFragment
  | .makeEscapedEllipsis | .makeEscapedQuery | .makeEscapedHashNextFragment
  | .makeEscapedHashRestFragment | .makeEscapedHashKeyFragment
  | .makeEscapedHashAllKeysFragment | .makeEscapedQueryQuery
  | .makeEscapedQueryEqual | .makeEscapedColonColon => true
  | _ => false

/-- `make-constrained-name` -/
def makeConstrainedName (builders : Builders) (text : List Code)
    (lexer : Lexer) (location : SourceLocation) : Except Condition Fragment :=
  let name := text.takeWhile fun code => code ≠ 58
  match text.dropWhile fun code => code ≠ 58 with
  | [] => .error .noColonInConstrainedName
  | _ :: constraint =>
      if name.isEmpty ∨
          lexer.previousToken.any (fun token => isQuery token.builder) then
        .ok { builder := .makeConstrainedName
              location := location
              value := .constrained
                (if name.isEmpty then constraint else name) constraint }
      else
        match builders.read .makeQualifiedName text with
        | .error error => .error (.literal error location)
        | .ok value =>
            .ok { builder := .makeQualifiedName
                  location := location
                  value := value }

/-- `make-stringish-literal` and `make-raw-string-literal`, which are told
apart by the length of what stands before the quotes. -/
def makeString (builders : Builders) (contents : List Code)
    (prefixLength : Nat) (escapes : Bool) (builder : Builder)
    (value : List Code → Value) (lexer : Lexer) (location : SourceLocation) :
    Except Condition Fragment × Lexer :=
  match extractStringContents builders contents prefixLength escapes lexer
      location with
  | (.error error, lexer) => (.error (.literal error location), lexer)
  | (.ok string, lexer) =>
      (.ok { builder := builder
             location := location
             value := value string }, lexer)

/-- The fragment builders. -/
def build (builders : Builders) (contents : List Code) (lexer : Lexer)
    (location : SourceLocation) :
    Builder → Except Condition Fragment × Lexer
  | .makeHashLiteral => makeHashLiteral contents lexer location
  | .makeStringishLiteral =>
      if contents[location.startPosn]? = some 35 then
        makeString builders contents 1 true .makeStringishLiteral .symbol
          lexer location
      else
        makeString builders contents 0 true .makeStringishLiteral .string
          lexer location
  | .makeRawStringLiteral =>
      makeString builders contents 2 false .makeRawStringLiteral .string
        lexer location
  | .makeConstrainedName =>
      (makeConstrainedName builders
        (extractString contents location.startPosn location.endPosn) lexer
        location, lexer)
  | builder =>
      match builders.read builder
          (extractString contents location.startPosn location.endPosn) with
      | .error error => (.error (.literal error location), lexer)
      | .ok value =>
          (.ok { builder := builder
                 location := location
                 value := value }, lexer)

/-! ## Tokens -/

/-- Keep a fragment as the previous token. -/
def recordPrevious : Except Condition Fragment × Lexer →
    Except Condition Fragment × Lexer
  | (.error condition, lexer) => (.error condition, lexer)
  | (.ok fragment, lexer) =>
      (.ok fragment, { lexer with previousToken := some fragment })

/-- The position at which the token that was read ends. -/
def Scan.tokenEnd (scan : Scan) : Nat :=
  scan.endPos.getD (scan.startPos + 1)

/-- The lexer at the end of the token that was read. -/
def Scan.moved (scan : Scan) : Lexer :=
  { scan.lexer with
    position := scan.tokenEnd
    lineNumber := scan.endLineNumber.getD scan.currentLineNumber
    lineStartPosition := scan.endLineStartPos.getD scan.currentLineStartPos }

/-- The end of `get-token`, with the accepting state that was saved. -/
def acceptToken (builders : Builders) (contents : List Code) (scan : Scan)
    (builder : Builder) : Except Condition Fragment × Lexer :=
  recordPrevious (build builders contents scan.moved
    (scan.location scan.tokenEnd scan.moved.lineStartPosition) builder)

/-- What `get-token` does when the machine has come to an end at a
position. -/
def finishToken (builders : Builders) (contents : List Code) (pos : Nat)
    (scan : Scan) : Except Condition Fragment × Lexer :=
  match scan.builder with
  | some builder => acceptToken builders contents scan builder
  | none =>
      if scan.startPos ≥ contents.length then
        acceptToken builders contents
          (scan.saveAcceptingState scan.startPos .eofMarker) .eofMarker
      else
        (.error (.invalidToken (scan.location pos scan.currentLineStartPos)),
          scan.lexer)

/-- The rest of `get-token` after the machine. -/
def takeToken (builders : Builders) (contents : List Code) :
    Stopped → Except Condition Fragment × Lexer
  | .jammed pos scan => finishToken builders contents pos scan
  | .accepted scan =>
      finishToken builders contents (scan.endPos.getD scan.startPos) scan
  | .failed scan => (.error .noPreviousAcceptingState, scan.lexer)

/-- `get-token` -/
def getToken (builders : Builders) (contents : List Code) (lexer : Lexer) :
    Except Condition Fragment × Lexer :=
  takeToken builders contents (scanToken contents lexer)

/-! ## Recovery -/

/-- `at-whitespace?` at the beginning of the rest of a source -/
def atWhitespace : List Code → Bool
  | code :: _ => code.val == 32 || code.val == 10 || code.val == 9
  | [] => false

/-- `at-end-word?` at the beginning of the rest of a source -/
def atEndWord : List Code → Bool
  | e :: n :: d :: _ =>
      (e.val == 101 || e.val == 69) && (n.val == 110 || n.val == 78) &&
        (d.val == 100 || d.val == 68)
  | _ => false

/-- The local method `walk` of `skip-to-next-top-level-form` -/
def walk : List Code → Nat → Lexer → Lexer
  | [], i, lexer => { lexer with position := i }
  | code :: rest, i, lexer =>
      if code = 10 then
        let lexer := { lexer with
          lineStartPosition := i + 1
          lineNumber := lexer.lineNumber + 1 }
        if !atWhitespace rest && !atEndWord rest then
          { lexer with position := i + 1 }
        else
          walk rest (i + 1) lexer
      else
        walk rest (i + 1) lexer

/-- `skip-to-next-top-level-form` -/
def skipToNextTopLevelForm (contents : List Code) (lexer : Lexer) : Lexer :=
  walk (contents.drop lexer.position) lexer.position lexer

end OpenDylan.Compiler.Lexer
