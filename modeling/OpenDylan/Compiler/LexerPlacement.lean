import OpenDylan.Compiler.Lexer

/-!
# Tokens do not depend on where a text stands

A text is lexed in the same way whatever stands before it in the source and
whatever the lexer takes for the number of its line: the fragments are the
same, at positions that are moved by the length of what stands before.
-/

namespace OpenDylan.Compiler.Lexer

/-! ## Moving by a distance -/

/-- The characters of a location are moved; its lines may be any. -/
structure SourceLocation.Moved (distance : Nat)
    (first second : SourceLocation) : Prop where
  startPosn : second.startPosn = distance + first.startPosn
  endPosn : second.endPosn = distance + first.endPosn

/-- The same fragment at a moved location. -/
structure Fragment.Moved (distance : Nat) (first second : Fragment) : Prop where
  builder : second.builder = first.builder
  location : first.location.Moved distance second.location
  value : second.value = first.value

/-- The same condition at a moved location. -/
inductive Condition.Moved (distance : Nat) : Condition → Condition → Prop where
  | invalidToken {first second : SourceLocation}
      (moved : first.Moved distance second) :
      Condition.Moved distance (.invalidToken first) (.invalidToken second)
  | literal {error : LiteralError} {first second : SourceLocation}
      (moved : first.Moved distance second) :
      Condition.Moved distance (.literal error first) (.literal error second)
  | subscriptOutOfBounds :
      Condition.Moved distance .subscriptOutOfBounds .subscriptOutOfBounds
  | noPreviousAcceptingState :
      Condition.Moved distance .noPreviousAcceptingState
        .noPreviousAcceptingState
  | noColonInConstrainedName :
      Condition.Moved distance .noColonInConstrainedName
        .noColonInConstrainedName

/-- The same outcome at a moved location. -/
inductive OutcomeMoved (distance : Nat) :
    Except Condition Fragment → Except Condition Fragment → Prop where
  | ok {first second : Fragment} (moved : first.Moved distance second) :
      OutcomeMoved distance (.ok first) (.ok second)
  | error {first second : Condition} (moved : first.Moved distance second) :
      OutcomeMoved distance (.error first) (.error second)

/-- Two lexers agree in what they have counted and in the class of the
previous token. -/
structure Lexer.Alike (first second : Lexer) : Prop where
  doubleQuoteStartCount :
    second.doubleQuoteStartCount = first.doubleQuoteStartCount
  doubleQuoteEndCount : second.doubleQuoteEndCount = first.doubleQuoteEndCount
  delimitedCommentStartCount :
    second.delimitedCommentStartCount = first.delimitedCommentStartCount
  delimitedCommentEndCount :
    second.delimitedCommentEndCount = first.delimitedCommentEndCount
  previousToken : second.previousToken.map Fragment.builder =
    first.previousToken.map Fragment.builder

/-- A lexer at a moved position. -/
structure Lexer.Moved (distance : Nat) (first second : Lexer) : Prop where
  alike : first.Alike second
  position : second.position = distance + first.position

/-- The local variables of `get-token` for a moved text. -/
structure Scan.Moved (distance : Nat) (first second : Scan) : Prop where
  lexer : first.lexer.Alike second.lexer
  startPos : second.startPos = distance + first.startPos
  builder : second.builder = first.builder
  endPos : second.endPos = first.endPos.map fun pos => distance + pos
  saved : first.builder.isSome → first.endPos.isSome

/-! ## The machine -/

section Machine

variable {distance : Nat} {first second : Scan}

/-- The actions answer alike. -/
theorem doStateAction_alike {first second : Lexer}
    (alike : first.Alike second) (name : StateName) :
    (doStateAction second name).1 = (doStateAction first name).1 ∧
      (doStateAction first name).2.Alike (doStateAction second name).2 := by
  obtain ⟨quoteStart, quoteEnd, commentStart, commentEnd, previous⟩ := alike
  rw [doStateAction, doStateAction]
  cases (machine name).action with
  | none =>
      exact ⟨rfl, quoteStart, quoteEnd, commentStart, commentEnd, previous⟩
  | some action =>
      have ran : (action.run second).1 = (action.run first).1 ∧
          (action.run first).2.Alike (action.run second).2 := by
        refine ⟨?_, ?_, ?_, ?_, ?_, ?_⟩
        all_goals
          cases action <;>
            simp only [Action.run, quoteStart, quoteEnd, commentStart,
              commentEnd, previous]
      obtain ⟨answer, alike⟩ := ran
      simp only [answer]
      split
      · exact ⟨rfl, alike⟩
      · exact ⟨rfl, alike⟩

theorem Scan.Moved.saveAcceptingState (moved : first.Moved distance second)
    (pos : Nat) (builder : Builder) :
    (first.saveAcceptingState pos builder).Moved distance
      (second.saveAcceptingState (distance + pos) builder) :=
  ⟨moved.lexer, moved.startPos, rfl, rfl, fun _ => rfl⟩

theorem Scan.Moved.startOver (moved : first.Moved distance second)
    (pos : Nat) :
    (first.startOver pos).Moved distance
      (second.startOver (distance + pos)) :=
  ⟨moved.lexer, rfl, rfl, rfl, fun isSome => by cases isSome⟩

theorem Scan.Moved.readCode (moved : first.Moved distance second)
    (code : Code) (pos pos' : Nat) :
    (first.readCode code pos).Moved distance (second.readCode code pos') := by
  rw [Scan.readCode, Scan.readCode]
  split
  · exact ⟨moved.lexer, moved.startPos, moved.builder, moved.endPos,
      moved.saved⟩
  · exact moved

/-- What a state goes on with, for a moved text. -/
inductive Next.Moved (distance : Nat) : Next → Next → Prop where
  | advance {name : StateName} {first second : Scan}
      (moved : first.Moved distance second) :
      Next.Moved distance (.advance name first) (.advance name second)
  | stop {first second : Scan} (moved : first.Moved distance second) :
      Next.Moved distance (.stop first) (.stop second)
  | failed {first second : Scan} (moved : first.Moved distance second) :
      Next.Moved distance (.failed first) (.failed second)

theorem enter_moved (moved : first.Moved distance second) (name : StateName)
    (pos : Nat) :
    Next.Moved distance (enter name pos first)
      (enter name (distance + pos) second) := by
  obtain ⟨answer, alike⟩ := doStateAction_alike moved.lexer name
  rw [enter, enter]
  generalize doStateAction first.lexer name = one at answer alike ⊢
  generalize doStateAction second.lexer name = two at answer alike ⊢
  obtain ⟨acceptable, lexer⟩ := one
  obtain ⟨acceptable', lexer'⟩ := two
  simp only at answer alike
  subst answer
  have changed : Scan.Moved distance { first with lexer := lexer }
      { second with lexer := lexer' } :=
    ⟨alike, moved.startPos, moved.builder, moved.endPos, moved.saved⟩
  simp only
  split
  · exact .advance ⟨alike, moved.startPos, rfl, rfl,
      fun isSome => by cases isSome⟩
  · exact .advance changed
  · exact .advance changed
  · exact .advance (changed.startOver pos)
  · refine .advance ⟨?_, rfl, rfl, rfl, fun isSome => by cases isSome⟩
    exact ⟨alike.doubleQuoteStartCount, alike.doubleQuoteEndCount, rfl, rfl,
      alike.previousToken⟩
  · exact .advance (changed.saveAcceptingState pos _)
  · by_cases isSome : first.builder.isSome
    · rw [if_pos isSome, if_pos (moved.builder ▸ isSome)]
      exact .stop changed
    · rw [if_neg isSome, if_neg (moved.builder ▸ isSome)]
      exact .failed changed
  · exact .stop (changed.saveAcceptingState pos _)

/-- The end of the machine, for a moved text. -/
inductive Stopped.Moved (distance : Nat) : Stopped → Stopped → Prop where
  | jammed {pos : Nat} {first second : Scan}
      (moved : first.Moved distance second) :
      Stopped.Moved distance (.jammed pos first)
        (.jammed (distance + pos) second)
  | accepted {first second : Scan} (moved : first.Moved distance second) :
      Stopped.Moved distance (.accepted first) (.accepted second)
  | failed {first second : Scan} (moved : first.Moved distance second) :
      Stopped.Moved distance (.failed first) (.failed second)

theorem advance_moved (moved : first.Moved distance second)
    (rest : List Code) (name : StateName) (pos : Nat) :
    Stopped.Moved distance (advance rest name pos first)
      (advance rest name (distance + pos) second) := by
  induction rest generalizing name pos first second with
  | nil => exact .jammed moved
  | cons code rest ih =>
      rw [advance, advance]
      split
      · exact .jammed moved
      · have read := moved.readCode code pos (distance + pos)
        split
        · exact .jammed read
        · next new _ =>
            rw [Nat.add_assoc]
            have entered := enter_moved read new (pos + 1)
            generalize enter new (pos + 1) (first.readCode code pos) =
              one at entered ⊢
            generalize enter new (distance + (pos + 1))
              (second.readCode code (distance + pos)) = two at entered ⊢
            cases entered with
            | advance moved => exact ih moved _ _
            | stop moved => exact .accepted moved
            | failed moved => exact .failed moved

end Machine

/-! ## Fragments -/

/-- What a lexer has counted has nothing to do with its position. -/
theorem Lexer.Alike.place {first second : Lexer} (alike : first.Alike second)
    (position line start position' line' start' : Nat) :
    Lexer.Alike
      { first with
        position := position
        lineNumber := line
        lineStartPosition := start }
      { second with
        position := position'
        lineNumber := line'
        lineStartPosition := start' } :=
  ⟨alike.doubleQuoteStartCount, alike.doubleQuoteEndCount,
    alike.delimitedCommentStartCount, alike.delimitedCommentEndCount,
    alike.previousToken⟩

section Fragments

variable {builders : Builders} {before contents : List Code}
  {first second : Lexer} {here there : SourceLocation}

theorem drop_append_length (before contents : List Code) (pos : Nat) :
    (before ++ contents).drop (before.length + pos) = contents.drop pos := by
  rw [List.drop_append, List.drop_eq_nil_of_le (Nat.le_add_right ..),
    List.nil_append, Nat.add_sub_cancel_left]

/-- A piece of a moved text. -/
theorem extractString_append (before contents : List Code)
    (start finish finish' : Nat)
    (length : finish' - (before.length + start) = finish - start) :
    extractString (before ++ contents) (before.length + start) finish' =
      extractString contents start finish := by
  rw [extractString, extractString, drop_append_length, length]

/-- The text of a token. -/
theorem extractString_moved (moved : here.Moved before.length there) :
    extractString (before ++ contents) there.startPosn there.endPosn =
      extractString contents here.startPosn here.endPosn := by
  rw [moved.startPosn, moved.endPosn]
  apply extractString_append
  omega

/-- Two results of a builder for a moved text; where the first one is a
fragment, the lexers agree. -/
def BuiltMoved (distance : Nat)
    (one two : Except Condition Fragment × Lexer) : Prop :=
  OutcomeMoved distance one.1 two.1 ∧ one.2.Moved distance two.2

theorem findEndDelimiter_moved {distance : Nat} (delimiter : Code)
    (rest : List Code) (i : Nat) (prevChar : Code)
    (moved : first.Moved distance second) :
    (findEndDelimiter delimiter rest (distance + i) prevChar second).1 =
        (findEndDelimiter delimiter rest i prevChar first).1.map
          (fun pos => distance + pos) ∧
      (findEndDelimiter delimiter rest i prevChar first).2.Moved distance
        (findEndDelimiter delimiter rest (distance + i) prevChar second).2 := by
  induction rest generalizing i prevChar first second with
  | nil => exact ⟨rfl, moved⟩
  | cons char rest ih =>
      rw [findEndDelimiter, findEndDelimiter]
      split
      · exact ⟨rfl, moved⟩
      · rw [Nat.add_assoc]
        split
        · exact ih (i + 1) char ⟨moved.alike.place .., moved.position⟩
        · exact ih (i + 1) char moved

theorem makeHashLiteral_moved (moved : first.Moved before.length second)
    (location : here.Moved before.length there) :
    BuiltMoved before.length (makeHashLiteral contents first here)
      (makeHashLiteral (before ++ contents) second there) := by
  have name : extractString (before ++ contents) (there.startPosn + 2)
      (there.endPosn - 1) =
        extractString contents (here.startPosn + 2) (here.endPosn - 1) := by
    rw [location.startPosn, location.endPosn, Nat.add_assoc]
    apply extractString_append
    omega
  rw [makeHashLiteral, makeHashLiteral]
  simp only [name, moved.position, drop_append_length]
  split
  · exact ⟨.error .subscriptOutOfBounds, moved⟩
  · next delimiter rest shape =>
      split
      · next finish isEnd =>
          obtain ⟨found, after⟩ := findEndDelimiter_moved finish rest
            (first.position + 1) 0 moved
          rw [Nat.add_assoc]
          generalize findEndDelimiter finish rest (first.position + 1) 0
            first = one at found after ⊢
          generalize findEndDelimiter finish rest
            (before.length + (first.position + 1)) 0 second =
              two at found after ⊢
          obtain ⟨index, lexer⟩ := one
          obtain ⟨index', lexer'⟩ := two
          simp only at found after
          subst found
          cases index with
          | none => exact ⟨.ok ⟨rfl, location, rfl⟩, after⟩
          | some i =>
              refine ⟨.ok ⟨rfl, location, ?_⟩, after.alike.place .., ?_⟩
              · show Value.parserCall _ _ = Value.parserCall _ _
                rw [extractString_append before contents (first.position + 1)
                  i (before.length + i) (by omega)]
              · exact Nat.add_assoc ..
      · exact ⟨.ok ⟨rfl, location, rfl⟩, moved.alike.place ..,
          Nat.add_assoc ..⟩

theorem extractStringContents_moved (builders : Builders)
    (contents : List Code) (moved : first.Moved before.length second)
    (location : here.Moved before.length there) (prefixLength : Nat)
    (escapes : Bool) :
    (extractStringContents builders (before ++ contents) prefixLength escapes
        second there).1 =
      (extractStringContents builders contents prefixLength escapes first
        here).1 ∧
    Lexer.Moved before.length
      (extractStringContents builders contents prefixLength escapes first
        here).2
      (extractStringContents builders (before ++ contents) prefixLength
        escapes second there).2 := by
  have length : there.endPosn - there.startPosn =
      here.endPosn - here.startPosn := by
    rw [location.startPosn, location.endPosn]
    omega
  have text : extractString (before ++ contents)
      (there.startPosn + second.doubleQuoteStartCount + prefixLength)
      (there.endPosn - second.doubleQuoteStartCount) =
        extractString contents
          (here.startPosn + first.doubleQuoteStartCount + prefixLength)
          (here.endPosn - first.doubleQuoteStartCount) := by
    rw [location.startPosn, location.endPosn,
      moved.alike.doubleQuoteStartCount, Nat.add_assoc, Nat.add_assoc]
    rw [Nat.add_assoc here.startPosn]
    apply extractString_append
    omega
  have lexers : Lexer.Moved before.length
      { first with
        doubleQuoteStartCount := 0
        doubleQuoteEndCount := 0 }
      { second with
        doubleQuoteStartCount := 0
        doubleQuoteEndCount := 0 } :=
    ⟨⟨rfl, rfl, moved.alike.delimitedCommentStartCount,
      moved.alike.delimitedCommentEndCount, moved.alike.previousToken⟩,
      moved.position⟩
  rw [extractStringContents, extractStringContents]
  simp only [length, text]
  split
  · exact ⟨rfl, lexers⟩
  · exact ⟨rfl, lexers⟩

theorem makeString_moved (moved : first.Moved before.length second)
    (location : here.Moved before.length there) (prefixLength : Nat)
    (escapes : Bool) (builder : Builder) (value : List Code → Value) :
    BuiltMoved before.length
      (makeString builders contents prefixLength escapes builder value first
        here)
      (makeString builders (before ++ contents) prefixLength escapes builder
        value second there) := by
  obtain ⟨string, after⟩ := extractStringContents_moved builders contents
    moved location prefixLength escapes
  rw [makeString, makeString]
  generalize extractStringContents builders contents prefixLength escapes
    first here = one at string after ⊢
  generalize extractStringContents builders (before ++ contents) prefixLength
    escapes second there = two at string after ⊢
  obtain ⟨result, lexer⟩ := one
  obtain ⟨result', lexer'⟩ := two
  simp only at string after
  subst string
  cases result' with
  | error error => exact ⟨.error (.literal location), after⟩
  | ok string => exact ⟨.ok ⟨rfl, location, rfl⟩, after⟩

theorem makeConstrainedName_moved (alike : first.Alike second)
    (location : here.Moved before.length there) (text : List Code) :
    OutcomeMoved before.length
      (makeConstrainedName builders text first here)
      (makeConstrainedName builders text second there) := by
  have query : second.previousToken.any
        (fun token => isQuery token.builder) =
      first.previousToken.any (fun token => isQuery token.builder) := by
    have same := congrArg (fun token => token.any isQuery)
      alike.previousToken
    simpa only [Option.any_map] using same
  rw [makeConstrainedName, makeConstrainedName]
  simp only [query]
  split
  · exact .error .noColonInConstrainedName
  · split
    · exact .ok ⟨rfl, location, rfl⟩
    · split
      · exact .error (.literal location)
      · exact .ok ⟨rfl, location, rfl⟩

/-- The fragment builders, for a moved text. -/
theorem build_moved (builders : Builders) (contents : List Code)
    (moved : first.Moved before.length second)
    (location : here.Moved before.length there) (builder : Builder) :
    BuiltMoved before.length (build builders contents first here builder)
      (build builders (before ++ contents) second there builder) := by
  have text : extractString (before ++ contents) there.startPosn
      there.endPosn = extractString contents here.startPosn here.endPosn :=
    extractString_moved location
  unfold build
  split
  · exact makeHashLiteral_moved moved location
  · have start : (before ++ contents)[there.startPosn]? =
        contents[here.startPosn]? := by
      rw [location.startPosn, List.getElem?_append_right (by omega),
        Nat.add_sub_cancel_left]
    rw [start]
    split
    · exact makeString_moved moved location ..
    · exact makeString_moved moved location ..
  · exact makeString_moved moved location ..
  · rw [text]
    exact ⟨makeConstrainedName_moved moved.alike location _, moved⟩
  · rw [text]
    split
    · exact ⟨.error (.literal location), moved⟩
    · exact ⟨.ok ⟨rfl, location, rfl⟩, moved⟩

end Fragments

/-! ## Tokens -/

section Tokens

variable {builders : Builders} {before contents : List Code}

theorem acceptToken_moved (builders : Builders) (contents : List Code)
    {first second : Scan}
    (moved : first.Moved before.length second)
    (saved : first.endPos.isSome) (builder : Builder) :
    BuiltMoved before.length (acceptToken builders contents first builder)
      (acceptToken builders (before ++ contents) second builder) := by
  have tokenEnd : second.tokenEnd = before.length + first.tokenEnd := by
    obtain ⟨pos, isEnd⟩ := Option.isSome_iff_exists.mp saved
    rw [Scan.tokenEnd, Scan.tokenEnd, moved.endPos, isEnd]
    rfl
  have lexers : first.moved.Moved before.length second.moved :=
    ⟨moved.lexer.place .., tokenEnd⟩
  have location : (first.location first.tokenEnd
      first.moved.lineStartPosition).Moved before.length
        (second.location second.tokenEnd second.moved.lineStartPosition) :=
    ⟨moved.startPos, tokenEnd⟩
  obtain ⟨outcome, after⟩ :=
    build_moved builders contents lexers location builder
  rw [acceptToken, acceptToken]
  generalize build builders contents first.moved _ builder = one
    at outcome after ⊢
  generalize build builders (before ++ contents) second.moved _ builder = two
    at outcome after ⊢
  obtain ⟨result, lexer⟩ := one
  obtain ⟨result', lexer'⟩ := two
  simp only at outcome after
  cases outcome with
  | error moved => exact ⟨.error moved, after⟩
  | ok moved =>
      refine ⟨.ok moved, ⟨after.alike.doubleQuoteStartCount,
        after.alike.doubleQuoteEndCount,
        after.alike.delimitedCommentStartCount,
        after.alike.delimitedCommentEndCount, ?_⟩, after.position⟩
      exact congrArg some moved.builder

/-- What `get-token` returns for a moved text: the outcome, and where that is
a fragment the lexer. -/
def TokenMoved (distance : Nat)
    (one two : Except Condition Fragment × Lexer) : Prop :=
  OutcomeMoved distance one.1 two.1 ∧
    (one.1.isOk → one.2.Moved distance two.2)

theorem finishToken_moved {first second : Scan}
    (moved : first.Moved before.length second) (pos : Nat) :
    TokenMoved before.length (finishToken builders contents pos first)
      (finishToken builders (before ++ contents) (before.length + pos)
        second) := by
  rw [finishToken, finishToken, moved.builder]
  cases found : first.builder with
  | some builder =>
      have saved := moved.saved (by rw [found]; rfl)
      have built := acceptToken_moved builders contents moved saved builder
      exact ⟨built.1, fun _ => built.2⟩
  | none =>
      have length : second.startPos ≥ (before ++ contents).length ↔
          first.startPos ≥ contents.length := by
        rw [moved.startPos, List.length_append]
        omega
      simp only [length]
      split
      · have saved := moved.saveAcceptingState first.startPos .eofMarker
        rw [← moved.startPos] at saved
        have built := acceptToken_moved builders contents saved rfl .eofMarker
        exact ⟨built.1, fun _ => built.2⟩
      · exact ⟨.error (.invalidToken ⟨moved.startPos, rfl⟩),
          fun isOk => by cases isOk⟩

theorem takeToken_moved {one two : Stopped}
    (moved : one.Moved before.length two) :
    TokenMoved before.length (takeToken builders contents one)
      (takeToken builders (before ++ contents) two) := by
  cases moved with
  | jammed moved => exact finishToken_moved moved _
  | failed moved =>
      exact ⟨.error .noPreviousAcceptingState, fun isOk => by cases isOk⟩
  | @accepted first second moved =>
      have pos : second.endPos.getD second.startPos =
          before.length + first.endPos.getD first.startPos := by
        rw [moved.endPos, moved.startPos]
        cases first.endPos <;> rfl
      rw [takeToken, takeToken, pos]
      exact finishToken_moved moved _

/-- A token of a moved text. -/
theorem getToken_moved {first second : Lexer}
    (moved : first.Moved before.length second) :
    TokenMoved before.length (getToken builders contents first)
      (getToken builders (before ++ contents) second) := by
  apply takeToken_moved
  rw [scanToken, scanToken, moved.position, drop_append_length]
  apply advance_moved
  exact ⟨moved.alike, moved.position, rfl, rfl, fun isSome => by cases isSome⟩

end Tokens

end OpenDylan.Compiler.Lexer
