import OpenDylan.Compiler.Lexer

/-!
# Line numbers in the lexer

The lexer keeps the number of the line it is in and the position at which that
line starts.  Whitespace, comments, strings and the recovery from errors all
pass newlines.  While a token is read, the two numbers belong to the position
of the machine, and the ones saved with an accepting state belong to its
position.

The data of a hash literal is read outside of the machine: a newline in it sets
the start of the line to the newline itself, and when the data has no end its
newlines are counted although the lexer does not move.
-/

namespace OpenDylan.Compiler.Lexer

/-! ## Lines of a text -/

/-- The index just after the last newline of a text. -/
def lineStart (text : List Code) : Nat :=
  text.length - (text.reverse.takeWhile fun code => code ≠ 10).length

/-- A line number and the start of the line belong to a position. -/
def LineAt (contents : List Code) (position lineNumber start : Nat) : Prop :=
  lineNumber = 1 + (contents.take position).count 10 ∧
    start = lineStart (contents.take position)

/-- The lines of a lexer belong to its position. -/
def Lexer.InLine (contents : List Code) (lexer : Lexer) : Prop :=
  lexer.position ≤ contents.length ∧
    LineAt contents lexer.position lexer.lineNumber lexer.lineStartPosition

theorem lineStart_newline (text : List Code) :
    lineStart (text ++ [10]) = text.length + 1 := by
  simp [lineStart]

theorem lineStart_other (text : List Code) {code : Code} (other : code ≠ 10) :
    lineStart (text ++ [code]) = lineStart text := by
  simp [lineStart, other]

theorem take_succ_of_drop {contents rest : List Code} {code : Code}
    {pos : Nat} (shape : contents.drop pos = code :: rest) :
    contents.take (pos + 1) = contents.take pos ++ [code] := by
  have bound : pos < contents.length := by
    have length := congrArg List.length shape
    rw [List.length_drop, List.length_cons] at length
    omega
  rw [List.drop_eq_getElem_cons bound] at shape
  rw [List.take_succ_eq_append_getElem bound, (List.cons.inj shape).1]

theorem drop_succ_of_drop {contents rest : List Code} {code : Code}
    {pos : Nat} (shape : contents.drop pos = code :: rest) :
    contents.drop (pos + 1) = rest := by
  rw [← List.drop_drop, shape, List.drop_succ_cons, List.drop_zero]

theorem lt_length_of_drop {contents rest : List Code} {code : Code}
    {pos : Nat} (shape : contents.drop pos = code :: rest) :
    pos < contents.length := by
  have length := congrArg List.length shape
  rw [List.length_drop, List.length_cons] at length
  omega

/-- Passing a newline. -/
theorem LineAt.newline {contents rest : List Code} {pos line start : Nat}
    (lineAt : LineAt contents pos line start)
    (shape : contents.drop pos = 10 :: rest) :
    LineAt contents (pos + 1) (line + 1) (pos + 1) := by
  have bound := lt_length_of_drop shape
  rw [LineAt, take_succ_of_drop shape, lineStart_newline,
    List.length_take_of_le (Nat.le_of_lt bound), List.count_append,
    lineAt.1]
  exact ⟨by simp [Nat.add_assoc], rfl⟩

/-- Passing another character. -/
theorem LineAt.other {contents rest : List Code} {code : Code}
    {pos line start : Nat} (lineAt : LineAt contents pos line start)
    (shape : contents.drop pos = code :: rest) (other : code ≠ 10) :
    LineAt contents (pos + 1) line start := by
  rw [LineAt, take_succ_of_drop shape, lineStart_other _ other,
    List.count_append, lineAt.1, lineAt.2]
  have none : List.count 10 [code] = 0 := by
    rw [List.count_eq_zero]
    exact fun member => other (List.mem_singleton.mp member).symm
  rw [none]
  exact ⟨rfl, rfl⟩

/-! ## The machine -/

/-- Two lexers differ at most in their counts. -/
structure Lexer.SamePlace (first second : Lexer) : Prop where
  position : second.position = first.position
  lineNumber : second.lineNumber = first.lineNumber
  lineStartPosition : second.lineStartPosition = first.lineStartPosition
  previousToken : second.previousToken = first.previousToken

theorem Lexer.SamePlace.refl (lexer : Lexer) : lexer.SamePlace lexer :=
  ⟨rfl, rfl, rfl, rfl⟩

theorem Lexer.SamePlace.trans {first second third : Lexer}
    (here : first.SamePlace second) (there : second.SamePlace third) :
    first.SamePlace third :=
  ⟨there.position.trans here.position, there.lineNumber.trans here.lineNumber,
    there.lineStartPosition.trans here.lineStartPosition,
    there.previousToken.trans here.previousToken⟩

/-- The actions only count. -/
theorem doStateAction_samePlace (lexer : Lexer) (name : StateName) :
    lexer.SamePlace (doStateAction lexer name).2 := by
  rw [doStateAction]
  cases (machine name).action with
  | none => exact Lexer.SamePlace.refl lexer
  | some action =>
      have counted : lexer.SamePlace (action.run lexer).2 := by
        cases action <;> exact ⟨rfl, rfl, rfl, rfl⟩
      simp only
      split <;> exact counted

/-- What entering a state can do to the local variables. -/
inductive Entered (pos : Nat) (scan : Scan) : Next → Prop where
  | kept {name : StateName} {lexer : Lexer}
      (same : scan.lexer.SamePlace lexer) :
      Entered pos scan (.advance name { scan with lexer := lexer })
  | cleared {name : StateName} {lexer : Lexer}
      (same : scan.lexer.SamePlace lexer) :
      Entered pos scan
        (.advance name { scan with lexer := lexer }.clearPrevious)
  | startedOver {lexer : Lexer} (same : scan.lexer.SamePlace lexer) :
      Entered pos scan
        (.advance .start ({ scan with lexer := lexer }.startOver pos))
  | saved {name : StateName} {lexer : Lexer} {builder : Builder}
      (same : scan.lexer.SamePlace lexer) :
      Entered pos scan (.advance name
        ({ scan with lexer := lexer }.saveAcceptingState pos builder))
  | accepted {lexer : Lexer} {builder : Builder}
      (same : scan.lexer.SamePlace lexer) :
      Entered pos scan (.stop
        ({ scan with lexer := lexer }.saveAcceptingState pos builder))
  | previous {lexer : Lexer} (same : scan.lexer.SamePlace lexer) :
      Entered pos scan (.stop { scan with lexer := lexer })
  | failed {lexer : Lexer} (same : scan.lexer.SamePlace lexer) :
      Entered pos scan (.failed { scan with lexer := lexer })

theorem enter_entered (name : StateName) (pos : Nat) (scan : Scan) :
    Entered pos scan (enter name pos scan) := by
  have same := doStateAction_samePlace scan.lexer name
  rw [enter]
  generalize doStateAction scan.lexer name = answer at same ⊢
  obtain ⟨acceptable, lexer⟩ := answer
  simp only
  split
  · exact Entered.cleared same
  · exact Entered.kept same
  · exact Entered.kept same
  · exact Entered.startedOver same
  · exact Entered.startedOver (same.trans ⟨rfl, rfl, rfl, rfl⟩)
  · exact Entered.saved same
  · split
    · exact Entered.previous same
    · exact Entered.failed same
  · exact Entered.accepted same

/-- The lines that are known while a token is read at a position of a source:
those of the position, and those that were saved. -/
structure Scan.InLine (contents : List Code) (lexer : Lexer) (pos : Nat)
    (scan : Scan) : Prop where
  same : lexer.SamePlace scan.lexer
  start : scan.startPos ≤ pos
  current : LineAt contents pos scan.currentLineNumber
    scan.currentLineStartPos
  saved : scan.builder.isSome → ∃ endPos line start,
    scan.endPos = some endPos ∧ scan.endLineNumber = some line ∧
      scan.endLineStartPos = some start ∧ endPos ≤ contents.length ∧
      LineAt contents endPos line start

/-- The local variables at the end of the machine. -/
def Stopped.last : Stopped → Scan
  | .jammed _ scan => scan
  | .accepted scan => scan
  | .failed scan => scan

/-- The local variables that a state goes on with. -/
def Next.last : Next → Scan
  | .advance _ scan => scan
  | .stop scan => scan
  | .failed scan => scan

section Machine

variable {contents : List Code} {lexer : Lexer} {pos : Nat} {scan : Scan}

/-- Saving an accepting state saves the lines of its position. -/
theorem Scan.InLine.save (inLine : scan.InLine contents lexer pos)
    (bound : pos ≤ contents.length) {other : Lexer}
    (same : scan.lexer.SamePlace other) (builder : Builder) :
    ({ scan with lexer := other }.saveAcceptingState pos builder).InLine
      contents lexer pos where
  same := inLine.same.trans same
  start := inLine.start
  current := inLine.current
  saved _ := ⟨pos, _, _, rfl, rfl, rfl, bound, inLine.current⟩

/-- Entering a state keeps the lines. -/
theorem Scan.InLine.enter (inLine : scan.InLine contents lexer pos)
    (bound : pos ≤ contents.length) {next : Next}
    (entered : Entered pos scan next) :
    next.last.InLine contents lexer pos := by
  cases entered with
  | kept same =>
      exact ⟨inLine.same.trans same, inLine.start, inLine.current,
        inLine.saved⟩
  | cleared same =>
      refine ⟨inLine.same.trans same, inLine.start, inLine.current, ?_⟩
      intro isSome
      cases isSome
  | startedOver same =>
      refine ⟨inLine.same.trans same, Nat.le_refl _, inLine.current, ?_⟩
      intro isSome
      cases isSome
  | saved same => exact inLine.save bound same _
  | accepted same => exact inLine.save bound same _
  | previous same =>
      exact ⟨inLine.same.trans same, inLine.start, inLine.current,
        inLine.saved⟩
  | failed same =>
      exact ⟨inLine.same.trans same, inLine.start, inLine.current,
        inLine.saved⟩

/-- Reading a character keeps the lines. -/
theorem Scan.InLine.readCode (inLine : scan.InLine contents lexer pos)
    {code : Code} {rest : List Code}
    (shape : contents.drop pos = code :: rest) :
    (scan.readCode code pos).InLine contents lexer (pos + 1) := by
  rw [Scan.readCode]
  split
  · next newline =>
      subst newline
      exact ⟨inLine.same, Nat.le_succ_of_le inLine.start,
        inLine.current.newline shape, inLine.saved⟩
  · next other =>
      exact ⟨inLine.same, Nat.le_succ_of_le inLine.start,
        inLine.current.other shape other, inLine.saved⟩

/-- What is known when the machine has come to an end: a saved state has its
lines, and where there is none the source may be at its end. -/
structure Scan.Ended (contents : List Code) (lexer : Lexer) (scan : Scan) :
    Prop where
  same : lexer.SamePlace scan.lexer
  saved : scan.builder.isSome → ∃ endPos line start,
    scan.endPos = some endPos ∧ scan.endLineNumber = some line ∧
      scan.endLineStartPos = some start ∧ endPos ≤ contents.length ∧
      LineAt contents endPos line start
  atEnd : scan.builder = none → scan.startPos ≥ contents.length →
    scan.startPos = contents.length ∧
      LineAt contents contents.length scan.currentLineNumber
        scan.currentLineStartPos

theorem Scan.InLine.ended (inLine : scan.InLine contents lexer pos)
    (bound : pos ≤ contents.length) : scan.Ended contents lexer where
  same := inLine.same
  saved := inLine.saved
  atEnd _ late := by
    have start := inLine.start
    have finished : pos = contents.length := by omega
    subst finished
    exact ⟨Nat.le_antisymm start late, inLine.current⟩

theorem Scan.readCode_startPos (scan : Scan) (code : Code) (pos : Nat) :
    (scan.readCode code pos).startPos = scan.startPos := by
  rw [Scan.readCode]
  split <;> rfl

/-- The lines at the end of the machine. -/
theorem advance_ended {rest : List Code} {name : StateName}
    (inLine : scan.InLine contents lexer pos)
    (shape : contents.drop pos = rest) (bound : pos ≤ contents.length) :
    (advance rest name pos scan).last.Ended contents lexer := by
  induction rest generalizing name pos scan with
  | nil => exact inLine.ended bound
  | cons code rest ih =>
      have inside := lt_length_of_drop shape
      rw [advance]
      split
      · exact inLine.ended bound
      · have read := inLine.readCode shape
        split
        · -- The character that the machine jams at is counted, but then the
          -- source is not at its end.
          refine ⟨read.same, read.saved, fun _ late => ?_⟩
          have start := inLine.start
          simp only [Stopped.last, Scan.readCode_startPos] at late
          omega
        · next new _ =>
            have kept := read.enter inside (enter_entered new (pos + 1) _)
            split
            · next entered =>
                rw [entered] at kept
                exact ih kept (drop_succ_of_drop shape) inside
            · next entered =>
                rw [entered] at kept
                exact kept.ended inside
            · next entered =>
                rw [entered] at kept
                exact kept.ended inside

end Machine

/-! ## Hash literals -/

/-- The characters of the data of a hash literal: up to the end delimiter, or
all when there is none. -/
def passed (delimiter : Code) : List Code → Code → List Code
  | [], _ => []
  | char :: rest, prevChar =>
      if char = delimiter ∧ prevChar ≠ escapeCode then
        []
      else
        char :: passed delimiter rest char

/-- There are delimited data at a position, with a newline in them. -/
def multiLineData (contents : List Code) (dataStart : Nat) : Bool :=
  match contents.drop dataStart with
  | [] => false
  | delimiter :: rest =>
      match endDelimiter delimiter with
      | some finish => 10 ∈ passed finish rest 0
      | none => false

section HashLiterals

variable {contents rest : List Code} {delimiter : Code} {i : Nat}
  {prevChar : Code} {lexer : Lexer}

/-- The end delimiter is found after the data. -/
theorem findEndDelimiter_found {found : Nat}
    (isFound : (findEndDelimiter delimiter rest i prevChar lexer).1 =
      some found) (shape : contents.drop i = rest) :
    ∃ later, contents.drop found = delimiter :: later := by
  induction rest generalizing i prevChar lexer with
  | nil => cases isFound
  | cons char rest ih =>
      rw [findEndDelimiter] at isFound
      split at isFound
      · next here =>
          cases isFound
          rw [← here.1]
          exact ⟨rest, shape⟩
      · split at isFound
        · exact ih isFound (drop_succ_of_drop shape)
        · exact ih isFound (drop_succ_of_drop shape)

/-- Data on one line do not change the lexer. -/
theorem findEndDelimiter_oneLine
    (oneLine : 10 ∉ passed delimiter rest prevChar) :
    (findEndDelimiter delimiter rest i prevChar lexer).2 = lexer := by
  induction rest generalizing i prevChar with
  | nil => rfl
  | cons char rest ih =>
      rw [passed] at oneLine
      rw [findEndDelimiter]
      split
      · rfl
      · next other =>
          rw [if_neg other, List.mem_cons, not_or] at oneLine
          rw [if_neg (Ne.symm oneLine.1)]
          exact ih oneLine.2

/-- The line of the data is that of the end delimiter when no newline is
passed. -/
theorem findEndDelimiter_lineAt {found line start : Nat}
    (isFound : (findEndDelimiter delimiter rest i prevChar lexer).1 =
      some found) (shape : contents.drop i = rest)
    (oneLine : 10 ∉ passed delimiter rest prevChar)
    (lineAt : LineAt contents i line start) :
    LineAt contents found line start := by
  induction rest generalizing i prevChar lexer with
  | nil => cases isFound
  | cons char rest ih =>
      rw [passed] at oneLine
      rw [findEndDelimiter] at isFound
      split at isFound
      · cases isFound
        exact lineAt
      · next other =>
          rw [if_neg other, List.mem_cons, not_or] at oneLine
          rw [if_neg (Ne.symm oneLine.1)] at isFound
          exact ih isFound (drop_succ_of_drop shape) oneLine.2
            (lineAt.other shape (Ne.symm oneLine.1))

/-- Once a newline has been passed, the start of the line stays one too
small. -/
theorem findEndDelimiter_behind {found : Nat}
    (isFound : (findEndDelimiter delimiter rest i prevChar lexer).1 =
      some found) (shape : contents.drop i = rest)
    (behind : lexer.lineStartPosition + 1 = lineStart (contents.take i)) :
    (findEndDelimiter delimiter rest i prevChar lexer).2.lineStartPosition +
      1 = lineStart (contents.take found) := by
  induction rest generalizing i prevChar lexer with
  | nil => cases isFound
  | cons char rest ih =>
      have bound := lt_length_of_drop shape
      rw [findEndDelimiter] at isFound ⊢
      split
      · next here =>
          rw [if_pos here] at isFound
          cases isFound
          exact behind
      · next other =>
          rw [if_neg other] at isFound
          split
          · next newline =>
              rw [if_pos newline] at isFound
              apply ih isFound (drop_succ_of_drop shape)
              rw [take_succ_of_drop shape, newline, lineStart_newline,
                List.length_take_of_le (Nat.le_of_lt bound)]
          · next different =>
              rw [if_neg different] at isFound
              apply ih isFound (drop_succ_of_drop shape)
              rw [take_succ_of_drop shape, lineStart_other _ different]
              exact behind

/-- A newline in the data leaves the start of the line one too small. -/
theorem findEndDelimiter_multiLine {found : Nat}
    (isFound : (findEndDelimiter delimiter rest i prevChar lexer).1 =
      some found) (shape : contents.drop i = rest)
    (multiLine : 10 ∈ passed delimiter rest prevChar) :
    (findEndDelimiter delimiter rest i prevChar lexer).2.lineStartPosition +
      1 = lineStart (contents.take found) := by
  induction rest generalizing i prevChar lexer with
  | nil => cases isFound
  | cons char rest ih =>
      have bound := lt_length_of_drop shape
      rw [passed] at multiLine
      rw [findEndDelimiter] at isFound ⊢
      split
      · next here =>
          rw [if_pos here] at multiLine
          cases multiLine
      · next other =>
          rw [if_neg other] at isFound multiLine
          split
          · next newline =>
              rw [if_pos newline] at isFound
              apply findEndDelimiter_behind isFound (drop_succ_of_drop shape)
              rw [take_succ_of_drop shape, newline, lineStart_newline,
                List.length_take_of_le (Nat.le_of_lt bound)]
          · next different =>
              rw [if_neg different] at isFound
              apply ih isFound (drop_succ_of_drop shape)
              exact (List.mem_cons.mp multiLine).resolve_left
                (Ne.symm different)

/-- Newlines are counted whether the data have an end or not. -/
theorem findEndDelimiter_lineNumber_le :
    lexer.lineNumber ≤
      (findEndDelimiter delimiter rest i prevChar lexer).2.lineNumber := by
  induction rest generalizing i prevChar lexer with
  | nil => exact Nat.le_refl _
  | cons char rest ih =>
      rw [findEndDelimiter]
      split
      · exact Nat.le_refl _
      · split
        · refine Nat.le_trans ?_ ih
          exact Nat.le_succ _
        · exact ih

theorem findEndDelimiter_lineNumber_lt
    (multiLine : 10 ∈ passed delimiter rest prevChar) :
    lexer.lineNumber <
      (findEndDelimiter delimiter rest i prevChar lexer).2.lineNumber := by
  induction rest generalizing i prevChar lexer with
  | nil => cases multiLine
  | cons char rest ih =>
      rw [passed] at multiLine
      rw [findEndDelimiter]
      split
      · next here =>
          rw [if_pos here] at multiLine
          cases multiLine
      · next other =>
          rw [if_neg other] at multiLine
          split
          · refine Nat.lt_of_lt_of_le ?_ findEndDelimiter_lineNumber_le
            exact Nat.lt_succ_self _
          · next different =>
              exact ih ((List.mem_cons.mp multiLine).resolve_left
                (Ne.symm different))

theorem findEndDelimiter_position :
    (findEndDelimiter delimiter rest i prevChar lexer).2.position =
      lexer.position := by
  induction rest generalizing i prevChar lexer with
  | nil => rfl
  | cons char rest ih =>
      rw [findEndDelimiter]
      split
      · rfl
      · split
        · rw [ih]
        · rw [ih]

end HashLiterals

theorem endDelimiter_ne_newline :
    ∀ code finish : Code, endDelimiter code = some finish → finish ≠ 10 := by
  intro code finish isEnd newline
  subst newline
  have none : ∀ code : Code, endDelimiter code ≠ some 10 := by
    decide +kernel
  exact none code isEnd

/-- Passing text without a newline. -/
theorem LineAt.skip {contents text rest : List Code} {pos line start : Nat}
    (lineAt : LineAt contents pos line start)
    (shape : contents.drop pos = text ++ rest) (oneLine : 10 ∉ text) :
    LineAt contents (pos + text.length) line start := by
  induction text generalizing pos with
  | nil => exact lineAt
  | cons code text ih =>
      rw [List.mem_cons, not_or] at oneLine
      have next := lineAt.other shape (Ne.symm oneLine.1)
      have later := ih next (drop_succ_of_drop shape) oneLine.2
      rwa [List.length_cons, ← Nat.add_assoc, Nat.add_right_comm]

section Builders

variable {builders : Builders} {contents : List Code} {lexer : Lexer}
  {location : SourceLocation}

/-- A hash literal with its data on one line. -/
theorem makeHashLiteral_inLine (inLine : lexer.InLine contents)
    (oneLine : multiLineData contents lexer.position = false) :
    (makeHashLiteral contents lexer location).2.InLine contents := by
  rw [multiLineData] at oneLine
  rw [makeHashLiteral]
  split
  · exact inLine
  · next delimiter rest shape =>
      have tail := drop_succ_of_drop shape
      simp only [shape] at oneLine
      split
      · next finish isEnd =>
          simp only [isEnd, decide_eq_false_iff_not] at oneLine
          have notNewline : delimiter ≠ 10 := by
            rintro rfl
            have none : endDelimiter 10 = none := by decide
            rw [none] at isEnd
            cases isEnd
          have unchanged : (findEndDelimiter finish rest
              (lexer.position + 1) 0 lexer).2 = lexer :=
            findEndDelimiter_oneLine oneLine
          split
          · next i after found =>
              rw [found] at unchanged
              subst unchanged
              have isFound : (findEndDelimiter finish rest
                  (after.position + 1) 0 after).1 = some i := by
                rw [found]
              obtain ⟨later, atEnd⟩ := findEndDelimiter_found isFound tail
              refine ⟨lt_length_of_drop atEnd, ?_⟩
              apply LineAt.other _ atEnd (endDelimiter_ne_newline _ _ isEnd)
              exact findEndDelimiter_lineAt isFound tail oneLine
                (inLine.2.other shape notNewline)
          · next after missing =>
              rw [missing] at unchanged
              subst unchanged
              exact inLine
      · rw [← shape]
        have text : (contents.drop lexer.position).takeWhile
            (fun char => !delimiterCode char) ++ _ =
              contents.drop lexer.position :=
          List.takeWhile_append_dropWhile
        have noNewline : 10 ∉ (contents.drop lexer.position).takeWhile
            fun char => !delimiterCode char := by
          intro member
          have inData := List.all_eq_true.mp List.all_takeWhile 10 member
          have isDelimiter : delimiterCode 10 = true := by decide
          rw [isDelimiter] at inData
          cases inData
        refine ⟨?_, inLine.2.skip text.symm noNewline⟩
        have length := congrArg List.length text
        rw [List.length_append, List.length_drop] at length
        have bound := inLine.1
        simp only
        omega

/-- A hash literal with a newline in its data. -/
theorem makeHashLiteral_not_inLine (inLine : lexer.InLine contents)
    (multiLine : multiLineData contents lexer.position = true) :
    ¬(makeHashLiteral contents lexer location).2.InLine contents := by
  intro still
  rw [multiLineData] at multiLine
  rw [makeHashLiteral] at still
  split at multiLine
  · cases multiLine
  · next delimiter rest shape =>
      have tail := drop_succ_of_drop shape
      split at multiLine
      · next finish isEnd =>
          rw [decide_eq_true_iff] at multiLine
          simp only [shape, isEnd] at still
          split at still
          · next i after found =>
              have isFound : (findEndDelimiter finish rest
                  (lexer.position + 1) 0 lexer).1 = some i := by
                rw [found]
              have behind := findEndDelimiter_multiLine isFound tail multiLine
              obtain ⟨later, atEnd⟩ := findEndDelimiter_found isFound tail
              have start := still.2.2
              simp only at start
              rw [take_succ_of_drop atEnd, lineStart_other _
                (endDelimiter_ne_newline _ _ isEnd)] at start
              rw [found] at behind
              simp only at behind
              omega
          · next after missing =>
              have more : lexer.lineNumber < (findEndDelimiter finish rest
                  (lexer.position + 1) 0 lexer).2.lineNumber :=
                findEndDelimiter_lineNumber_lt multiLine
              have unmoved : (findEndDelimiter finish rest
                  (lexer.position + 1) 0 lexer).2.position = lexer.position :=
                findEndDelimiter_position
              rw [missing] at more unmoved
              have first := inLine.2.1
              have second := still.2.1
              simp only at unmoved more second
              rw [unmoved] at second
              omega
      · cases multiLine

/-- The other builders do not move the lexer. -/
theorem build_samePlace {builder : Builder}
    (other : builder ≠ .makeHashLiteral) :
    lexer.SamePlace (build builders contents lexer location builder).2 := by
  have string : ∀ prefixLength escapes builder value, lexer.SamePlace
      (makeString builders contents prefixLength escapes builder value lexer
        location).2 := by
    intro prefixLength escapes builder value
    have extracted : lexer.SamePlace (extractStringContents builders contents
        prefixLength escapes lexer location).2 := by
      rw [extractStringContents]
      split <;> exact ⟨rfl, rfl, rfl, rfl⟩
    rw [makeString]
    split
    · next same =>
        rw [same] at extracted
        exact extracted
    · next same =>
        rw [same] at extracted
        exact extracted
  unfold build
  split
  · exact absurd rfl other
  · split
    · exact string ..
    · exact string ..
  · exact string ..
  · exact Lexer.SamePlace.refl lexer
  · split
    · exact Lexer.SamePlace.refl lexer
    · exact Lexer.SamePlace.refl lexer

theorem Lexer.InLine.of_samePlace {other : Lexer}
    (inLine : lexer.InLine contents) (same : lexer.SamePlace other) :
    other.InLine contents := by
  rw [Lexer.InLine, same.position, same.lineNumber, same.lineStartPosition]
  exact inLine

end Builders

/-! ## Tokens -/

/-- The next token is a hash literal with a newline in its data. -/
def Lexer.readsMultiLineData (contents : List Code) (lexer : Lexer) : Bool :=
  match scanToken contents lexer with
  | .failed _ => false
  | .jammed _ scan | .accepted scan =>
      scan.builder == some .makeHashLiteral &&
        multiLineData contents scan.tokenEnd

section Tokens

variable {builders : Builders} {contents : List Code} {lexer : Lexer}

theorem recordPrevious_inLine
    (built : Except Condition Fragment × Lexer) :
    (recordPrevious built).2.InLine contents ↔ built.2.InLine contents := by
  obtain ⟨outcome, after⟩ := built
  cases outcome <;> exact Iff.rfl

/-- A fragment is made with the lines at the end of its token. -/
theorem acceptToken_inLine {scan : Scan} {builder : Builder}
    (inLine : scan.moved.InLine contents) :
    (acceptToken builders contents scan builder).2.InLine contents ↔
      ¬(builder = .makeHashLiteral ∧ multiLineData contents scan.tokenEnd) := by
  rw [acceptToken, recordPrevious_inLine]
  by_cases hash : builder = .makeHashLiteral
  · subst hash
    rw [build]
    by_cases multiLine : multiLineData contents scan.tokenEnd
    · constructor
      · exact fun still =>
          absurd still (makeHashLiteral_not_inLine inLine multiLine)
      · exact fun other => absurd ⟨rfl, multiLine⟩ other
    · constructor
      · exact fun _ both => multiLine both.2
      · exact fun _ =>
          makeHashLiteral_inLine inLine (Bool.eq_false_iff.mpr multiLine)
  · constructor
    · exact fun _ both => hash both.1
    · exact fun _ => inLine.of_samePlace (build_samePlace hash)

/-- A token keeps the lines exactly when it is no hash literal with a newline
in its data. -/
theorem getToken_inLine (inLine : lexer.InLine contents) :
    (getToken builders contents lexer).2.InLine contents ↔
      lexer.readsMultiLineData contents = false := by
  have begun : (Scan.begin lexer).InLine contents lexer lexer.position :=
    ⟨Lexer.SamePlace.refl lexer, Nat.le_refl _, inLine.2,
      fun isSome => by cases isSome⟩
  have ended : (scanToken contents lexer).last.Ended contents lexer :=
    advance_ended begun rfl inLine.1
  have finish : ∀ pos scan, scan.Ended contents lexer →
      ((finishToken builders contents pos scan).2.InLine contents ↔
        (scan.builder == some .makeHashLiteral &&
          multiLineData contents scan.tokenEnd) =
            false) := by
    intro pos scan ended
    rw [finishToken]
    cases found : scan.builder with
    | none =>
        simp only
        split
        · next late =>
            obtain ⟨start, lineAt⟩ := ended.atEnd found late
            have atEnd : (scan.saveAcceptingState scan.startPos
                .eofMarker).moved.InLine contents :=
              ⟨Nat.le_of_eq start, start ▸ lineAt⟩
            rw [acceptToken_inLine atEnd]
            simp
        · have unmoved := inLine.of_samePlace ended.same
          exact ⟨fun _ => rfl, fun _ => unmoved⟩
    | some builder =>
        obtain ⟨endPos, line, start, atEnd, atLine, atStart, bound, lineAt⟩ :=
          ended.saved (by rw [found]; rfl)
        have inLine : scan.moved.InLine contents := by
          simp only [Lexer.InLine, Scan.moved, Scan.tokenEnd, atEnd, atLine,
            atStart, Option.getD_some]
          exact ⟨bound, lineAt⟩
        simp only
        rw [acceptToken_inLine inLine]
        simp
  rw [getToken, Lexer.readsMultiLineData]
  cases scanned : scanToken contents lexer with
  | jammed pos scan =>
      rw [scanned] at ended
      exact finish pos scan ended
  | accepted scan =>
      rw [scanned] at ended
      exact finish _ scan ended
  | failed scan =>
      rw [scanned] at ended
      exact ⟨fun _ => rfl, fun _ => inLine.of_samePlace ended.same⟩

/-- The recovery keeps the lines. -/
theorem walk_inLine {rest : List Code} {i : Nat}
    (shape : contents.drop i = rest) (bound : i ≤ contents.length)
    (lineAt : LineAt contents i lexer.lineNumber lexer.lineStartPosition) :
    (walk rest i lexer).InLine contents := by
  induction rest generalizing i lexer with
  | nil => exact ⟨bound, lineAt⟩
  | cons code rest ih =>
      have inside := lt_length_of_drop shape
      have tail := drop_succ_of_drop shape
      rw [walk]
      split
      · next newline =>
          subst newline
          have next := lineAt.newline shape
          simp only
          split
          · exact ⟨inside, next⟩
          · exact ih tail inside next
      · next other => exact ih tail inside (lineAt.other shape other)

end Tokens

/-! ## Whole runs -/

/-- The lexers that a sequence of calls leads to; `allowed` may rule some calls
of `get-token` out. -/
inductive Reached (builders : Builders) (contents : List Code)
    (allowed : Lexer → Prop) : Lexer → Prop where
  | made : Reached builders contents allowed (Lexer.make 0 1 0)
  | getToken {lexer : Lexer} (earlier : Reached builders contents allowed lexer)
      (permitted : allowed lexer) :
      Reached builders contents allowed (getToken builders contents lexer).2
  | skip {lexer : Lexer} (earlier : Reached builders contents allowed lexer) :
      Reached builders contents allowed
        (skipToNextTopLevelForm contents lexer)

/-- The lines of a lexer, after any calls none of which reads a hash literal
with a newline in its data; such a call always puts them wrong. -/
theorem lexer_line_bookkeeping (builders : Builders) (contents : List Code) :
    (∀ lexer, Reached builders contents
        (fun lexer => lexer.readsMultiLineData contents = false) lexer →
      lexer.lineNumber = 1 + (contents.take lexer.position).count 10 ∧
        lexer.lineStartPosition =
          lineStart (contents.take lexer.position)) ∧
    ∀ lexer, Reached builders contents
        (fun lexer => lexer.readsMultiLineData contents = false) lexer →
      lexer.readsMultiLineData contents = true →
        ¬((getToken builders contents lexer).2.InLine contents) := by
  have kept : ∀ lexer, Reached builders contents
      (fun lexer => lexer.readsMultiLineData contents = false) lexer →
        lexer.InLine contents := by
    intro lexer reached
    induction reached with
    | made => exact ⟨Nat.zero_le _, by rw [LineAt]; exact ⟨rfl, rfl⟩⟩
    | getToken _ permitted ih => exact (getToken_inLine ih).mpr permitted
    | skip _ ih => exact walk_inLine rfl ih.1 ih.2
  refine ⟨fun lexer reached => (kept lexer reached).2, ?_⟩
  intro lexer reached multiLine still
  rw [getToken_inLine (kept lexer reached), multiLine] at still
  cases still

/-- A source text. -/
def codes (text : String) : List Code :=
  text.toList.map fun char => Fin.ofNat 256 char.toNat

/-- Fragments that keep the text of their token, and strings without
escapes. -/
def plainBuilders : Builders where
  read _ text := .ok (.name text)
  decodeString text _ := .ok text

/-- Two tokens on two lines. -/
theorem lexer_line_bookkeeping_second_line :
    ∃ lexer, Reached plainBuilders (codes "a\n b") (fun lexer =>
        lexer.readsMultiLineData (codes "a\n b") = false) lexer ∧
      lexer.position = 4 ∧ lexer.lineNumber = 2 ∧
        lexer.lineStartPosition = 2 := by
  have first : Reached plainBuilders (codes "a\n b") (fun lexer =>
      lexer.readsMultiLineData (codes "a\n b") = false) _ :=
    Reached.getToken Reached.made (by decide)
  have second := Reached.getToken first (by decide)
  have lines := (lexer_line_bookkeeping plainBuilders (codes "a\n b")).1 _
    second
  exact ⟨_, second, by decide, lines.1.trans (by decide),
    lines.2.trans (by decide)⟩

/-- After a hash literal with a newline in its data the start of the line is
the newline itself. -/
theorem lexer_line_bookkeeping_fails :
    ∃ lexer, Reached plainBuilders (codes "#:a:[\n]") (fun _ => True) lexer ∧
      lexer.lineStartPosition ≠
        lineStart ((codes "#:a:[\n]").take lexer.position) :=
  ⟨_, Reached.getToken Reached.made trivial, by decide⟩

end OpenDylan.Compiler.Lexer
