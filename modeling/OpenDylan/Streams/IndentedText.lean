import OpenDylan.Streams.IndentingStreamWriting

/-!
# Indented text

A text is a sequence of lines, each with blanks, a body that does not start
with a blank, and perhaps a newline.  What an indenting stream passes on is
the same lines with an indentation in place of the blanks, or without them if
there is no body.
-/

namespace OpenDylan.Streams.Indenting

variable {stream after : IndentingStream}

/-! ## Lines -/

def isBlank (character : Char) : Bool :=
  character = ' ' || character = '\t'

def isNewline (character : Char) : Bool :=
  character = '\n' || character = '\r'

structure Line where
  blanks : List Char
  body : List Char
  newline : Option Char
deriving DecidableEq

def Line.text (line : Line) : List Char :=
  line.blanks ++ line.body ++ line.newline.toList

/-- The line with a character before it. -/
def Line.push (character : Char) (line : Line) : Line :=
  if isBlank character then
    { line with blanks := character :: line.blanks }
  else
    { line with blanks := [], body := character :: (line.blanks ++ line.body) }

/-- The lines of a text; only the last one may have no newline. -/
def linesOf : List Char → List Line
  | [] => []
  | character :: text =>
      if isNewline character then
        ⟨[], [], some character⟩ :: linesOf text
      else
        match linesOf text with
        | [] => [Line.push character ⟨[], [], none⟩]
        | line :: lines => line.push character :: lines

/-- The blanks are blanks, the body starts with none and has no newline. -/
structure Line.WellFormed (line : Line) : Prop where
  blanks : ∀ character ∈ line.blanks, isBlank character = true
  body : ∀ character ∈ line.body, isNewline character = false
  start : ∀ character ∈ line.body.head?, isBlank character = false
  newline : ∀ character ∈ line.newline, isNewline character = true

/-- All lines but the last end with a newline. -/
def Terminated (lines : List Line) : Prop :=
  ∀ line ∈ lines.dropLast, line.newline ≠ none

theorem Line.push_text (character : Char) (line : Line) :
    (line.push character).text = character :: line.text := by
  rw [push]
  split <;> simp [text]

theorem isNewline_of_isBlank {character : Char}
    (blank : isBlank character = true) : isNewline character = false := by
  rw [isBlank, Bool.or_eq_true, decide_eq_true_iff, decide_eq_true_iff] at blank
  rcases blank with rfl | rfl <;> rfl

theorem Line.WellFormed.push {line : Line} (wellFormed : line.WellFormed)
    {character : Char} (inLine : isNewline character = false) :
    (line.push character).WellFormed := by
  rw [Line.push]
  split
  · rename_i blank
    refine ⟨?_, wellFormed.body, wellFormed.start, wellFormed.newline⟩
    exact List.forall_mem_cons.mpr ⟨blank, wellFormed.blanks⟩
  · rename_i solid
    refine ⟨by simp, ?_, by simpa using solid, wellFormed.newline⟩
    intro other member
    rcases List.mem_cons.mp member with rfl | later
    · exact inLine
    rcases List.mem_append.mp later with inBlanks | inBody
    · exact isNewline_of_isBlank (wellFormed.blanks other inBlanks)
    · exact wellFormed.body other inBody

theorem linesOf_text (text : List Char) :
    (linesOf text).flatMap Line.text = text := by
  induction text with
  | nil => rfl
  | cons character text inductionHypothesis =>
      rw [linesOf]
      split
      · rw [List.flatMap_cons, inductionHypothesis]
        rfl
      · cases lines : linesOf text with
        | nil =>
            rw [lines] at inductionHypothesis
            rw [← inductionHypothesis]
            show [Line.push character ⟨[], [], none⟩].flatMap Line.text = _
            rw [List.flatMap_singleton, Line.push_text]
            rfl
        | cons line lines' =>
            rw [lines, List.flatMap_cons] at inductionHypothesis
            rw [List.flatMap_cons, Line.push_text, List.cons_append,
              inductionHypothesis]

theorem linesOf_wellFormed (text : List Char) :
    ∀ line ∈ linesOf text, line.WellFormed := by
  induction text with
  | nil => simp [linesOf]
  | cons character text inductionHypothesis =>
      rw [linesOf]
      split
      · rename_i newline
        intro line member
        rcases List.mem_cons.mp member with rfl | later
        · exact ⟨by simp, by simp, by simp, by simpa using newline⟩
        · exact inductionHypothesis line later
      · rename_i inLine
        rw [Bool.not_eq_true] at inLine
        have blank : (⟨[], [], none⟩ : Line).WellFormed :=
          ⟨by simp, by simp, by simp, by simp⟩
        cases lines : linesOf text with
        | nil =>
            intro line member
            rw [List.mem_singleton.mp member]
            exact blank.push inLine
        | cons first rest =>
            rw [lines] at inductionHypothesis
            intro line member
            rcases List.mem_cons.mp member with rfl | later
            · exact (inductionHypothesis first List.mem_cons_self).push inLine
            · exact inductionHypothesis line (List.mem_cons_of_mem _ later)

theorem Line.push_newline (character : Char) (line : Line) :
    (line.push character).newline = line.newline := by
  rw [push]
  split <;> rfl

theorem linesOf_terminated (text : List Char) : Terminated (linesOf text) := by
  induction text with
  | nil => simp [linesOf, Terminated]
  | cons character text inductionHypothesis =>
      rw [linesOf]
      split
      · cases lines : linesOf text with
        | nil => simp [Terminated]
        | cons first rest =>
            rw [lines] at inductionHypothesis
            intro line member
            rw [List.dropLast_cons_of_ne_nil (by simp)] at member
            rcases List.mem_cons.mp member with rfl | later
            · simp
            · exact inductionHypothesis line later
      · cases lines : linesOf text with
        | nil => simp [Terminated]
        | cons first rest =>
            rw [lines] at inductionHypothesis
            cases rest with
            | nil => simp [Terminated]
            | cons second rest =>
                intro line member
                rw [List.dropLast_cons_of_ne_nil (by simp)] at member
                rcases List.mem_cons.mp member with rfl | later
                · rw [Line.push_newline]
                  apply inductionHypothesis
                  rw [List.dropLast_cons_of_ne_nil (by simp)]
                  exact List.mem_cons_self
                · apply inductionHypothesis
                  rw [List.dropLast_cons_of_ne_nil (by simp)]
                  exact List.mem_cons_of_mem _ later

/-! ## Indenting lines -/

/-- The column after blanks; `none` for a division by zero. -/
def blankColumn (tabWidth : Int) : Int → List Char → Option Int
  | column, [] => some column
  | column, character :: blanks =>
      if character = '\t' then
        (tabColumn column tabWidth).bind fun column =>
          blankColumn tabWidth column blanks
      else
        blankColumn tabWidth (column + 1) blanks

/-- What a line becomes.  In the middle of a line there is no column, and
everything is passed on. -/
def Line.render (stream : IndentingStream) (column : Option Int)
    (line : Line) : List Char :=
  match column.bind fun column =>
      blankColumn stream.isInputTabWidth column line.blanks with
  | none => line.text
  | some column =>
      if line.body = [] then
        line.newline.toList
      else
        (indentText stream.isOutputTabWidth
            (stream.isIndentation + column)).1 ++
          line.body ++ line.newline.toList

/-- The column after a line. -/
def Line.columnAfter (stream : IndentingStream) (column : Option Int)
    (line : Line) : Option Int :=
  if line.newline ≠ none then some 0
  else if line.body ≠ [] then none
  else column.bind fun column =>
    blankColumn stream.isInputTabWidth column line.blanks

/-- What lines become, all but the first from the start of a line. -/
def renderLines (stream : IndentingStream) :
    Option Int → List Line → List Char
  | _, [] => []
  | column, line :: lines =>
      line.render stream column ++
        renderLines stream (line.columnAfter stream column) lines

/-- The column after lines. -/
def columnAfterLines (stream : IndentingStream) :
    Option Int → List Line → Option Int
  | column, [] => column
  | column, line :: lines =>
      columnAfterLines stream (line.columnAfter stream column) lines

/-! ## Writing lines -/

theorem done_injective {first second : IndentingStream}
    (same : done first = done second) : first = second :=
  congrArg Outcome.stream same

theorem writeElements_append_eq_done {front back : List Char}
    (completes : writeElements (front ++ back) stream = done after) :
    ∃ middle, writeElements front stream = done middle ∧
      writeElements back middle = done after := by
  rw [writeElements_append] at completes
  rcases first : writeElements front stream with ⟨middle, error⟩
  rw [first] at completes
  cases error with
  | none => exact ⟨middle, rfl, completes⟩
  | some error =>
      have never := congrArg Outcome.error completes
      cases never

/-- Blanks are counted. -/
theorem writeElements_blanks {blanks : List Char} {column : Int}
    (areBlanks : ∀ character ∈ blanks, isBlank character = true)
    (completes : writeElements blanks (stream.atColumn (some column)) =
      done after) :
    ∃ column', blankColumn stream.isInputTabWidth column blanks =
        some column' ∧
      after = stream.atColumn (some column') := by
  induction blanks generalizing column with
  | nil =>
      cases completes
      exact ⟨column, rfl, rfl⟩
  | cons character blanks inductionHypothesis =>
      have first := areBlanks character List.mem_cons_self
      have later : ∀ other ∈ blanks, isBlank other = true :=
        fun other member => areBlanks other (List.mem_cons_of_mem _ member)
      rw [isBlank, Bool.or_eq_true, decide_eq_true_iff,
        decide_eq_true_iff] at first
      rcases first with rfl | rfl
      · exact inductionHypothesis later completes
      · simp only [writeElements, writeElement, IndentingStream.atColumn]
          at completes
        cases tab : tabColumn column stream.isInputTabWidth with
        | none =>
            simp only [tab] at completes
            have never := congrArg Outcome.error completes
            cases never
        | some column' =>
            simp only [tab] at completes
            rw [blankColumn, if_pos rfl, tab]
            exact inductionHypothesis later completes

/-- In the middle of a line everything is passed on. -/
theorem writeElements_inLine {text : List Char}
    (inLine : ∀ character ∈ text, isNewline character = false)
    (stream : IndentingStream) :
    writeElements text (stream.atColumn none) =
      done ((stream.writeInner text).atColumn none) := by
  induction text generalizing stream with
  | nil => simp [writeElements]
  | cons character text inductionHypothesis =>
      have first := inLine character List.mem_cons_self
      have later : ∀ other ∈ text, isNewline other = false :=
        fun other member => inLine other (List.mem_cons_of_mem _ member)
      have step : writeElement (stream.atColumn none) character =
          done ((stream.writeInner [character]).atColumn none) := by
        rw [isNewline, Bool.or_eq_false_iff, decide_eq_false_iff_not,
          decide_eq_false_iff_not] at first
        simp only [writeElement, IndentingStream.atColumn, first, or_self,
          if_false, done_andThen]
        split
        · rfl
        · split <;> rfl
      rw [writeElements, step, done_andThen, inductionHypothesis later,
        writeInner_writeInner, List.singleton_append]

theorem writeElements_newline {newline : Option Char}
    (isEnd : ∀ character ∈ newline, isNewline character = true)
    (stream : IndentingStream) :
    writeElements newline.toList stream =
      done ((stream.writeInner newline.toList).atColumn
        (if newline ≠ none then some 0 else stream.isSpaceColumn)) := by
  cases newline with
  | none => simp [writeElements]
  | some character =>
      have isNewline := isEnd character rfl
      rw [Indenting.isNewline, Bool.or_eq_true, decide_eq_true_iff,
        decide_eq_true_iff] at isNewline
      rcases isNewline with rfl | rfl <;> rfl

/-- The first character after the blanks brings the indentation. -/
theorem writeElements_body {body : List Char} {column : Int}
    (nonempty : body ≠ [])
    (inLine : ∀ character ∈ body, isNewline character = false)
    (start : ∀ character ∈ body.head?, isBlank character = false)
    (completes : writeElements body (stream.atColumn (some column)) =
      done after) :
    after = (stream.writeInner
      ((indentText stream.isOutputTabWidth
        (stream.isIndentation + column)).1 ++ body)).atColumn none := by
  cases body with
  | nil => exact absurd rfl nonempty
  | cons character body =>
      have solid := start character rfl
      have first := inLine character List.mem_cons_self
      have later : ∀ other ∈ body, isNewline other = false :=
        fun other member => inLine other (List.mem_cons_of_mem _ member)
      rw [isBlank, Bool.or_eq_false_iff, decide_eq_false_iff_not,
        decide_eq_false_iff_not] at solid
      rw [isNewline, Bool.or_eq_false_iff, decide_eq_false_iff_not,
        decide_eq_false_iff_not] at first
      simp only [writeElements, writeElement, IndentingStream.atColumn, solid,
        first, or_self, if_false, writeIndent_eq] at completes
      cases failed : (indentText stream.isOutputTabWidth
          (stream.isIndentation + column)).2 with
      | some error =>
          simp only [failed] at completes
          have never := congrArg Outcome.error completes
          cases never
      | none =>
          simp only [failed] at completes
          have rest := writeElements_inLine later
            ((stream.writeInner (indentText stream.isOutputTabWidth
              (stream.isIndentation + column)).1).writeInner [character])
          have same := rest.symm.trans completes
          rw [writeInner_writeInner, writeInner_writeInner] at same
          exact (done_injective same).symm

/-- A line from a column. -/
theorem writeElements_line {line : Line} (wellFormed : line.WellFormed)
    {column : Option Int}
    (completes : writeElements line.text (stream.atColumn column) =
      done after) :
    after = (stream.writeInner (line.render stream column)).atColumn
      (line.columnAfter stream column) := by
  rw [Line.text] at completes
  rcases writeElements_append_eq_done completes with ⟨ahead, front, newline⟩
  rw [writeElements_newline wellFormed.newline] at newline
  rw [← done_injective newline]
  cases column with
  | none =>
      have inLine : ∀ character ∈ line.blanks ++ line.body,
          isNewline character = false := by
        intro character member
        rcases List.mem_append.mp member with inBlanks | inBody
        · exact isNewline_of_isBlank (wellFormed.blanks character inBlanks)
        · exact wellFormed.body character inBody
      rw [writeElements_inLine inLine] at front
      rw [← done_injective front, writeInner_atColumn, writeInner_writeInner]
      simp [Line.render, Line.columnAfter, Line.text,
        IndentingStream.atColumn]
  | some column =>
      rcases writeElements_append_eq_done front with
        ⟨counted, blanks, body⟩
      rcases writeElements_blanks wellFormed.blanks blanks with
        ⟨column', width, rfl⟩
      by_cases empty : line.body = []
      · rw [empty] at body
        rw [← done_injective body, writeInner_atColumn]
        simp [Line.render, Line.columnAfter, width, empty,
          IndentingStream.atColumn]
      · have same := writeElements_body empty wellFormed.body wellFormed.start
          body
        rw [same, writeInner_atColumn, writeInner_writeInner]
        simp [Line.render, Line.columnAfter, width, empty,
          IndentingStream.atColumn]

/-- What lines become does not depend on what has been written before. -/
theorem renderLines_writeInner (stream : IndentingStream) (text : List Char)
    (column : Option Int) (lines : List Line) :
    renderLines (stream.writeInner text) column lines =
      renderLines stream column lines := by
  induction lines generalizing column with
  | nil => rfl
  | cons line lines inductionHypothesis =>
      rw [renderLines, inductionHypothesis]
      rfl

theorem columnAfterLines_writeInner (stream : IndentingStream)
    (text : List Char) (column : Option Int) (lines : List Line) :
    columnAfterLines (stream.writeInner text) column lines =
      columnAfterLines stream column lines := by
  induction lines generalizing column with
  | nil => rfl
  | cons line lines inductionHypothesis =>
      rw [columnAfterLines, inductionHypothesis]
      rfl

theorem writeElements_lines {lines : List Line}
    (wellFormed : ∀ line ∈ lines, line.WellFormed) {column : Option Int}
    (completes : writeElements (lines.flatMap Line.text)
      (stream.atColumn column) = done after) :
    after = (stream.writeInner (renderLines stream column lines)).atColumn
      (columnAfterLines stream column lines) := by
  induction lines generalizing stream column with
  | nil =>
      rw [← done_injective completes, renderLines, columnAfterLines,
        writeInner_nil]
  | cons line lines inductionHypothesis =>
      rw [List.flatMap_cons] at completes
      rcases writeElements_append_eq_done completes with
        ⟨middle, first, rest⟩
      have same := writeElements_line
        (wellFormed line List.mem_cons_self) first
      rw [same] at rest
      rw [inductionHypothesis
        (fun later member => wellFormed later (List.mem_cons_of_mem _ member))
        rest, renderLines_writeInner, columnAfterLines_writeInner,
        writeInner_writeInner]
      rfl

/-! ## The width of an indentation -/

theorem blankColumn_spaces (tabWidth column : Int) (count : Nat) :
    blankColumn tabWidth column (List.replicate count ' ') =
      some (column + count) := by
  induction count generalizing column with
  | zero => simp [blankColumn]
  | succ count inductionHypothesis =>
      rw [List.replicate_succ, blankColumn, if_neg (by decide),
        inductionHypothesis]
      congr 1
      omega

/-- From one tab stop to another. -/
theorem blankColumn_tabs {tabWidth : Int} (wide : tabWidth ≠ 0) (stop : Int)
    (count : Nat) (blanks : List Char) :
    blankColumn tabWidth (stop * tabWidth)
        (List.replicate count '\t' ++ blanks) =
      blankColumn tabWidth ((stop + count) * tabWidth) blanks := by
  induction count generalizing stop with
  | zero => simp
  | succ count inductionHypothesis =>
      have next : tabColumn (stop * tabWidth) tabWidth =
          some ((stop + 1) * tabWidth) := by
        rw [tabColumn, remainder, if_neg wide, Int.mul_tmod_left,
          Option.map_some, Int.sub_zero, Int.add_mul, Int.one_mul]
      rw [List.replicate_succ, List.cons_append, blankColumn, if_pos rfl, next,
        Option.bind_some, inductionHypothesis]
      congr 2
      omega

theorem blankText_spaces {count : Int}
    (written : (blankText ' ' count).2 = none) (tabWidth column : Int) :
    blankColumn tabWidth column (blankText ' ' count).1 =
      some (column + count) := by
  rw [blankText] at written ⊢
  split at written
  · rename_i sign
    rw [if_pos sign, blankColumn_spaces]
    congr 1
    omega
  · cases written

/-- An indentation is as wide as it is to be, with the tab stops of the inner
stream. -/
theorem indentText_width {tabWidth : Option Int} {count : Int}
    (written : (indentText tabWidth count).2 = none) :
    blankColumn (tabWidth.getD 8) 0 (indentText tabWidth count).1 =
      some count := by
  have plain : ∀ width, (blankText ' ' count).2 = none →
      blankColumn width 0 (blankText ' ' count).1 = some count := by
    intro width ok
    rw [blankText_spaces ok, Int.zero_add]
  cases tabWidth with
  | none => exact plain _ written
  | some tabWidth =>
      rw [Option.getD_some]
      simp only [indentText] at written ⊢
      by_cases wide : count ≥ tabWidth
      · rw [if_pos wide] at written ⊢
        by_cases zero : tabWidth = 0
        · simp [truncateDivide, zero] at written
        · have divided : truncateDivide count tabWidth =
              some (count.tdiv tabWidth, count.tmod tabWidth) := if_neg zero
          simp only [divided, blankText] at written ⊢
          by_cases sign : 0 ≤ count.tdiv tabWidth
          · rw [if_pos sign] at written ⊢
            simp only at written ⊢
            have start := blankColumn_tabs zero 0 (count.tdiv tabWidth).toNat
              (blankText ' ' (count.tmod tabWidth)).1
            rw [Int.zero_mul, Int.zero_add, blankText_spaces written] at start
            rw [← blankText, start, Int.toNat_of_nonneg sign, Int.mul_comm,
              Int.mul_tdiv_add_tmod]
          · rw [if_neg sign] at written
            cases written
      · rw [if_neg wide] at written ⊢
        exact plain _ written

/-! ## Without an error -/

/-- Tabs have a width, and neither the indentation nor the column is to the
left of the first column. -/
structure IndentingStream.Sensible (stream : IndentingStream) : Prop where
  inputTabWidth : 0 < stream.isInputTabWidth
  outputTabWidth : ∀ tabWidth ∈ stream.isOutputTabWidth, 0 < tabWidth
  indentation : 0 ≤ stream.isIndentation
  column : ∀ column ∈ stream.isSpaceColumn, 0 ≤ column

theorem blankText_error {blank : Char} {count : Int} (sign : 0 ≤ count) :
    (blankText blank count).2 = none := by
  rw [blankText, if_pos sign]

theorem indentText_error {tabWidth : Option Int} {count : Int}
    (wide : ∀ width ∈ tabWidth, 0 < width) (sign : 0 ≤ count) :
    (indentText tabWidth count).2 = none := by
  cases tabWidth with
  | none => exact blankText_error sign
  | some tabWidth =>
      have positive := wide tabWidth rfl
      simp only [indentText]
      split
      · have divided : truncateDivide count tabWidth =
            some (count.tdiv tabWidth, count.tmod tabWidth) :=
          if_neg (by omega)
        have quotient : 0 ≤ count.tdiv tabWidth :=
          Int.tdiv_nonneg sign (Int.le_of_lt positive)
        have tabs : blankText '\t' (count.tdiv tabWidth) =
            (List.replicate (count.tdiv tabWidth).toNat '\t', none) :=
          if_pos quotient
        simp only [divided, tabs]
        exact blankText_error (Int.tmod_nonneg tabWidth sign)
      · exact blankText_error sign

theorem IndentingStream.Sensible.writeElement (sensible : stream.Sensible)
    (character : Char) :
    ∃ after, Indenting.writeElement stream character = done after ∧
      after.Sensible := by
  have go : ∀ {other : IndentingStream},
      other.isInputTabWidth = stream.isInputTabWidth →
      other.isOutputTabWidth = stream.isOutputTabWidth →
      other.isIndentation = stream.isIndentation →
      (∀ column ∈ other.isSpaceColumn, 0 ≤ column) → other.Sensible := by
    intro other input output indentation column
    constructor
    · exact input ▸ sensible.inputTabWidth
    · exact output ▸ sensible.outputTabWidth
    · exact indentation ▸ sensible.indentation
    · exact column
  cases column : stream.isSpaceColumn with
  | none =>
      have held : ∀ place ∈ stream.isSpaceColumn, 0 ≤ place :=
        sensible.column
      simp only [Indenting.writeElement, column]
      split
      · exact ⟨_, rfl, go rfl rfl rfl held⟩
      · split
        · exact ⟨_, rfl, go rfl rfl rfl held⟩
        · split
          · exact ⟨_, rfl, go rfl rfl rfl (by
              simp [IndentingStream.writeInner])⟩
          · exact ⟨_, rfl, go rfl rfl rfl (by
              simp [IndentingStream.writeInner])⟩
  | some column' =>
      have sign := sensible.column column' column
      have wide := sensible.inputTabWidth
      simp only [Indenting.writeElement, column]
      split
      · refine ⟨_, rfl, go rfl rfl rfl ?_⟩
        simp
        omega
      · split
        · have stop : tabColumn column' stream.isInputTabWidth =
              some (column' + stream.isInputTabWidth -
                column'.tmod stream.isInputTabWidth) := by
            rw [tabColumn, remainder, if_neg (by omega)]
            rfl
          have rest := Int.tmod_lt_of_pos column' wide
          simp only [stop]
          refine ⟨_, rfl, go rfl rfl rfl ?_⟩
          simp
          omega
        · split
          · exact ⟨_, rfl, go rfl rfl rfl (by
              simp [IndentingStream.writeInner])⟩
          · have indented := indentText_error sensible.outputTabWidth
              (Int.add_nonneg sensible.indentation sign)
            simp only [writeIndent_eq, indented]
            exact ⟨_, rfl, go rfl rfl rfl (by
              simp [IndentingStream.writeInner])⟩

theorem IndentingStream.Sensible.writeElements (sensible : stream.Sensible)
    (text : List Char) :
    ∃ after, Indenting.writeElements text stream = done after := by
  induction text generalizing stream with
  | nil => exact ⟨stream, rfl⟩
  | cons character text inductionHypothesis =>
      rcases sensible.writeElement character with ⟨next, first, sensible'⟩
      rw [Indenting.writeElements, first]
      exact inductionHypothesis sensible'

/-! ## Writing a text -/

/-- However a text is divided into chunks, the inner stream gets what it would
get from single characters, and the stream is left in the same state.  If no
error is signalled, these are the lines of the text with an indentation of the
width of their blanks and of the stream's own, and without their blanks if
they are all blank.  With tabs that have a width, and no negative column, no
error is signalled. -/
theorem writing_in_chunks (stream : IndentingStream) {chunks : List Chunk}
    (inBounds : ∀ chunk ∈ chunks, chunk.InBounds) :
    let text := chunks.flatMap Chunk.text
    let written := writeChunks chunks stream
    written.Agrees (writeElements text stream) ∧
      ((linesOf text).flatMap Line.text = text ∧
        (∀ line ∈ linesOf text, line.WellFormed) ∧
        Terminated (linesOf text)) ∧
      (written.error = none →
        written.stream =
          (stream.writeInner
            (renderLines stream stream.isSpaceColumn (linesOf text))).atColumn
              (columnAfterLines stream stream.isSpaceColumn (linesOf text))) ∧
      (∀ count, (indentText stream.isOutputTabWidth count).2 = none →
        blankColumn (stream.isOutputTabWidth.getD 8) 0
            (indentText stream.isOutputTabWidth count).1 = some count) ∧
      (stream.Sensible → written.error = none) := by
  intro text written
  have agrees : written.Agrees (writeElements text stream) :=
    writeChunks_agrees inBounds
  refine ⟨agrees, ⟨linesOf_text text, linesOf_wellFormed text,
    linesOf_terminated text⟩, ?_, ?_, ?_⟩
  · intro completes
    have all : writeElements ((linesOf text).flatMap Line.text)
        (stream.atColumn stream.isSpaceColumn) = done written.stream := by
      rw [linesOf_text, atColumn_self, agrees.stream completes, done,
        ← completes, agrees.error]
    exact writeElements_lines (linesOf_wellFormed text) all
  · intro count ok
    exact indentText_width ok
  · intro sensible
    rcases sensible.writeElements text with ⟨after, completes⟩
    rw [agrees.error, completes]
    rfl

/-- Blanks before a chunk's end, and an indentation of eleven columns. -/
theorem writing_in_chunks_tab :
    (writeChunks
        [.part [' ', '\t', 'a'] 0 2, .element ' ', .part ['\t', 'a'] 1 2]
        ⟨[], some 0, 2, 8, some 8⟩).stream.innerStream =
      ['\t', ' ', ' ', ' ', 'a'] :=
  (@writing_in_chunks ⟨[], some 0, 2, 8, some 8⟩
    [.part [' ', '\t', 'a'] 0 2, .element ' ', .part ['\t', 'a'] 1 2] (by
    intro chunk member
    simp only [List.mem_cons, List.not_mem_nil, or_false] at member
    rcases member with rfl | rfl | rfl
    · exact Nat.le_succ 2
    · trivial
    · exact Nat.le_refl 2)).1.innerStream

end OpenDylan.Streams.Indenting
