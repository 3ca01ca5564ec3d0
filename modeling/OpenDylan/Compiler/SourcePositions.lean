import Mathlib.Data.Prod.Lex
import OpenDylan.Lib.IntegerBits

/-!
# Packed source positions

A source offset is a line and a column.  A small one is packed into an integer,
any other is an object.  A range position has the offsets at its start and its
end.  It is packed into an integer as well when the start is near the beginning
of the source and the end is near the start: the lines in between are counted,
and the columns too if the position is within one line.
-/

namespace OpenDylan.Compiler.SourcePositions

open OpenDylan.Lib.IntegerBits

/-! ## Source offsets -/

/-- `$column-bits` -/
def columnBits : Nat := 12

/-- `$column-max` -/
def columnMax : Int := 2 ^ columnBits - 1

/-- `$column-mask` -/
def columnMask : Int := columnMax

/-- `$line-bits` -/
def lineBits : Nat := 16

/-- `$line-max` -/
def lineMax : Int := 2 ^ lineBits - 1

/-- `$line-mask` -/
def lineMask : Int := ash lineMax columnBits

/-- `<range-source-offset>`, a `<small-range-source-offset>` or a
`<big-range-source-offset>`. -/
inductive SourceOffset where
  | small (packed : Int)
  | big (line column : Int)
deriving DecidableEq

/-- `small-source-offset?` -/
def smallSourceOffset (line column : Int) : Bool :=
  column ≤ columnMax && line ≤ lineMax

/-- `make-small-source-offset` -/
def makeSmallSourceOffset (_char line column : Int) : SourceOffset :=
  .small (logior (ash line columnBits) column)

/-- `make-big-source-offset` -/
def makeBigSourceOffset (_char line column : Int) : SourceOffset :=
  .big line column

/-- `make-source-offset` -/
def makeSourceOffset (char line column : Int) : SourceOffset :=
  if smallSourceOffset line column then
    makeSmallSourceOffset char line column
  else
    makeBigSourceOffset char line column

/-- `source-offset-line` -/
def SourceOffset.line : SourceOffset → Int
  | .small packed => ash (logand packed lineMask) (-columnBits)
  | .big line _ => line

/-- `source-offset-column` -/
def SourceOffset.column : SourceOffset → Int
  | .small packed => logand packed columnMask
  | .big _ column => column

/-- The methods of `<`.  A column of a big offset in a line that a small one
can have is larger than the columns of small ones. -/
def SourceOffset.less : SourceOffset → SourceOffset → Bool
  | .small x, .small y => x < y
  | .big line column, .small y => (big line column).line < (small y).line
  | .small x, .big line column => (small x).line ≤ (big line column).line
  | .big xLine xColumn, .big yLine yColumn =>
      xLine < yLine || (xLine = yLine && xColumn < yColumn)

/-- The methods of `=`. -/
def SourceOffset.equal : SourceOffset → SourceOffset → Bool
  | .small x, .small y => x = y
  | .big _ _, .small _ => false
  | .small _, .big _ _ => false
  | .big xLine xColumn, .big yLine yColumn =>
      xLine = yLine && xColumn = yColumn

/-- The methods of `range-source-offset-greater-than?`. -/
def SourceOffset.greaterThan : SourceOffset → SourceOffset → Bool
  | .small x, .small y => y < x
  | x, y =>
      y.line < x.line || (x.line = y.line && y.column < x.column)

/-! ## Range positions -/

/-- `range$v-start-col` -/
def vStartCol : Nat := 0

/-- `range$s-start-col` -/
def sStartCol : Nat := 7

/-- `range$m-start-col` -/
def mStartCol : Int := 2 ^ sStartCol - 1

/-- `range$v-start-line` -/
def vStartLine : Nat := vStartCol + sStartCol

/-- `range$s-start-line` -/
def sStartLine : Nat := 11

/-- `range$m-start-line` -/
def mStartLine : Int := 2 ^ sStartLine - 1

/-- `range$v-delta-col` -/
def vDeltaCol : Nat := vStartLine + sStartLine

/-- `range$s-delta-col` -/
def sDeltaCol : Nat := 7

/-- `range$m-delta-col` -/
def mDeltaCol : Int := 2 ^ sDeltaCol - 1

/-- `range$v-delta-line` -/
def vDeltaLine : Nat := vDeltaCol + sDeltaCol

/-- `range$s-delta-line` -/
def sDeltaLine : Nat := 3

/-- `range$m-delta-line` -/
def mDeltaLine : Int := 2 ^ sDeltaLine - 1

/-- `<range-position>`, a `<small-range-position>` or a
`<big-range-position>`. -/
inductive RangePosition where
  | small (packed : Int)
  | big (startOffset endOffset : SourceOffset)
deriving DecidableEq

/-- `source-position-start-offset` -/
def RangePosition.startOffset : RangePosition → SourceOffset
  | .small pos =>
      let col := logand (ash pos (-vStartCol)) mStartCol
      let line := logand (ash pos (-vStartLine)) mStartLine
      makeSmallSourceOffset 0 line col
  | .big startOffset _ => startOffset

/-- `source-position-end-offset` -/
def RangePosition.endOffset : RangePosition → SourceOffset
  | .small pos =>
      let sline := logand (ash pos (-vStartLine)) mStartLine
      let dline := logand (ash pos (-vDeltaLine)) mDeltaLine
      let dcol := logand (ash pos (-vDeltaCol)) mDeltaCol
      let ecol :=
        if dline = 0 then dcol + logand (ash pos (-vStartCol)) mStartCol
        else dcol
      makeSmallSourceOffset 0 (sline + dline) ecol
  | .big _ endOffset => endOffset

/-- The integer that `make-range-position` makes of small offsets, if they are
near enough. -/
def packedPosition (startOffset endOffset : SourceOffset) : Option Int :=
  let sline := startOffset.line
  if sline ≤ mStartLine then
    let dline := endOffset.line - sline
    if dline ≤ mDeltaLine then
      let scol := startOffset.column
      if scol ≤ mStartCol then
        let ecol := endOffset.column
        let dcol := if dline = 0 then ecol - scol else ecol
        if 0 ≤ dcol ∧ dcol ≤ mDeltaCol then
          some (logior (logior (logior (ash sline vStartLine)
            (ash dline vDeltaLine)) (ash scol vStartCol)) (ash dcol vDeltaCol))
        else none
      else none
    else none
  else none

/-- The methods of `make-range-position`. -/
def makeRangePosition (startOffset endOffset : SourceOffset) : RangePosition :=
  match startOffset, endOffset with
  | .small _, .small _ =>
      match packedPosition startOffset endOffset with
      | some packed => .small packed
      | none => .big startOffset endOffset
  | _, _ => .big startOffset endOffset

/-! ## Reading offsets back -/

theorem smallSourceOffset_iff (line column : Nat) :
    smallSourceOffset line column = true ↔
      column < 2 ^ columnBits ∧ line < 2 ^ lineBits := by
  rw [smallSourceOffset, columnMax, lineMax, columnBits, lineBits,
    Bool.and_eq_true, decide_eq_true_eq, decide_eq_true_eq]
  omega

theorem makeSmallSourceOffset_eq (char : Int) (line : Nat) {column : Nat}
    (narrow : column < 2 ^ columnBits) :
    makeSmallSourceOffset char line column =
      .small (line * 2 ^ columnBits + column : Nat) := by
  rw [makeSmallSourceOffset, logior_ash narrow]
  push_cast
  rfl

theorem line_makeSmallSourceOffset (char : Int) {line column : Nat}
    (narrow : column < 2 ^ columnBits) (short : line < 2 ^ lineBits) :
    (makeSmallSourceOffset char line column).line = line := by
  rw [makeSmallSourceOffset_eq char line narrow, SourceOffset.line, lineMask,
    lineMax, ash_logand_mask]
  rw [columnBits] at narrow ⊢
  rw [lineBits] at short ⊢
  omega

theorem column_makeSmallSourceOffset (char : Int) {line column : Nat}
    (narrow : column < 2 ^ columnBits) :
    (makeSmallSourceOffset char line column).column = column := by
  rw [makeSmallSourceOffset_eq char line narrow, SourceOffset.column,
    columnMask, columnMax, logand_mask]
  rw [columnBits] at narrow ⊢
  omega

/-- The kind of an offset that is made. -/
theorem makeSourceOffset_cases (char : Int) (line column : Nat) :
    (column < 2 ^ columnBits ∧ line < 2 ^ lineBits ∧
      makeSourceOffset char line column =
        .small (line * 2 ^ columnBits + column : Nat)) ∨
    ((2 ^ columnBits ≤ column ∨ 2 ^ lineBits ≤ line) ∧
      makeSourceOffset char line column = .big line column) := by
  rw [makeSourceOffset]
  split
  · next isSmall =>
      have ⟨narrow, short⟩ := (smallSourceOffset_iff line column).mp isSmall
      exact Or.inl ⟨narrow, short, makeSmallSourceOffset_eq char line narrow⟩
  · next isBig =>
      refine Or.inr ⟨?_, rfl⟩
      rw [smallSourceOffset_iff, not_and_or, Nat.not_lt, Nat.not_lt] at isBig
      exact isBig

theorem line_makeSourceOffset (char : Int) (line column : Nat) :
    (makeSourceOffset char line column).line = line := by
  rw [makeSourceOffset]
  split
  · next isSmall =>
      have ⟨narrow, short⟩ := (smallSourceOffset_iff line column).mp isSmall
      exact line_makeSmallSourceOffset char narrow short
  · rfl

theorem column_makeSourceOffset (char : Int) (line column : Nat) :
    (makeSourceOffset char line column).column = column := by
  rw [makeSourceOffset]
  split
  · next isSmall =>
      have ⟨narrow, _⟩ := (smallSourceOffset_iff line column).mp isSmall
      exact column_makeSmallSourceOffset char narrow
  · rfl

/-! ## Comparing offsets -/

section Comparing

variable (char other : Int) (line column line' column' : Nat)

/-- Whatever their representations, offsets are ordered by their lines and
then by their columns. -/
theorem less_iff :
    (makeSourceOffset char line column).less
        (makeSourceOffset other line' column') = true ↔
      line < line' ∨ line = line' ∧ column < column' := by
  have lineX := line_makeSourceOffset char line column
  have lineY := line_makeSourceOffset other line' column'
  rcases makeSourceOffset_cases char line column with
    ⟨narrow, short, isX⟩ | ⟨large, isX⟩ <;>
  rcases makeSourceOffset_cases other line' column' with
    ⟨narrow', short', isY⟩ | ⟨large', isY⟩ <;>
  rw [isX] at lineX ⊢ <;> rw [isY] at lineY ⊢ <;>
  rw [SourceOffset.less]
  · rw [columnBits] at narrow narrow' ⊢
    rw [decide_eq_true_eq]
    omega
  · rw [columnBits] at narrow large'
    rw [lineBits] at short large'
    rw [lineX, lineY, decide_eq_true_eq]
    omega
  · rw [columnBits] at narrow' large
    rw [lineBits] at short' large
    rw [lineX, lineY, decide_eq_true_eq]
    omega
  · rw [Bool.or_eq_true, Bool.and_eq_true, decide_eq_true_eq,
      decide_eq_true_eq, decide_eq_true_eq]
    omega

/-- Whatever their representations, offsets are equal if their lines and their
columns are. -/
theorem equal_iff :
    (makeSourceOffset char line column).equal
        (makeSourceOffset other line' column') = true ↔
      line = line' ∧ column = column' := by
  rcases makeSourceOffset_cases char line column with
    ⟨narrow, short, isX⟩ | ⟨large, isX⟩ <;>
  rcases makeSourceOffset_cases other line' column' with
    ⟨narrow', short', isY⟩ | ⟨large', isY⟩ <;>
  rw [isX, isY, SourceOffset.equal]
  · rw [columnBits] at narrow narrow' ⊢
    rw [decide_eq_true_eq]
    omega
  · simp only [Bool.false_eq_true, false_iff]
    omega
  · simp only [Bool.false_eq_true, false_iff]
    omega
  · rw [Bool.and_eq_true, decide_eq_true_eq, decide_eq_true_eq]
    omega

theorem greaterThan_iff :
    (makeSourceOffset char line column).greaterThan
        (makeSourceOffset other line' column') = true ↔
      line' < line ∨ line = line' ∧ column' < column := by
  have lineX := line_makeSourceOffset char line column
  have lineY := line_makeSourceOffset other line' column'
  have columnX := column_makeSourceOffset char line column
  have columnY := column_makeSourceOffset other line' column'
  have lexicographic : ∀ x y : SourceOffset, x.line = line → y.line = line' →
      x.column = column → y.column = column' →
      ((y.line < x.line || (x.line = y.line && y.column < x.column)) = true ↔
        line' < line ∨ line = line' ∧ column' < column) := by
    intro x y isLine isLine' isColumn isColumn'
    rw [isLine, isLine', isColumn, isColumn', Bool.or_eq_true,
      Bool.and_eq_true, decide_eq_true_eq, decide_eq_true_eq,
      decide_eq_true_eq]
    omega
  rcases makeSourceOffset_cases char line column with
    ⟨narrow, short, isX⟩ | ⟨large, isX⟩
  · rcases makeSourceOffset_cases other line' column' with
      ⟨narrow', short', isY⟩ | ⟨large', isY⟩
    · rw [isX, isY, SourceOffset.greaterThan, decide_eq_true_eq]
      rw [columnBits] at narrow narrow' ⊢
      omega
    · rw [isX] at lineX columnX ⊢
      rw [isY] at lineY columnY ⊢
      exact lexicographic _ _ lineX lineY columnX columnY
  · rw [isX] at lineX columnX ⊢
    have general : ∀ y, (SourceOffset.big line column).greaterThan y =
        (y.line < line || ((line : Int) = y.line && y.column < column)) := by
      intro y
      cases y <;> rfl
    rw [general]
    exact lexicographic _ _ lineX lineY columnX columnY

end Comparing

/-! ## Reading positions back -/

section Positions

variable {line column line' column' : Nat}

/-- The fields of a packed position are apart. -/
theorem packedPosition_eq {sline dline scol dcol : Nat}
    (isLine : sline < 2 ^ sStartLine) (isColumn : scol < 2 ^ sStartCol)
    (isDelta : dcol < 2 ^ sDeltaCol) :
    logior (logior (logior (ash sline vStartLine) (ash dline vDeltaLine))
        (ash scol vStartCol)) (ash dcol vDeltaCol) =
      (dline * 2 ^ vDeltaLine + (dcol * 2 ^ vDeltaCol +
        (sline * 2 ^ vStartLine + scol)) : Nat) := by
  have cast : ∀ number width : Nat,
      ash number width = ((number * 2 ^ width : Nat) : Int) := by
    intro number width
    rw [ash_left]
    push_cast
    rfl
  rw [cast, cast, cast, cast, logior_natCast, logior_natCast, logior_natCast]
  have line : sline < 2 ^ 11 := isLine
  have column : scol < 2 ^ 7 := isColumn
  have deltaColumn : dcol < 2 ^ 7 := isDelta
  have first : sline * 2 ^ 7 ||| scol = sline * 2 ^ 7 + scol :=
    or_eq_add column sline
  have second : dcol * 2 ^ 18 ||| (sline * 2 ^ 7 + scol) =
      dcol * 2 ^ 18 + (sline * 2 ^ 7 + scol) :=
    or_eq_add (by omega) dcol
  have third : dline * 2 ^ 25 ||| (dcol * 2 ^ 18 + (sline * 2 ^ 7 + scol)) =
      dline * 2 ^ 25 + (dcol * 2 ^ 18 + (sline * 2 ^ 7 + scol)) :=
    or_eq_add (by omega) dline
  show ((sline * 2 ^ 7 ||| dline * 2 ^ 25 ||| scol * 2 ^ 0 |||
    dcol * 2 ^ 18 : Nat) : Int) =
      (dline * 2 ^ 25 + (dcol * 2 ^ 18 + (sline * 2 ^ 7 + scol)) : Nat)
  rw [pow_zero, mul_one]
  rw [← third, ← second, ← first]
  congr 1
  ac_rfl

/-- What is read back from a packed position. -/
theorem offsets_packedPosition {sline dline scol dcol packed : Nat}
    (isLine : sline < 2 ^ sStartLine) (isColumn : scol < 2 ^ sStartCol)
    (isDelta : dcol < 2 ^ sDeltaCol) (isNear : dline < 2 ^ sDeltaLine)
    (isPacked : packed = dline * 2 ^ vDeltaLine + (dcol * 2 ^ vDeltaCol +
      (sline * 2 ^ vStartLine + scol))) :
    (RangePosition.small packed).startOffset =
        makeSmallSourceOffset 0 sline scol ∧
      (RangePosition.small packed).endOffset =
        makeSmallSourceOffset 0 (sline + dline : Nat)
          (if dline = 0 then dcol + scol else dcol : Nat) := by
  have line : sline < 2 ^ 11 := isLine
  have column : scol < 2 ^ 7 := isColumn
  have deltaColumn : dcol < 2 ^ 7 := isDelta
  have deltaLine : dline < 2 ^ 3 := isNear
  have fields : packed =
      dline * 2 ^ 25 + (dcol * 2 ^ 18 + (sline * 2 ^ 7 + scol)) := isPacked
  have readColumn : logand (ash packed (-vStartCol)) mStartCol = scol := by
    rw [mStartCol, logand_ash]
    show (packed : Int) / 2 ^ 0 % 2 ^ 7 = scol
    omega
  have readLine : logand (ash packed (-vStartLine)) mStartLine = sline := by
    rw [mStartLine, logand_ash]
    show (packed : Int) / 2 ^ 7 % 2 ^ 11 = sline
    omega
  have readDelta : logand (ash packed (-vDeltaCol)) mDeltaCol = dcol := by
    rw [mDeltaCol, logand_ash]
    show (packed : Int) / 2 ^ 18 % 2 ^ 7 = dcol
    omega
  have readNear : logand (ash packed (-vDeltaLine)) mDeltaLine = dline := by
    rw [mDeltaLine, logand_ash]
    show (packed : Int) / 2 ^ 25 % 2 ^ 3 = dline
    omega
  rw [RangePosition.startOffset, RangePosition.endOffset]
  simp only [readColumn, readLine, readDelta, readNear, true_and]
  push_cast
  simp only [Int.natCast_eq_zero]

/-- When a position is packed, the distances fit into their fields. -/
theorem packedPosition_some {startOffset endOffset : SourceOffset}
    {packed : Int} (isLine : startOffset.line = line)
    (isColumn : startOffset.column = column) (isLine' : endOffset.line = line')
    (isColumn' : endOffset.column = column')
    (ordered : line < line' ∨ line = line' ∧ column ≤ column')
    (made : packedPosition startOffset endOffset = some packed) :
    ∃ dline dcol : Nat, line < 2 ^ sStartLine ∧ column < 2 ^ sStartCol ∧
      dcol < 2 ^ sDeltaCol ∧ dline < 2 ^ sDeltaLine ∧ line' = line + dline ∧
      column' = (if dline = 0 then dcol + column else dcol) ∧
      packed = (dline * 2 ^ vDeltaLine + (dcol * 2 ^ vDeltaCol +
        (line * 2 ^ vStartLine + column)) : Nat) := by
  have apart : line ≤ line' := by omega
  have delta : (line' : Int) - line = (line' - line : Nat) := by omega
  simp only [packedPosition, isLine, isColumn, isLine', isColumn', delta,
    Int.natCast_eq_zero] at made
  split at made
  · next lineFits =>
      split at made
      · next nearby =>
          split at made
          · next columnFits =>
              have within : line < 2 ^ sStartLine := by
                rw [mStartLine, sStartLine] at lineFits
                rw [sStartLine]
                omega
              have near : line' - line < 2 ^ sDeltaLine := by
                rw [mDeltaLine, sDeltaLine] at nearby
                rw [sDeltaLine]
                omega
              have narrow : column < 2 ^ sStartCol := by
                rw [mStartCol, sStartCol] at columnFits
                rw [sStartCol]
                omega
              -- The columns are counted if the position is within a line.
              have counted : (if line' - line = 0 then (column' : Int) - column
                  else column') = (if line' - line = 0 then column' - column
                    else column' : Nat) := by
                split <;> omega
              rw [counted] at made
              generalize isDelta : (if line' - line = 0 then column' - column
                else column') = dcol at made
              split at made
              · next deltaFits =>
                  have fits : dcol < 2 ^ sDeltaCol := by
                    rw [mDeltaCol, sDeltaCol] at deltaFits
                    rw [sDeltaCol]
                    omega
                  refine ⟨line' - line, dcol, within, narrow, fits, near,
                    by omega, ?_, ?_⟩
                  · rw [← isDelta]
                    split <;> omega
                  · rw [← packedPosition_eq within narrow fits]
                    exact (Option.some.inj made).symm
              · cases made
          · cases made
      · cases made
  · cases made

/-- The offsets of a position are those it was made of. -/
theorem offsets_makeRangePosition (char other : Int)
    (ordered : line < line' ∨ line = line' ∧ column ≤ column') :
    (makeRangePosition (makeSourceOffset char line column)
        (makeSourceOffset other line' column')).startOffset =
          makeSourceOffset char line column ∧
      (makeRangePosition (makeSourceOffset char line column)
        (makeSourceOffset other line' column')).endOffset =
          makeSourceOffset other line' column' := by
  have isLine := line_makeSourceOffset char line column
  have isColumn := column_makeSourceOffset char line column
  have isLine' := line_makeSourceOffset other line' column'
  have isColumn' := column_makeSourceOffset other line' column'
  rcases makeSourceOffset_cases char line column with
    ⟨narrow, short, isStart⟩ | ⟨-, isStart⟩
  · rcases makeSourceOffset_cases other line' column' with
      ⟨narrow', short', isEnd⟩ | ⟨-, isEnd⟩
    · rw [isStart] at isLine isColumn ⊢
      rw [isEnd] at isLine' isColumn' ⊢
      rw [makeRangePosition]
      split
      · next packed made =>
          obtain ⟨dline, dcol, lineFits, columnFits, deltaFits, near, isNext,
            isLast, rfl⟩ := packedPosition_some isLine isColumn isLine'
              isColumn' ordered made
          obtain ⟨start, finish⟩ := offsets_packedPosition lineFits columnFits
            deltaFits near rfl
          rw [start, finish, ← isNext, ← isLast]
          exact ⟨makeSmallSourceOffset_eq 0 line narrow,
            makeSmallSourceOffset_eq 0 line' narrow'⟩
      · exact ⟨rfl, rfl⟩
    · rw [isStart, isEnd]
      exact ⟨rfl, rfl⟩
  · rw [isStart]
    exact ⟨rfl, rfl⟩

end Positions

/-- Offsets and positions stand for lines and columns in every representation,
and offsets are compared as these are. -/
theorem source_positions_exact (char other : Int)
    (line column line' column' : Nat) :
    let startOffset := makeSourceOffset char line column
    let endOffset := makeSourceOffset other line' column'
    let position := makeRangePosition startOffset endOffset
    (startOffset.line = line ∧ startOffset.column = column) ∧
    (startOffset.less endOffset = true ↔
      toLex (line, column) < toLex (line', column')) ∧
    (startOffset.equal endOffset = true ↔
      toLex (line, column) = toLex (line', column')) ∧
    (startOffset.greaterThan endOffset = true ↔
      toLex (line', column') < toLex (line, column)) ∧
    (toLex (line, column) ≤ toLex (line', column') →
      position.startOffset.line = line ∧
        position.startOffset.column = column ∧
        position.endOffset.line = line' ∧
        position.endOffset.column = column') := by
  intro startOffset endOffset position
  refine ⟨⟨line_makeSourceOffset char line column,
    column_makeSourceOffset char line column⟩, ?_, ?_, ?_, ?_⟩
  · rw [Prod.Lex.toLex_lt_toLex]
    exact less_iff char other line column line' column'
  · rw [toLex_inj, Prod.mk.injEq]
    exact equal_iff char other line column line' column'
  · rw [Prod.Lex.toLex_lt_toLex, eq_comm (a := line')]
    exact greaterThan_iff char other line column line' column'
  · intro ordered
    rw [Prod.Lex.toLex_le_toLex] at ordered
    obtain ⟨start, finish⟩ := offsets_makeRangePosition char other ordered
    rw [start, finish]
    exact ⟨line_makeSourceOffset char line column,
      column_makeSourceOffset char line column,
      line_makeSourceOffset other line' column',
      column_makeSourceOffset other line' column'⟩

end OpenDylan.Compiler.SourcePositions
