import OpenDylan.Lib.OperatorTree

/-!
# Binary operand series

The parser reads a series of operands with binary operators between them from
left to right.  Operators that cannot be applied yet wait in a chain of
`<binop-sequence>` objects; appending one folds those that bind tighter, and
`binop-fragment` folds the rest.

The chain is modified in place only at its end, so the model returns the
changed chain.  Operator fragments are their names.
-/

namespace OpenDylan.Compiler.BinaryOperands

open OpenDylan.Lib.OperatorTree

/-! ## Fragments -/

/-- The names of the operator fragments that the lexer makes. -/
inductive Operator where
  | power
  | times
  | divide
  | plus
  | minus
  | equal
  | notEqual
  | identical
  | notIdentical
  | less
  | greater
  | lessOrEqual
  | greaterOrEqual
  | and
  | or
  | assign
deriving DecidableEq

/-- A source offset: its line and column. -/
structure SourceOffset where
  line : Nat
  column : Nat
deriving DecidableEq

/-- A range of source offsets. -/
structure SourcePosition where
  startOffset : SourceOffset
  endOffset : SourceOffset
deriving DecidableEq

variable {Record Operand : Type}

/-- A fragment that is no call of a binary operator, and what the parser makes
of it: a `<binary-operator-call-fragment>`, or a `<function-macro-fragment>`
with the two arguments and a comma between them as its body. -/
inductive Fragment (Record Operand : Type) where
  | operand (record : Record) (position : Option SourcePosition)
      (operand : Operand)
  | binaryOperatorCall (record : Record) (position : Option SourcePosition)
      (function : Operator) (left right : Fragment Record Operand)
  | functionMacro (record : Record) (position : Option SourcePosition)
      (macro_ : Operator) (left right : Fragment Record Operand)

/-- `fragment-record` -/
def Fragment.record : Fragment Record Operand → Record
  | .operand record _ _ => record
  | .binaryOperatorCall record _ _ _ _ => record
  | .functionMacro record _ _ _ _ => record

/-- `fragment-source-position` -/
def Fragment.sourcePosition :
    Fragment Record Operand → Option SourcePosition
  | .operand _ position _ => position
  | .binaryOperatorCall _ position _ _ _ => position
  | .functionMacro _ position _ _ _ => position

/-- `range-source-offset-greater-than?` -/
def rangeSourceOffsetGreaterThan (x y : SourceOffset) : Bool :=
  x.line > y.line || (x.line = y.line && x.column > y.column)

/-- `compute-position-between` -/
def computePositionBetween :
    Option SourcePosition → Option SourcePosition → Option SourcePosition
  | none, p2 => p2
  | p1, none => p1
  | some p1, some p2 =>
      if rangeSourceOffsetGreaterThan p1.startOffset p2.endOffset then
        some { startOffset := p2.startOffset
               endOffset := p1.endOffset }
      else
        some { startOffset := p1.startOffset
               endOffset := p2.endOffset }

/-- `position-between` -/
def positionBetween (f1 f2 : Fragment Record Operand) :
    Option SourcePosition :=
  computePositionBetween f1.sourcePosition f2.sourcePosition

/-! ## Operator parameters -/

/-- `operator-precedence` -/
def operatorPrecedence : Operator → Nat
  | .power => 9
  | .times | .divide => 7
  | .plus | .minus => 5
  | .equal | .notEqual | .identical | .notIdentical | .less | .greater
  | .lessOrEqual | .greaterOrEqual => 4
  | .and | .or => 2
  | .assign => 1

/-- `right-associative?` -/
def rightAssociative : Operator → Bool
  | .assign | .power => true
  | _ => false

/-- `left-associative?` -/
def leftAssociative (operator : Operator) : Bool :=
  !rightAssociative operator

/-- `macro-operator-fragment?` -/
def macroOperatorFragment : Operator → Bool
  | .assign | .and | .or => true
  | _ => false

/-- The operators of the language as a precedence. -/
def dylanPrecedence : Precedence Operator where
  level := operatorPrecedence
  rightAssociative := rightAssociative
  uniform {operator other} := by
    cases operator <;> cases other <;>
      simp [operatorPrecedence, rightAssociative]

/-! ## Binop sequences -/

/-- A fragment or a `<binop-sequence>`. -/
inductive Series (Record Operand : Type) where
  | fragment (fragment : Fragment Record Operand)
  | sequence (previous : Series Record Operand) (operator : Operator)
      (argument : Fragment Record Operand)

/-- The number of operators that wait in a series. -/
def Series.depth : Series Record Operand → Nat
  | .fragment _ => 0
  | .sequence previous _ _ => previous.depth + 1

/-- `fold-one-binop-aux!` of a fragment. -/
def foldOneBinopAux (leftArg : Fragment Record Operand) (op : Operator)
    (rightArg : Fragment Record Operand) : Fragment Record Operand :=
  if macroOperatorFragment op then
    .functionMacro leftArg.record (positionBetween leftArg rightArg) op
      leftArg rightArg
  else
    .binaryOperatorCall leftArg.record (positionBetween leftArg rightArg) op
      leftArg rightArg

/-- `fold-one-binop!` of the sequence with these slots. -/
def foldOneBinop (previous : Series Record Operand) (operator : Operator)
    (argument : Fragment Record Operand) : Series Record Operand :=
  match previous with
  | .fragment leftArg => .fragment (foldOneBinopAux leftArg operator argument)
  | .sequence earlier lead leftArg =>
      .sequence earlier lead (foldOneBinopAux leftArg operator argument)

theorem foldOneBinop_depth (previous : Series Record Operand)
    (operator : Operator) (argument : Fragment Record Operand) :
    (foldOneBinop previous operator argument).depth = previous.depth := by
  cases previous with
  | fragment leftArg => rfl
  | sequence earlier lead leftArg => rfl

/-- `fold-tighter-binops` -/
def foldTighterBinops (prec : Nat) (isLeft : Bool) :
    Series Record Operand → Series Record Operand
  | .fragment fragment => .fragment fragment
  | .sequence previous operator argument =>
      if operatorPrecedence operator > prec ∨
          (operatorPrecedence operator = prec ∧ isLeft = true) then
        foldTighterBinops prec isLeft
          (foldOneBinop previous operator argument)
      else
        .sequence previous operator argument
termination_by series => series.depth
decreasing_by
  rw [foldOneBinop_depth]
  exact Nat.lt_succ_self _

theorem foldTighterBinops_depth (prec : Nat) (isLeft : Bool)
    (series : Series Record Operand) :
    (foldTighterBinops prec isLeft series).depth ≤ series.depth := by
  induction series using foldTighterBinops.induct prec isLeft with
  | case1 fragment => simp [foldTighterBinops]
  | case2 previous operator argument tighter ih =>
      rw [foldTighterBinops, if_pos tighter]
      rw [foldOneBinop_depth] at ih
      exact Nat.le_succ_of_le ih
  | case3 previous operator argument looser =>
      have same := foldTighterBinops.eq_2 prec isLeft previous operator
        argument
      rw [if_neg looser] at same
      exact Nat.le_of_eq (congrArg Series.depth same)

/-- `append-binop!` -/
def appendBinop (series : Series Record Operand) (newOp : Operator)
    (newArg : Fragment Record Operand) : Series Record Operand :=
  match series with
  | .fragment fragment => .sequence (.fragment fragment) newOp newArg
  | .sequence previous leadOp argument =>
      if operatorPrecedence leadOp < operatorPrecedence newOp ∨
          (operatorPrecedence leadOp = operatorPrecedence newOp ∧
            leftAssociative newOp = false) then
        .sequence (.sequence previous leadOp argument) newOp newArg
      else
        appendBinop
          (foldTighterBinops (operatorPrecedence newOp)
            (leftAssociative newOp) (foldOneBinop previous leadOp argument))
          newOp newArg
termination_by series.depth
decreasing_by
  apply Nat.lt_succ_of_le
  rw [← foldOneBinop_depth previous leadOp argument]
  exact foldTighterBinops_depth _ _ _

/-- `binop-fragment` -/
def binopFragment : Series Record Operand → Fragment Record Operand
  | .fragment fragment => fragment
  | .sequence previous operator argument =>
      binopFragment (foldOneBinop previous operator argument)
termination_by series => series.depth
decreasing_by
  rw [foldOneBinop_depth]
  exact Nat.lt_succ_self _

/-- What the grammar does with a series of binary operands. -/
def parseSeries (first : Fragment Record Operand)
    (rest : List (Operator × Fragment Record Operand)) :
    Fragment Record Operand :=
  binopFragment (rest.foldl
    (fun series entry => appendBinop series entry.1 entry.2)
    (.fragment first))

/-! ## The trees of fragments -/

/-- An operand with all that its fragment holds. -/
structure Leaf (Record Operand : Type) where
  record : Record
  position : Option SourcePosition
  operand : Operand

/-- The fragment of an operand. -/
def Leaf.fragment (leaf : Leaf Record Operand) : Fragment Record Operand :=
  .operand leaf.record leaf.position leaf.operand

/-- The operators and operands of a fragment. -/
def Fragment.tree :
    Fragment Record Operand → Tree Operator (Leaf Record Operand)
  | .operand record position value =>
      .leaf {
        record := record
        position := position
        operand := value }
  | .binaryOperatorCall _ _ function left right =>
      .node function left.tree right.tree
  | .functionMacro _ _ macro_ left right =>
      .node macro_ left.tree right.tree

@[simp]
theorem foldOneBinopAux_tree (leftArg : Fragment Record Operand)
    (op : Operator) (rightArg : Fragment Record Operand) :
    (foldOneBinopAux leftArg op rightArg).tree =
      .node op leftArg.tree rightArg.tree := by
  rw [foldOneBinopAux]
  split
  · rfl
  · rfl

/-- The fragment at the end of a series. -/
def Series.last : Series Record Operand → Fragment Record Operand
  | .fragment whole => whole
  | .sequence _ _ argument => argument

/-- The operator that waits at the end of a series. -/
def Series.lead : Series Record Operand → Option Operator
  | .fragment _ => none
  | .sequence _ operator _ => some operator

/-- The first operand of a series. -/
def Series.first : Series Record Operand → Leaf Record Operand
  | .fragment whole => whole.tree.first
  | .sequence previous _ _ => previous.first

/-- The other operands of a series, each with the operator before it. -/
def Series.rest : Series Record Operand →
    List (Operator × Leaf Record Operand)
  | .fragment whole => whole.tree.rest
  | .sequence previous operator argument =>
      previous.rest ++ (operator, argument.tree.first) :: argument.tree.rest

/-! ## The invariant of a series -/

/-- A fragment may be the left argument of an operator. -/
def FitsLeft (operator : Operator) (fragment : Fragment Record Operand) :
    Prop :=
  ∀ child, fragment.tree.root = some child →
    dylanPrecedence.BindsLeft operator child

/-- A fragment may be the right argument of an operator. -/
def FitsRight (operator : Operator) (fragment : Fragment Record Operand) :
    Prop :=
  ∀ child, fragment.tree.root = some child →
    dylanPrecedence.BindsRight operator child

/-- Waiting operators bind tighter and tighter, and each of them fits its two
neighbours. -/
def Series.WellFormed : Series Record Operand → Prop
  | .fragment whole => Respects dylanPrecedence whole.tree
  | .sequence previous operator argument =>
      previous.WellFormed ∧ FitsLeft operator previous.last ∧
        Respects dylanPrecedence argument.tree ∧
        FitsRight operator argument ∧
        ∀ lead, previous.lead = some lead →
          dylanPrecedence.BindsRight lead operator

theorem Series.WellFormed.last_respects {series : Series Record Operand}
    (wellFormed : series.WellFormed) :
    Respects dylanPrecedence series.last.tree := by
  cases series with
  | fragment whole => exact wellFormed
  | sequence previous operator argument => exact wellFormed.2.2.1

/-- The folded operator is the root of the last fragment. -/
theorem foldOneBinop_last (previous : Series Record Operand)
    (operator : Operator) (argument : Fragment Record Operand) :
    (foldOneBinop previous operator argument).last.tree =
      .node operator previous.last.tree argument.tree := by
  cases previous with
  | fragment leftArg => exact foldOneBinopAux_tree ..
  | sequence earlier lead leftArg => exact foldOneBinopAux_tree ..

/-- Folding keeps the operands in their order. -/
theorem foldOneBinop_operands (previous : Series Record Operand)
    (operator : Operator) (argument : Fragment Record Operand) :
    (foldOneBinop previous operator argument).first =
        (Series.sequence previous operator argument).first ∧
      (foldOneBinop previous operator argument).rest =
        (Series.sequence previous operator argument).rest := by
  cases previous with
  | fragment leftArg =>
      simp [foldOneBinop, Series.first, Series.rest, Tree.first, Tree.rest]
  | sequence earlier lead leftArg =>
      simp [foldOneBinop, Series.first, Series.rest, Tree.first, Tree.rest]

/-- Folding the last operator keeps the invariant. -/
theorem Series.WellFormed.foldOneBinop {previous : Series Record Operand}
    {operator : Operator} {argument : Fragment Record Operand}
    (wellFormed : (Series.sequence previous operator argument).WellFormed) :
    (foldOneBinop previous operator argument).WellFormed := by
  obtain ⟨before, fitsLeft, respects, fitsRight, tighter⟩ := wellFormed
  have folded : Respects dylanPrecedence
      (.node operator previous.last.tree argument.tree) :=
    ⟨before.last_respects, respects, fitsLeft, fitsRight⟩
  cases previous with
  | fragment leftArg =>
      show Respects dylanPrecedence (foldOneBinopAux ..).tree
      rw [foldOneBinopAux_tree]
      exact folded
  | sequence earlier lead leftArg =>
      obtain ⟨first, fitsFirst, -, -, ordered⟩ := before
      refine ⟨first, fitsFirst, ?_, ?_, ordered⟩
      · rw [foldOneBinopAux_tree]
        exact folded
      · intro child root
        rw [foldOneBinopAux_tree] at root
        cases root
        exact tighter lead rfl

theorem rightAssociative_of_left {operator : Operator}
    (left : leftAssociative operator = true) :
    dylanPrecedence.rightAssociative operator = false := by
  show rightAssociative operator = false
  simpa [leftAssociative] using left

/-- `fold-tighter-binops` stops at an operator that the new one may follow. -/
theorem foldTighterBinops_wellFormed {newOp : Operator}
    {series : Series Record Operand} (wellFormed : series.WellFormed)
    (fits : FitsLeft newOp series.last) :
    (foldTighterBinops (operatorPrecedence newOp) (leftAssociative newOp)
        series).WellFormed ∧
      FitsLeft newOp (foldTighterBinops (operatorPrecedence newOp)
        (leftAssociative newOp) series).last ∧
      (foldTighterBinops (operatorPrecedence newOp) (leftAssociative newOp)
        series).first = series.first ∧
      (foldTighterBinops (operatorPrecedence newOp) (leftAssociative newOp)
        series).rest = series.rest := by
  induction series using foldTighterBinops.induct
      (operatorPrecedence newOp) (leftAssociative newOp) with
  | case1 fragment =>
      rw [foldTighterBinops]
      exact ⟨wellFormed, fits, rfl, rfl⟩
  | case2 previous operator argument tighter ih =>
      rw [foldTighterBinops, if_pos tighter]
      obtain ⟨sameFirst, sameRest⟩ :=
        foldOneBinop_operands previous operator argument
      have fitsFolded : FitsLeft newOp
          (foldOneBinop previous operator argument).last := by
        intro child root
        rw [foldOneBinop_last] at root
        cases root
        exact tighter.imp id fun same =>
          ⟨same.1.symm, rightAssociative_of_left same.2⟩
      obtain ⟨after, fitsAfter, firstAfter, restAfter⟩ :=
        ih wellFormed.foldOneBinop fitsFolded
      exact ⟨after, fitsAfter, firstAfter.trans sameFirst,
        restAfter.trans sameRest⟩
  | case3 previous operator argument looser =>
      rw [foldTighterBinops, if_neg looser]
      exact ⟨wellFormed, fits, rfl, rfl⟩

/-- Appending an operator and an operand keeps the invariant and the order of
the operands. -/
theorem appendBinop_wellFormed {series : Series Record Operand}
    (wellFormed : series.WellFormed) {newOp : Operator}
    (fits : FitsLeft newOp series.last) (leaf : Leaf Record Operand) :
    (appendBinop series newOp leaf.fragment).WellFormed ∧
      (appendBinop series newOp leaf.fragment).last = leaf.fragment ∧
      (appendBinop series newOp leaf.fragment).first = series.first ∧
      (appendBinop series newOp leaf.fragment).rest =
        series.rest ++ [(newOp, leaf)] := by
  have single : ∀ {series : Series Record Operand}, series.WellFormed →
      FitsLeft newOp series.last →
      (∀ lead, series.lead = some lead →
        dylanPrecedence.BindsRight lead newOp) →
      (Series.sequence series newOp leaf.fragment).WellFormed := by
    intro series before fitsLast ordered
    refine ⟨before, fitsLast, trivial, ?_, ordered⟩
    intro child root
    cases root
  induction series using appendBinop.induct newOp with
  | case1 fragment =>
      rw [appendBinop]
      refine ⟨single wellFormed fits ?_, rfl, rfl, rfl⟩
      intro lead found
      cases found
  | case2 previous leadOp argument shift =>
      rw [appendBinop, if_pos shift]
      refine ⟨single wellFormed fits ?_, rfl, rfl, rfl⟩
      intro lead found
      cases found
      refine shift.imp id fun same => ⟨same.1, ?_⟩
      have right : rightAssociative newOp = true := by
        simpa [leftAssociative] using same.2
      exact (dylanPrecedence.uniform same.1).trans right
  | case3 previous leadOp argument fold ih =>
      rw [appendBinop, if_neg fold]
      obtain ⟨sameFirst, sameRest⟩ :=
        foldOneBinop_operands previous leadOp argument
      have fitsFolded : FitsLeft newOp
          (foldOneBinop previous leadOp argument).last := by
        intro child root
        rw [foldOneBinop_last] at root
        cases root
        rw [not_or, not_and, Nat.not_lt] at fold
        rcases Nat.eq_or_lt_of_le fold.1 with same | tighter
        · refine Or.inr ⟨same, rightAssociative_of_left ?_⟩
          simpa using fold.2 same.symm
        · exact Or.inl tighter
      obtain ⟨reduced, fitsReduced, firstReduced, restReduced⟩ :=
        foldTighterBinops_wellFormed wellFormed.foldOneBinop fitsFolded
      obtain ⟨after, lastAfter, firstAfter, restAfter⟩ :=
        ih reduced fitsReduced
      refine ⟨after, lastAfter, ?_, ?_⟩
      · rw [firstAfter, firstReduced, sameFirst]
      · rw [restAfter, restReduced, sameRest]

/-- `binop-fragment` folds what waits. -/
theorem binopFragment_respects {series : Series Record Operand}
    (wellFormed : series.WellFormed) :
    Respects dylanPrecedence (binopFragment series).tree ∧
      (binopFragment series).tree.first = series.first ∧
      (binopFragment series).tree.rest = series.rest := by
  induction series using binopFragment.induct with
  | case1 fragment =>
      rw [binopFragment]
      exact ⟨wellFormed, rfl, rfl⟩
  | case2 previous operator argument ih =>
      rw [binopFragment]
      obtain ⟨sameFirst, sameRest⟩ :=
        foldOneBinop_operands previous operator argument
      obtain ⟨respects, first, rest⟩ := ih wellFormed.foldOneBinop
      exact ⟨respects, first.trans sameFirst, rest.trans sameRest⟩

/-! ## Series of operands -/

/-- Appending the operators and operands of a list one by one. -/
theorem foldl_appendBinop_wellFormed {series : Series Record Operand}
    {last : Leaf Record Operand} (wellFormed : series.WellFormed)
    (ends : series.last = last.fragment)
    (rest : List (Operator × Leaf Record Operand)) :
    let appended := (rest.map fun entry => (entry.1, entry.2.fragment)).foldl
      (fun series entry => appendBinop series entry.1 entry.2) series
    appended.WellFormed ∧ appended.first = series.first ∧
      appended.rest = series.rest ++ rest := by
  induction rest generalizing series last with
  | nil => exact ⟨wellFormed, rfl, by simp⟩
  | cons entry rest ih =>
      have fits : FitsLeft entry.1 series.last := by
        intro child root
        rw [ends] at root
        cases root
      obtain ⟨after, lastAfter, firstAfter, restAfter⟩ :=
        appendBinop_wellFormed wellFormed fits entry.2
      obtain ⟨final, first, more⟩ := ih after lastAfter
      refine ⟨final, first.trans firstAfter, ?_⟩
      rw [List.map_cons, List.foldl_cons, more, restAfter]
      simp

/-- Parsing a series of operands yields the only tree of it that respects the
precedence and the associativity of the operators. -/
theorem parseSeries_unique (first : Leaf Record Operand)
    (rest : List (Operator × Leaf Record Operand)) :
    let parsed := (parseSeries first.fragment
      (rest.map fun entry => (entry.1, entry.2.fragment))).tree
    parsed.first = first ∧ parsed.rest = rest ∧
      Respects dylanPrecedence parsed ∧
        ∀ tree : Tree Operator (Leaf Record Operand),
          tree.first = first → tree.rest = rest →
            Respects dylanPrecedence tree → tree = parsed := by
  intro parsed
  have start : (Series.fragment first.fragment).WellFormed := trivial
  obtain ⟨wellFormed, firstAfter, restAfter⟩ :=
    foldl_appendBinop_wellFormed start rfl rest
  obtain ⟨respects, sameFirst, sameRest⟩ := binopFragment_respects wellFormed
  have parsedFirst : parsed.first = first := sameFirst.trans firstAfter
  have parsedRest : parsed.rest = rest := sameRest.trans restAfter
  refine ⟨parsedFirst, parsedRest, respects, ?_⟩
  intro tree treeFirst treeRest treeRespects
  exact treeRespects.unique respects (treeFirst.trans parsedFirst.symm)
    (treeRest.trans parsedRest.symm)

end OpenDylan.Compiler.BinaryOperands
