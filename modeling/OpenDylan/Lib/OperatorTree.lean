import Mathlib.Data.List.Basic

/-!
# Trees of binary operators

A sequence of operands with a binary operator between any two neighbours has
many trees, but only one that respects the precedence and the associativity of
its operators.
-/

namespace OpenDylan.Lib.OperatorTree

variable {Operator Operand : Type}

/-! ## Trees and sequences -/

/-- A tree of binary operators over operands. -/
inductive Tree (Operator Operand : Type) where
  | leaf (operand : Operand)
  | node (operator : Operator) (left right : Tree Operator Operand)
deriving DecidableEq

/-- The leftmost operand. -/
def Tree.first : Tree Operator Operand → Operand
  | .leaf operand => operand
  | .node _ left _ => left.first

/-- The other operands in order, each with the operator before it. -/
def Tree.rest : Tree Operator Operand → List (Operator × Operand)
  | .leaf _ => []
  | .node operator left right =>
      left.rest ++ (operator, right.first) :: right.rest

/-- The operator at the root. -/
def Tree.root : Tree Operator Operand → Option Operator
  | .leaf _ => none
  | .node operator _ _ => some operator

/-! ## Precedence -/

/-- How tightly operators bind; operators of one precedence associate to the
same side. -/
structure Precedence (Operator : Type) where
  level : Operator → Nat
  rightAssociative : Operator → Bool
  uniform : ∀ {operator other}, level operator = level other →
    rightAssociative operator = rightAssociative other

variable (precedence : Precedence Operator)

/-- An operator may stand at the root of the left child of another one. -/
def Precedence.BindsLeft (operator child : Operator) : Prop :=
  precedence.level operator < precedence.level child ∨
    precedence.level operator = precedence.level child ∧
      precedence.rightAssociative operator = false

/-- An operator may stand at the root of the right child of another one. -/
def Precedence.BindsRight (operator child : Operator) : Prop :=
  precedence.level operator < precedence.level child ∨
    precedence.level operator = precedence.level child ∧
      precedence.rightAssociative operator = true

/-- Every operator of a tree binds looser than those of its children. -/
def Respects : Tree Operator Operand → Prop
  | .leaf _ => True
  | .node operator left right =>
      Respects left ∧ Respects right ∧
        (∀ child, left.root = some child →
          precedence.BindsLeft operator child) ∧
        (∀ child, right.root = some child →
          precedence.BindsRight operator child)

variable {precedence}

theorem Precedence.BindsLeft.le {operator child : Operator}
    (binds : precedence.BindsLeft operator child) :
    precedence.level operator ≤ precedence.level child := by
  rcases binds with looser | ⟨same, -⟩
  · exact Nat.le_of_lt looser
  · exact Nat.le_of_eq same

theorem Precedence.BindsRight.le {operator child : Operator}
    (binds : precedence.BindsRight operator child) :
    precedence.level operator ≤ precedence.level child := by
  rcases binds with looser | ⟨same, -⟩
  · exact Nat.le_of_lt looser
  · exact Nat.le_of_eq same

/-- What binds at least as tightly as a left child may be a left child. -/
theorem Precedence.BindsLeft.trans_le {operator child below : Operator}
    (binds : precedence.BindsLeft operator child)
    (tighter : precedence.level child ≤ precedence.level below) :
    precedence.BindsLeft operator below := by
  rcases binds with looser | ⟨same, left⟩
  · exact Or.inl (Nat.lt_of_lt_of_le looser tighter)
  · rcases Nat.eq_or_lt_of_le tighter with equal | lower
    · exact Or.inr ⟨same.trans equal, left⟩
    · exact Or.inl (same ▸ lower)

/-- What binds at least as tightly as a right child may be a right child. -/
theorem Precedence.BindsRight.trans_le {operator child below : Operator}
    (binds : precedence.BindsRight operator child)
    (tighter : precedence.level child ≤ precedence.level below) :
    precedence.BindsRight operator below := by
  rcases binds with looser | ⟨same, right⟩
  · exact Or.inl (Nat.lt_of_lt_of_le looser tighter)
  · rcases Nat.eq_or_lt_of_le tighter with equal | lower
    · exact Or.inr ⟨same.trans equal, right⟩
    · exact Or.inl (same ▸ lower)

/-- Two operators cannot each stand below the other, one to the left and one
to the right. -/
theorem Precedence.not_bindsLeft_and_bindsRight {operator other : Operator}
    (left : precedence.BindsLeft operator other)
    (right : precedence.BindsRight other operator) : False := by
  have equal : precedence.level operator = precedence.level other :=
    Nat.le_antisymm left.le right.le
  have alike := precedence.uniform equal
  rcases left with looser | ⟨-, leftward⟩
  · exact Nat.lt_irrefl _ (equal ▸ looser)
  · rcases right with looser | ⟨-, rightward⟩
    · exact Nat.lt_irrefl _ (equal ▸ looser)
    · rw [leftward, rightward] at alike
      exact absurd alike (by simp)

/-! ## Uniqueness -/

/-- The root of a tree binds loosest. -/
theorem Respects.root_le {tree : Tree Operator Operand} {operator : Operator}
    (respects : Respects precedence tree) (root : tree.root = some operator) :
    ∀ entry ∈ tree.rest,
      precedence.level operator ≤ precedence.level entry.1 := by
  induction tree generalizing operator with
  | leaf operand => simp [Tree.root] at root
  | node top left right leftIh rightIh =>
      obtain ⟨leftRespects, rightRespects, bindsLeft, bindsRight⟩ := respects
      cases root
      intro entry member
      rw [Tree.rest, List.mem_append, List.mem_cons] at member
      rcases member with inLeft | here | inRight
      · cases child : left.root with
        | none =>
            cases left with
            | leaf operand => simp [Tree.rest] at inLeft
            | node below _ _ => simp [Tree.root] at child
        | some below =>
            exact Nat.le_trans (bindsLeft below child).le
              (leftIh leftRespects child entry inLeft)
      · subst here
        exact Nat.le_refl _
      · cases child : right.root with
        | none =>
            cases right with
            | leaf operand => simp [Tree.rest] at inRight
            | node below _ _ => simp [Tree.root] at child
        | some below =>
            exact Nat.le_trans (bindsRight below child).le
              (rightIh rightRespects child entry inRight)

theorem Tree.root_isSome_of_mem {tree : Tree Operator Operand}
    {entry : Operator × Operand} (member : entry ∈ tree.rest) :
    ∃ operator, tree.root = some operator := by
  cases tree with
  | leaf operand => simp [Tree.rest] at member
  | node operator left right => exact ⟨operator, rfl⟩

/-- All operators of the left child may stand there. -/
theorem Respects.bindsLeft {operator : Operator}
    {left right : Tree Operator Operand}
    (respects : Respects precedence (.node operator left right))
    {entry : Operator × Operand} (member : entry ∈ left.rest) :
    precedence.BindsLeft operator entry.1 := by
  obtain ⟨child, root⟩ := Tree.root_isSome_of_mem member
  exact (respects.2.2.1 child root).trans_le
    (respects.1.root_le root entry member)

/-- All operators of the right child may stand there. -/
theorem Respects.bindsRight {operator : Operator}
    {left right : Tree Operator Operand}
    (respects : Respects precedence (.node operator left right))
    {entry : Operator × Operand} (member : entry ∈ right.rest) :
    precedence.BindsRight operator entry.1 := by
  obtain ⟨child, root⟩ := Tree.root_isSome_of_mem member
  exact (respects.2.2.2 child root).trans_le
    (respects.2.1.root_le root entry member)

/-- The roots of two trees of one sequence are at the same place: otherwise
each would stand below the other. -/
theorem Respects.root_unique {operator operator' : Operator}
    {left right left' right' : Tree Operator Operand}
    (respects : Respects precedence (.node operator left right))
    (respects' : Respects precedence (.node operator' left' right'))
    (same : (Tree.node operator left right).rest =
      (Tree.node operator' left' right').rest) :
    ¬left.rest.length < left'.rest.length := by
  intro shorter
  rw [Tree.rest, Tree.rest] at same
  have here := congrArg (fun entries => entries[left.rest.length]?) same
  have there := congrArg (fun entries => entries[left'.rest.length]?) same
  simp only [List.getElem?_append_right (Nat.le_refl _), Nat.sub_self,
    List.getElem?_cons_zero, List.getElem?_append_left shorter] at here
  simp only [List.getElem?_append_right (Nat.le_of_lt shorter),
    List.getElem?_append_right (Nat.le_refl _), Nat.sub_self,
    List.getElem?_cons_zero] at there
  have below : (operator, right.first) ∈ left'.rest :=
    List.mem_of_getElem? here.symm
  obtain ⟨gap, distance⟩ := Nat.exists_eq_add_of_lt shorter
  have index : left'.rest.length - left.rest.length = gap + 1 := by omega
  rw [index, List.getElem?_cons_succ] at there
  have above : (operator', right'.first) ∈ right.rest :=
    List.mem_of_getElem? there
  exact Precedence.not_bindsLeft_and_bindsRight
    (respects'.bindsLeft below) (respects.bindsRight above)

/-- A sequence has at most one tree that respects the precedence of its
operators. -/
theorem Respects.unique {tree tree' : Tree Operator Operand}
    (respects : Respects precedence tree)
    (respects' : Respects precedence tree')
    (sameFirst : tree.first = tree'.first)
    (sameRest : tree.rest = tree'.rest) : tree = tree' := by
  induction tree generalizing tree' with
  | leaf operand =>
      cases tree' with
      | leaf operand' => exact congrArg Tree.leaf sameFirst
      | node operator' left' right' =>
          rw [Tree.rest, Tree.rest] at sameRest
          simp at sameRest
  | node operator left right leftIh rightIh =>
      cases tree' with
      | leaf operand' =>
          rw [Tree.rest, Tree.rest] at sameRest
          simp at sameRest
      | node operator' left' right' =>
          have lengths : left.rest.length = left'.rest.length :=
            Nat.le_antisymm
              (Nat.le_of_not_lt
                (respects'.root_unique respects sameRest.symm))
              (Nat.le_of_not_lt (respects.root_unique respects' sameRest))
          rw [Tree.rest, Tree.rest] at sameRest
          obtain ⟨sameLeft, sameRight⟩ :=
            List.append_inj sameRest lengths
          simp only [List.cons.injEq, Prod.mk.injEq] at sameRight
          obtain ⟨⟨rfl, sameSecond⟩, sameTail⟩ := sameRight
          rw [leftIh respects.1 respects'.1 sameFirst sameLeft,
            rightIh respects.2.1 respects'.2.1 sameSecond sameTail]

end OpenDylan.Lib.OperatorTree
