import Mathlib.Data.Fintype.Pigeonhole

/-!
# Pursuit along links

Every node has at most one link to another.  The links from a node go round,
or they come to a node without one.  They go round just when a walker that
takes two links at a time meets one that takes a single link.
-/

namespace OpenDylan.Lib.Pursuit

variable {Node : Type} {next : Node → Option Node} {start : Node}

/-! ## Following links -/

/-- The node that `count` links lead to. -/
def after (next : Node → Option Node) : Nat → Node → Option Node
  | 0, node => some node
  | count + 1, node => (next node).bind (after next count)

@[simp]
theorem after_zero (node : Node) : after next 0 node = some node := rfl

theorem after_add (first second : Nat) (node : Node) :
    after next (first + second) node =
      (after next first node).bind (after next second) := by
  induction first generalizing node with
  | zero => simp
  | succ first inductionHypothesis =>
      rw [Nat.succ_add, after, after, Option.bind_assoc]
      congr 1
      funext other
      exact inductionHypothesis other

theorem after_add_of_some {first : Nat} {node other : Node}
    (reached : after next first node = some other) (second : Nat) :
    after next (first + second) node = after next second other := by
  rw [after_add, reached, Option.bind_some]

theorem after_succ {count : Nat} {node other : Node}
    (reached : after next count node = some other) :
    after next (count + 1) node = next other := by
  rw [after_add_of_some reached, after]
  cases next other <;> rfl

/-- Who gets to a node has been at all the nodes before it. -/
theorem after_of_le {count total : Nat} {node last : Node}
    (reached : after next total node = some last) (below : count ≤ total) :
    ∃ other, after next count node = some other := by
  cases between : after next count node with
  | some other => exact ⟨other, rfl⟩
  | none =>
      rw [← Nat.add_sub_cancel' below, after_add, between] at reached
      cases reached

/-! ## Cycles -/

/-- The links from a node go round: a tail leads to a node that leads back to
itself. -/
def Cyclic (next : Node → Option Node) (start : Node) : Prop :=
  ∃ tail period node, 0 < period ∧ after next tail start = some node ∧
    after next period node = some node

theorem after_mul {period : Nat} {node : Node}
    (round : after next period node = some node) (times : Nat) :
    after next (period * times) node = some node := by
  induction times with
  | zero => rfl
  | succ times inductionHypothesis =>
      rw [Nat.mul_succ, after_add_of_some inductionHypothesis, round]

/-- On a cycle there is always a next node. -/
theorem Cyclic.after_some (cyclic : Cyclic next start) (count : Nat) :
    ∃ node, after next count start = some node := by
  rcases cyclic with ⟨tail, period, node, positive, reached, round⟩
  have far : after next (tail + period * count) start = some node := by
    rw [after_add_of_some reached, after_mul round]
  apply after_of_le far
  exact Nat.le_add_left_of_le (Nat.le_mul_of_pos_left count positive)

/-- After some time the fast walker is where the slow one is. -/
theorem Cyclic.meets (cyclic : Cyclic next start) :
    ∃ count node, 0 < count ∧ after next count start = some node ∧
      after next (2 * count) start = some node := by
  have always := cyclic.after_some
  rcases cyclic with ⟨tail, period, node, positive, reached, round⟩
  have late : tail < period * (tail + 1) :=
    Nat.lt_of_lt_of_le (Nat.lt_succ_self tail)
      (Nat.le_mul_of_pos_left (tail + 1) positive)
  rcases always (period * (tail + 1)) with ⟨other, here⟩
  have onCycle : after next (period * (tail + 1) - tail) node =
      some other := by
    rw [← after_add_of_some reached, Nat.add_sub_cancel' late.le, here]
  have again : after next (period * (tail + 1)) other = some other := by
    rw [← after_add_of_some onCycle, Nat.add_comm,
      after_add_of_some (after_mul round (tail + 1)), onCycle]
  apply Exists.intro (period * (tail + 1))
  apply Exists.intro other
  refine ⟨Nat.zero_lt_of_lt late, here, ?_⟩
  rw [Nat.two_mul, after_add_of_some here, again]

/-- Where the two walkers meet, the links go round. -/
theorem cyclic_of_meeting {count : Nat} {node : Node} (positive : 0 < count)
    (slow : after next count start = some node)
    (fast : after next (2 * count) start = some node) :
    Cyclic next start := by
  rw [Nat.two_mul, after_add_of_some slow] at fast
  exact ⟨count, count, node, positive, slow, fast⟩

/-- Among finitely many nodes there is no third way. -/
theorem ends_or_cyclic [Finite Node] (next : Node → Option Node)
    (start : Node) :
    (∃ count node, after next count start = some node ∧ next node = none) ∨
      Cyclic next start := by
  by_cases always : ∀ count, ∃ node, after next count start = some node
  · right
    choose position reached using always
    rcases Finite.exists_ne_map_eq_of_infinite position with
      ⟨left, right, different, same⟩
    wlog order : left < right generalizing left right with swapped
    · exact swapped right left different.symm same.symm
        (Nat.lt_of_le_of_ne (Nat.le_of_not_lt order) different.symm)
    have round : after next (right - left) (position left) =
        some (position left) := by
      rw [← after_add_of_some (reached left), Nat.add_sub_cancel' order.le,
        reached right, same]
    exact ⟨left, right - left, position left, Nat.sub_pos_of_lt order,
      reached left, round⟩
  · left
    have missing : ∃ count, after next count start = none := by
      rcases not_forall.mp always with ⟨count, absent⟩
      apply Exists.intro count
      apply Option.eq_none_iff_forall_ne_some.mpr
      intro node here
      exact absent ⟨node, here⟩
    rcases missing with ⟨count, absent⟩
    induction count with
    | zero => cases absent
    | succ count inductionHypothesis =>
        cases before : after next count start with
        | none => exact inductionHypothesis before
        | some node =>
            rw [after_succ before] at absent
            exact ⟨count, node, before, absent⟩

end OpenDylan.Lib.Pursuit
