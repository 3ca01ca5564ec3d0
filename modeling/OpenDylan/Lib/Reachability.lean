import Mathlib.Data.List.Basic
import Mathlib.Logic.Relation

/-!
# Nodes found from others

A depth-first traversal that collects the nodes it finds, in a graph given by
the list of the next nodes of every node.  Each level of the traversal has found
one more node than the level above it, so the number of nodes bounds the depth.
-/

namespace OpenDylan.Lib.Reachability

variable {Node : Type}

/-! ## What a traversal finds -/

/-- What a traversal of `nodes` adds to `found`. -/
structure Finds (next : Node → List Node) (nodes found result : List Node) :
    Prop where
  keeps : ∀ node ∈ found, node ∈ result
  starts : ∀ node ∈ nodes, node ∈ result
  closed : ∀ node ∈ result, node ∈ found ∨ ∀ other ∈ next node, other ∈ result
  reached : ∀ node ∈ result, node ∈ found ∨
    ∃ start ∈ nodes,
      Relation.ReflTransGen (fun lower upper => upper ∈ next lower) start node

theorem Finds.nil (next : Node → List Node) (found : List Node) :
    Finds next [] found found where
  keeps _ isFound := isFound
  starts _ member := by cases member
  closed _ isFound := .inl isFound
  reached _ isFound := .inl isFound

/-- A node that is found adds nothing. -/
theorem Finds.cons_old {next : Node → List Node} {node : Node}
    {nodes found result : List Node} (old : node ∈ found)
    (finds : Finds next nodes found result) :
    Finds next (node :: nodes) found result where
  keeps := finds.keeps
  starts := by
    intro other member
    rcases List.mem_cons.mp member with rfl | member
    · exact finds.keeps other old
    · exact finds.starts other member
  closed := finds.closed
  reached := by
    intro other isResult
    apply (finds.reached other isResult).imp id
    rintro ⟨start, member, path⟩
    exact ⟨start, List.mem_cons_of_mem node member, path⟩

/-- A new node adds itself, what is found from it, and what is found next. -/
theorem Finds.cons_new {next : Node → List Node} {node : Node}
    {nodes found middle result : List Node}
    (inner : Finds next (next node) (node :: found) middle)
    (finds : Finds next nodes middle result) :
    Finds next (node :: nodes) found result where
  keeps := by
    intro other isFound
    apply finds.keeps
    apply inner.keeps
    exact List.mem_cons_of_mem node isFound
  starts := by
    intro other member
    rcases List.mem_cons.mp member with rfl | member
    · exact finds.keeps other (inner.keeps other List.mem_cons_self)
    · exact finds.starts other member
  closed := by
    intro other isResult
    rcases finds.closed other isResult with isMiddle | closed
    · rcases inner.closed other isMiddle with isFound | closed
      · rcases List.mem_cons.mp isFound with rfl | isFound
        · right
          intro above member
          exact finds.keeps above (inner.starts above member)
        · exact .inl isFound
      · right
        intro above member
        exact finds.keeps above (closed above member)
    · exact .inr closed
  reached := by
    intro other isResult
    rcases finds.reached other isResult with isMiddle | ⟨start, member, path⟩
    · rcases inner.reached other isMiddle with isFound | ⟨start, member, path⟩
      · rcases List.mem_cons.mp isFound with rfl | isFound
        · exact .inr ⟨other, List.mem_cons_self, .refl⟩
        · exact .inl isFound
      · exact .inr ⟨node, List.mem_cons_self, .head member path⟩
    · exact .inr ⟨start, List.mem_cons_of_mem node member, path⟩

/-! ## The traversal -/

variable [DecidableEq Node]

/-- Add to `found` what is found from `nodes`, to a depth of `fuel`. -/
def visit (next : Node → List Node) : Nat → List Node → List Node → List Node
  | 0, _, found => found
  | fuel + 1, nodes, found =>
      nodes.foldl (fun found node =>
        if node ∈ found then
          found
        else
          visit next fuel (next node) (node :: found)) found

/-- The nodes that are not found yet. -/
def missing (all found : List Node) : Nat :=
  (all.filter fun node => node ∉ found).length

theorem missing_sublist {all found later : List Node}
    (grows : ∀ node ∈ found, node ∈ later) :
    (all.filter fun node => node ∉ later).Sublist
      (all.filter fun node => node ∉ found) := by
  apply List.monotone_filter_right
  intro node notLater
  rw [decide_eq_true_eq] at notLater ⊢
  intro isFound
  exact notLater (grows node isFound)

theorem missing_le {all found later : List Node}
    (grows : ∀ node ∈ found, node ∈ later) :
    missing all later ≤ missing all found :=
  (missing_sublist grows).length_le

theorem missing_cons {all found : List Node} {node : Node}
    (member : node ∈ all) (new : node ∉ found) :
    missing all (node :: found) < missing all found := by
  have sublist := @missing_sublist Node _ all found (node :: found)
    fun _ => List.mem_cons_of_mem node
  apply Nat.lt_of_le_of_ne sublist.length_le
  intro same
  have equal := sublist.eq_of_length same
  have isMissing : node ∈ all.filter fun node => node ∉ found := by
    simp [member, new]
  rw [← equal] at isMissing
  simp at isMissing

theorem mem_of_missing_eq_zero {all found : List Node} {node : Node}
    (member : node ∈ all) (none : missing all found = 0) : node ∈ found := by
  by_contra new
  have lt := missing_cons member new
  omega

/-- With fuel for the nodes that are missing a traversal finds what it should. -/
theorem visit_finds {next : Node → List Node} {all : List Node}
    (complete : ∀ node, node ∈ all) (fuel : Nat) (nodes found : List Node)
    (enough : missing all found ≤ fuel) :
    Finds next nodes found (visit next fuel nodes found) := by
  induction fuel generalizing nodes found with
  | zero =>
      have every : ∀ node, node ∈ found := fun node =>
        mem_of_missing_eq_zero (complete node) (Nat.le_zero.mp enough)
      exact ⟨fun _ isFound => isFound, fun node _ => every node,
        fun node _ => .inl (every node), fun node _ => .inl (every node)⟩
  | succ fuel ih =>
      rw [visit]
      induction nodes generalizing found with
      | nil => exact Finds.nil next found
      | cons node nodes ihNodes =>
          rw [List.foldl_cons]
          by_cases old : node ∈ found
          · rw [if_pos old]
            exact Finds.cons_old old (ihNodes found enough)
          · rw [if_neg old]
            have fewer := missing_cons (complete node) old
            have inner := ih (next node) (node :: found) (by omega)
            apply Finds.cons_new inner
            apply ihNodes
            have grows := @missing_le Node _ all _ _ inner.keeps
            omega

/-- What is found from the next nodes of a node, and the node, is what can be
reached from it. -/
theorem mem_visit_iff {next : Node → List Node} {all : List Node}
    (complete : ∀ node, node ∈ all) {fuel : Nat} {start node : Node}
    (enough : missing all [start] ≤ fuel) :
    node ∈ visit next fuel (next start) [start] ↔
      Relation.ReflTransGen (fun lower upper => upper ∈ next lower) start
        node := by
  have finds := @visit_finds Node _ next all complete fuel (next start) [start]
    enough
  constructor
  · intro member
    rcases finds.reached node member with isStart | ⟨second, isNext, path⟩
    · rw [List.mem_singleton.mp isStart]
    · exact .head isNext path
  · intro path
    induction path with
    | refl => exact finds.keeps start (List.mem_singleton_self start)
    | @tail lower upper _ isNext ih =>
        rcases finds.closed lower ih with isStart | closed
        · rw [List.mem_singleton.mp isStart] at isNext
          exact finds.starts upper isNext
        · exact closed upper isNext

end OpenDylan.Lib.Reachability
