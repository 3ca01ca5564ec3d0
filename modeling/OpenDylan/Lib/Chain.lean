import Mathlib.Data.List.Nodup

/-!
# Singly linked chains

A chain is read off a successor function: `Segment next start nodes stop` says
that following `next` from `start` visits exactly `nodes`, in this order, and
arrives at `stop`.  Pointer programs update the successor function at single
nodes, so the lemmas here are frame rules (an update away from the segment)
and the two splicing rules (an update at the last node, and the removal of one
node by redirecting its predecessor).
-/

namespace OpenDylan.Lib.Chain

variable {Node : Type*}

/-- Following `next` from `start` visits `nodes` and arrives at `stop`. -/
def Segment (next : Node → Option Node) :
    Option Node → List Node → Option Node → Prop
  | start, [], stop => start = stop
  | start, node :: nodes, stop =>
      start = some node ∧ Segment next (next node) nodes stop

@[simp]
theorem segment_nil {next : Node → Option Node} {start stop : Option Node} :
    Segment next start [] stop ↔ start = stop :=
  Iff.rfl

@[simp]
theorem segment_cons {next : Node → Option Node} {start stop : Option Node}
    {node : Node} {nodes : List Node} :
    Segment next start (node :: nodes) stop ↔
      start = some node ∧ Segment next (next node) nodes stop :=
  Iff.rfl

theorem segment_append {next : Node → Option Node}
    {start stop : Option Node} {front back : List Node} :
    Segment next start (front ++ back) stop ↔
      ∃ middle, Segment next start front middle ∧
        Segment next middle back stop := by
  induction front generalizing start with
  | nil => simp
  | cons node front ih =>
      simp only [List.cons_append, segment_cons, ih]
      constructor
      · rintro ⟨first, middle, before, after⟩
        exact ⟨middle, ⟨first, before⟩, after⟩
      · rintro ⟨middle, ⟨first, before⟩, after⟩
        exact ⟨first, middle, before, after⟩

/-- Frame rule: only the successors of the visited nodes matter. -/
theorem segment_congr {before after : Node → Option Node}
    {start stop : Option Node} {nodes : List Node}
    (agree : ∀ node ∈ nodes, after node = before node)
    (chain : Segment before start nodes stop) :
    Segment after start nodes stop := by
  induction nodes generalizing start with
  | nil => exact chain
  | cons node nodes ih =>
      refine ⟨chain.1, ?_⟩
      rw [agree node (by simp)]
      exact ih (fun other member =>
        agree other (List.mem_cons_of_mem _ member)) chain.2

/-- Collect the nodes of a chain, following at most `fuel` links. -/
def walk (next : Node → Option Node) : Nat → Option Node → List Node
  | 0, _ => []
  | _ + 1, none => []
  | fuel + 1, some node => node :: walk next fuel (next node)

theorem walk_of_segment {next : Node → Option Node}
    {start : Option Node} {nodes : List Node} {fuel : Nat}
    (chain : Segment next start nodes none)
    (enough : nodes.length ≤ fuel) :
    walk next fuel start = nodes := by
  induction nodes generalizing start fuel with
  | nil =>
      rw [segment_nil] at chain
      subst chain
      cases fuel <;> rfl
  | cons node nodes ih =>
      obtain ⟨rfl, rest⟩ := chain
      cases fuel with
      | zero => simp at enough
      | succ fuel =>
          simp only [walk]
          rw [ih rest (by simpa using enough)]

section Update

variable [DecidableEq Node]

/-- Frame rule: a successor changed outside the segment does not matter. -/
theorem segment_update_of_notMem {next : Node → Option Node}
    {start stop target : Option Node} {changed : Node} {nodes : List Node}
    (away : changed ∉ nodes) :
    Segment (Function.update next changed target) start nodes stop ↔
      Segment next start nodes stop := by
  have agree : ∀ node ∈ nodes,
      Function.update next changed target node = next node := by
    intro node member
    apply Function.update_of_ne
    rintro rfl
    exact away member
  constructor
  · exact segment_congr fun node member => (agree node member).symm
  · exact segment_congr agree

/-- Redirecting the last node of a segment moves the segment's stop. -/
theorem segment_update_last {next : Node → Option Node}
    {start stop target : Option Node} {last : Node} {nodes : List Node}
    (chain : Segment next start (nodes ++ [last]) stop)
    (fresh : last ∉ nodes) :
    Segment (Function.update next last target) start
      (nodes ++ [last]) target := by
  obtain ⟨middle, before, rfl, -⟩ := segment_append.mp chain
  refine segment_append.mpr ⟨some last, ?_, rfl, ?_⟩
  · exact (segment_update_of_notMem fresh).mpr before
  · simp

/-- Bypassing the nodes after `previous` by redirecting `previous`. -/
theorem segment_bypass {next : Node → Option Node}
    {start stop : Option Node} {previous : Node}
    {front removed back : List Node} {middle : Option Node}
    (chain : Segment next start (front ++ previous :: (removed ++ back)) stop)
    (distinct : (front ++ previous :: (removed ++ back)).Nodup)
    (after : Segment next middle back stop) :
    Segment (Function.update next previous middle) start
      (front ++ previous :: back) stop := by
  obtain ⟨_, before, rfl, -⟩ := segment_append.mp chain
  have parts := List.nodup_append.mp distinct
  have fresh : previous ∉ front := fun member =>
    parts.2.2 previous member previous (by simp) rfl
  have later : previous ∉ back := fun member =>
    (List.nodup_cons.mp parts.2.1).1 (List.mem_append_right _ member)
  refine segment_append.mpr ⟨some previous, ?_, rfl, ?_⟩
  · exact (segment_update_of_notMem fresh).mpr before
  · rw [Function.update_self]
    exact (segment_update_of_notMem later).mpr after

/-- Removing the node after `previous` by redirecting `previous`. -/
theorem segment_unlink {next : Node → Option Node}
    {start stop : Option Node} {previous removed : Node}
    {front back : List Node}
    (chain : Segment next start (front ++ previous :: removed :: back) stop)
    (distinct : (front ++ previous :: removed :: back).Nodup) :
    Segment (Function.update next previous (next removed)) start
      (front ++ previous :: back) stop := by
  obtain ⟨_, -, rfl, -, after⟩ := segment_append.mp chain
  exact @segment_bypass _ _ _ _ _ _ front [removed] back _ chain distinct after

end Update

end OpenDylan.Lib.Chain
