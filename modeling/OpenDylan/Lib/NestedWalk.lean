import Mathlib.Data.List.Basic

/-!
# Walks through nested chains

A node has a successor and bodies nested in it, which are chains of their own
that end where the successor of the node is met.  `Visits` says which nodes a
walk from one node up to another meets, at any depth, and `Ends` that the walk
comes to an end.
-/

namespace OpenDylan.Lib.NestedWalk

variable {Node : Type} (next : Node → Option Node)
variable (bodies : Node → List Node)

/-! ## Walks -/

/-- The walk from `start` up to `stop` meets a node. -/
inductive Visits : Node → Option Node → Node → Prop where
  | here {start stop} (before : stop ≠ some start) :
      Visits start stop start
  | inside {start stop body node} (before : stop ≠ some start)
      (member : body ∈ bodies start) (visits : Visits body (next start) node) :
      Visits start stop node
  | later {start stop following node} (before : stop ≠ some start)
      (successor : next start = some following)
      (visits : Visits following stop node) :
      Visits start stop node

/-- The walk from `start` up to `stop` ends, in the bodies too. -/
inductive Ends : Node → Option Node → Prop where
  | stop (start) : Ends start (some start)
  | step {start stop}
      (inside : ∀ body ∈ bodies start, Ends body (next start))
      (later : ∀ following, next start = some following →
        Ends following stop) :
      Ends start stop

variable {next bodies}

theorem visits_iff {start node : Node} {stop : Option Node} :
    Visits next bodies start stop node ↔ stop ≠ some start ∧
      (node = start ∨
        (∃ body ∈ bodies start, Visits next bodies body (next start) node) ∨
        ∃ following, next start = some following ∧
          Visits next bodies following stop node) := by
  constructor
  · intro visits
    cases visits with
    | here before => exact ⟨before, Or.inl rfl⟩
    | inside before member visits =>
        exact ⟨before, Or.inr (Or.inl ⟨_, member, visits⟩)⟩
    | later before successor visits =>
        exact ⟨before, Or.inr (Or.inr ⟨_, successor, visits⟩)⟩
  · rintro ⟨before, rfl | ⟨body, member, visits⟩ |
      ⟨following, successor, visits⟩⟩
    · exact .here before
    · exact .inside before member visits
    · exact .later before successor visits

@[simp]
theorem not_visits_stop {start node : Node} :
    ¬Visits next bodies start (some start) node := by
  intro visits
  exact (visits_iff.mp visits).1 rfl

/-- The bodies of a node that is met can be walked. -/
theorem Ends.body {start node body : Node} {stop : Option Node}
    (ends : Ends next bodies start stop)
    (visits : Visits next bodies start stop node)
    (member : body ∈ bodies node) : Ends next bodies body (next node) := by
  induction visits with
  | here before =>
      cases ends with
      | stop => exact absurd rfl before
      | step inside later => exact inside body member
  | inside before nested visits ih =>
      cases ends with
      | stop => exact absurd rfl before
      | step inside later => exact ih (inside _ nested) member
  | later before successor visits ih =>
      cases ends with
      | stop => exact absurd rfl before
      | step inside later => exact ih (later _ successor) member

/-- What a body visits is visited. -/
theorem Visits.trans {start node body other : Node} {stop : Option Node}
    (visits : Visits next bodies start stop node)
    (member : body ∈ bodies node)
    (nested : Visits next bodies body (next node) other) :
    Visits next bodies start stop other := by
  induction visits with
  | here before => exact .inside before member nested
  | inside before outer visits ih =>
      exact .inside before outer (ih member nested)
  | later before successor visits ih =>
      exact .later before successor (ih member nested)

/-! ## Nodes under a guard -/

section Guards

variable (next bodies) (guarded : Node → Option Node)

/-- A node that the walk meets inside the guarded body of another one. -/
def Under (start : Node) (stop : Option Node) (node : Node) : Prop :=
  ∃ guard body, Visits next bodies start stop guard ∧
    guarded guard = some body ∧ Visits next bodies body (next guard) node

variable {next bodies guarded}

theorem under_iff {start node : Node} {stop : Option Node} :
    Under next bodies guarded start stop node ↔ stop ≠ some start ∧
      ((∃ body, guarded start = some body ∧
          Visits next bodies body (next start) node) ∨
        (∃ body ∈ bodies start,
          Under next bodies guarded body (next start) node) ∨
        ∃ following, next start = some following ∧
          Under next bodies guarded following stop node) := by
  constructor
  · rintro ⟨guard, body, visits, holds, nested⟩
    obtain ⟨before, rfl | ⟨outer, member, visits⟩ |
      ⟨following, successor, visits⟩⟩ := visits_iff.mp visits
    · exact ⟨before, Or.inl ⟨body, holds, nested⟩⟩
    · exact ⟨before, Or.inr (Or.inl
        ⟨outer, member, guard, body, visits, holds, nested⟩)⟩
    · exact ⟨before, Or.inr (Or.inr
        ⟨following, successor, guard, body, visits, holds, nested⟩)⟩
  · rintro ⟨before, ⟨body, holds, nested⟩ |
      ⟨outer, member, guard, body, visits, holds, nested⟩ |
      ⟨following, successor, guard, body, visits, holds, nested⟩⟩
    · exact ⟨start, body, .here before, holds, nested⟩
    · exact ⟨guard, body, .inside before member visits, holds, nested⟩
    · exact ⟨guard, body, .later before successor visits, holds, nested⟩

/-- Guarded bodies are bodies, so what is under a guard is met. -/
theorem Under.visits {start node : Node} {stop : Option Node}
    (isBody : ∀ {guard body}, guarded guard = some body →
      body ∈ bodies guard)
    (under : Under next bodies guarded start stop node) :
    Visits next bodies start stop node := by
  obtain ⟨guard, body, visits, holds, nested⟩ := under
  exact visits.trans (isBody holds) nested

end Guards

/-! ## Recursion with fuel -/

/-- What holds with enough fuel for each body of a node holds with enough fuel
for all of them. -/
theorem enough_forall {Holds : Node → Nat → Prop} {nodes : List Node}
    (enough : ∀ node ∈ nodes, ∃ least, ∀ fuel ≥ least, Holds node fuel) :
    ∃ least, ∀ fuel ≥ least, ∀ node ∈ nodes, Holds node fuel := by
  induction nodes with
  | nil => exact ⟨0, by simp⟩
  | cons node nodes ih =>
      obtain ⟨first, here⟩ := enough node (List.mem_cons_self ..)
      obtain ⟨rest, there⟩ := ih fun other member =>
        enough other (List.mem_cons_of_mem _ member)
      refine ⟨max first rest, fun fuel above other member => ?_⟩
      rcases List.mem_cons.mp member with rfl | later
      · exact here fuel (Nat.le_trans (Nat.le_max_left ..) above)
      · exact there fuel (Nat.le_trans (Nat.le_max_right ..) above) other later

/-- A step of the walk, where one unit of fuel is spent: the bodies and the
rest of the chain may use the fuel that is left. -/
theorem Ends.enough {Holds : Node → Option Node → Nat → Prop}
    {start : Node} {stop : Option Node}
    (ends : Ends next bodies start stop)
    (arrive : ∀ node fuel, Holds node (some node) (fuel + 1))
    (step : ∀ node last fuel, last ≠ some node →
      (∀ body ∈ bodies node, Holds body (next node) fuel) →
      (∀ following, next node = some following →
        Holds following last fuel) → Holds node last (fuel + 1)) :
    ∃ least, ∀ fuel ≥ least, Holds start stop fuel := by
  have positive : ∀ {fuel}, fuel ≥ 1 → ∃ less, fuel = less + 1 := by
    intro fuel above
    exact ⟨fuel - 1, by omega⟩
  induction ends with
  | stop node =>
      refine ⟨1, fun fuel above => ?_⟩
      obtain ⟨less, rfl⟩ := positive above
      exact arrive node less
  | @step node last inside later insideIH laterIH =>
      by_cases here : last = some node
      · refine ⟨1, fun fuel above => ?_⟩
        obtain ⟨less, rfl⟩ := positive above
        rw [here]
        exact arrive node less
      · obtain ⟨first, bodyHolds⟩ := enough_forall insideIH
        have tail : ∃ least, ∀ fuel ≥ least, ∀ following,
            next node = some following → Holds following last fuel := by
          cases successor : next node with
          | none => exact ⟨0, by simp⟩
          | some following =>
              obtain ⟨least, holds⟩ := laterIH following successor
              refine ⟨least, fun fuel above other same => ?_⟩
              rw [← Option.some.inj same]
              exact holds fuel above
        obtain ⟨second, restHolds⟩ := tail
        refine ⟨max first second + 1, fun fuel above => ?_⟩
        obtain ⟨less, rfl⟩ := positive (Nat.le_trans (by omega) above)
        apply step node last less here
        · exact bodyHolds less (by omega)
        · exact restHolds less (by omega)

end OpenDylan.Lib.NestedWalk
