import Mathlib.Data.Set.Finite.Basic

/-!
# Iterations that enumerate a set of integers

An iteration has a state to start in, a next state for each state, a test for
the end, and an element for each state before the end.  It enumerates a set in
order if every step goes to the next member.
-/

namespace OpenDylan.Lib.Enumeration

/-- An iteration over integers. -/
structure Iteration (State : Type) where
  start : State
  next : State → State
  finished : State → Prop
  element : State → Int

variable {State : Type}

namespace Iteration

/-- The state after a number of steps. -/
def after (iteration : Iteration State) : Nat → State
  | 0 => iteration.start
  | count + 1 => iteration.next (iteration.after count)

/-- An iteration has not ended after a number of steps, nor before. -/
def Visits (iteration : Iteration State) (count : Nat) : Prop :=
  ∀ earlier, earlier ≤ count → ¬ iteration.finished (iteration.after earlier)

/-- The same states with the opposites of the elements. -/
def opposite (iteration : Iteration State) : Iteration State :=
  { iteration with element := fun state => -iteration.element state }

end Iteration

/-- The members of a set are the elements before the end, each comes before
those after it, and there is an end if the set is finite. -/
structure Enumerates (iteration : Iteration State) (before : Int → Int → Prop)
    (members : Set Int) : Prop where
  ordered : ∀ count, iteration.Visits (count + 1) →
    before (iteration.element (iteration.after count))
      (iteration.element (iteration.after (count + 1)))
  exact : ∀ member, member ∈ members ↔ ∃ count, iteration.Visits count ∧
    iteration.element (iteration.after count) = member
  ends : members.Finite → ∃ count, iteration.finished (iteration.after count)

variable {iteration : Iteration State} {members : Set Int}

/-- An iteration enumerates one set only. -/
theorem Enumerates.iff_eq {before : Int → Int → Prop} {others : Set Int}
    (enumerates : Enumerates iteration before members) :
    Enumerates iteration before others ↔ members = others := by
  constructor
  · intro further
    ext member
    rw [enumerates.exact, further.exact]
  · rintro rfl
    exact enumerates

theorem Iteration.visits_succ (count : Nat) :
    iteration.Visits (count + 1) ↔ iteration.Visits count ∧
      ¬ iteration.finished (iteration.after (count + 1)) := by
  constructor
  · intro visits
    exact ⟨fun earlier le => visits earlier (by omega),
      visits (count + 1) (Nat.le_refl _)⟩
  · rintro ⟨visits, goesOn⟩ earlier le
    rcases Nat.lt_or_ge count earlier with past | within
    · have same : earlier = count + 1 := by omega
      rwa [same]
    · exact visits earlier within

/-- Every step goes to the least member that is left. -/
structure Ascends (iteration : Iteration State) (members : Set Int)
    (invariant : State → Prop) : Prop where
  start : invariant iteration.start
  keeps : ∀ state, invariant state → ¬ iteration.finished state →
    invariant (iteration.next state)
  member : ∀ state, invariant state → ¬ iteration.finished state →
    iteration.element state ∈ members
  first : ∀ member ∈ members, ¬ iteration.finished iteration.start ∧
    iteration.element iteration.start ≤ member
  least : ∀ state, invariant state → ¬ iteration.finished state →
    ∀ member ∈ members, iteration.element state < member →
      ¬ iteration.finished (iteration.next state) ∧
        iteration.element (iteration.next state) ≤ member
  grows : ∀ state, invariant state → ¬ iteration.finished state →
    ¬ iteration.finished (iteration.next state) →
      iteration.element state < iteration.element (iteration.next state)

namespace Ascends

variable {invariant : State → Prop}

theorem invariant_after (ascends : Ascends iteration members invariant)
    {count : Nat} (visits : iteration.Visits count) :
    invariant (iteration.after count) := by
  induction count with
  | zero => exact ascends.start
  | succ count inductionHypothesis =>
      have earlier := ((Iteration.visits_succ count).mp visits).1
      exact ascends.keeps _ (inductionHypothesis earlier)
        (earlier count (Nat.le_refl _))

theorem ordered (ascends : Ascends iteration members invariant) {count : Nat}
    (visits : iteration.Visits (count + 1)) :
    iteration.element (iteration.after count) <
      iteration.element (iteration.after (count + 1)) := by
  obtain ⟨earlier, goesOn⟩ := (Iteration.visits_succ count).mp visits
  exact ascends.grows _ (ascends.invariant_after earlier)
    (earlier count (Nat.le_refl _)) goesOn

/-- A member has been visited, or is still ahead. -/
theorem visited_or_ahead (ascends : Ascends iteration members invariant)
    {member : Int} (isMember : member ∈ members) (count : Nat) :
    (∃ earlier, iteration.Visits earlier ∧
      iteration.element (iteration.after earlier) = member) ∨
    (iteration.Visits count ∧
      iteration.element iteration.start + count ≤
        iteration.element (iteration.after count) ∧
      iteration.element (iteration.after count) ≤ member) := by
  induction count with
  | zero =>
      obtain ⟨goesOn, le⟩ := ascends.first member isMember
      refine .inr ⟨?_, ?_, le⟩
      · intro earlier none
        have same : earlier = 0 := by omega
        rwa [same]
      · show iteration.element iteration.start + 0 ≤ _
        exact Int.le_of_eq (Int.add_zero _)
  | succ count inductionHypothesis =>
      rcases inductionHypothesis with visited | ⟨visits, far, ahead⟩
      · exact .inl visited
      rcases Int.lt_or_eq_of_le ahead with less | here
      · have holds := ascends.invariant_after visits
        have goesOn := visits count (Nat.le_refl _)
        obtain ⟨nextGoesOn, nextAhead⟩ :=
          ascends.least _ holds goesOn member isMember less
        have grows := ascends.grows _ holds goesOn nextGoesOn
        refine .inr ⟨(Iteration.visits_succ count).mpr ⟨visits, nextGoesOn⟩,
          ?_, nextAhead⟩
        show _ ≤ iteration.element (iteration.next (iteration.after count))
        push_cast
        omega
      · exact .inl ⟨count, visits, here⟩

/-- Elements grow by at least one a step, so every member is reached. -/
theorem visited (ascends : Ascends iteration members invariant)
    {member : Int} (isMember : member ∈ members) :
    ∃ count, iteration.Visits count ∧
      iteration.element (iteration.after count) = member := by
  obtain ⟨-, bounded⟩ := ascends.first member isMember
  have steps := ascends.visited_or_ahead isMember
    ((member - iteration.element iteration.start).toNat + 1)
  rcases steps with visited | ⟨-, far, ahead⟩
  · exact visited
  · omega

theorem enumerates (ascends : Ascends iteration members invariant) :
    Enumerates iteration (· < ·) members where
  ordered count visits := ascends.ordered visits
  exact member := by
    constructor
    · exact ascends.visited
    · rintro ⟨count, visits, rfl⟩
      exact ascends.member _ (ascends.invariant_after visits)
        (visits count (Nat.le_refl _))
  ends finite := by
    by_contra unending
    push Not at unending
    have visits : ∀ count, iteration.Visits count :=
      fun count earlier _ => unending earlier
    have increasing : StrictMono fun count =>
        iteration.element (iteration.after count) :=
      strictMono_nat_of_lt_succ fun count => ascends.ordered (visits (count + 1))
    refine Set.infinite_of_injective_forall_mem increasing.injective ?_ finite
    intro count
    exact ascends.member _ (ascends.invariant_after (visits count))
      (visits count count (Nat.le_refl _))

end Ascends

/-! ## Descending iterations -/

theorem Iteration.after_opposite (count : Nat) :
    iteration.opposite.after count = iteration.after count := by
  induction count with
  | zero => rfl
  | succ count inductionHypothesis =>
      show iteration.next (iteration.opposite.after count) = _
      rw [inductionHypothesis]
      rfl

theorem Iteration.visits_opposite (count : Nat) :
    iteration.opposite.Visits count ↔ iteration.Visits count := by
  unfold Iteration.Visits
  simp only [Iteration.after_opposite]
  rfl

/-- What enumerates the opposites in ascending order enumerates in descending
order. -/
theorem Enumerates.of_opposite
    (enumerates : Enumerates iteration.opposite (· < ·) (Neg.neg '' members)) :
    Enumerates iteration (· > ·) members where
  ordered count visits := by
    have ordered := enumerates.ordered count
      ((Iteration.visits_opposite _).mpr visits)
    rw [Iteration.after_opposite, Iteration.after_opposite] at ordered
    exact Int.neg_lt_neg_iff.mp ordered
  exact member := by
    have opposites := enumerates.exact (-member)
    rw [Set.mem_image] at opposites
    constructor
    · intro isMember
      obtain ⟨count, visits, same⟩ := opposites.mp ⟨member, isMember, rfl⟩
      rw [Iteration.after_opposite] at same
      exact ⟨count, (Iteration.visits_opposite _).mp visits,
        Int.neg_inj.mp same⟩
    · rintro ⟨count, visits, same⟩
      obtain ⟨other, isMember, equal⟩ := opposites.mpr
        ⟨count, (Iteration.visits_opposite _).mpr visits, by
          rw [Iteration.after_opposite]
          exact congrArg Neg.neg same⟩
      rwa [← Int.neg_inj.mp equal]
  ends finite := by
    obtain ⟨count, ended⟩ := enumerates.ends (finite.image _)
    rw [Iteration.after_opposite] at ended
    exact ⟨count, ended⟩

end OpenDylan.Lib.Enumeration
