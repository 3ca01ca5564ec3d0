import Mathlib.Data.List.Basic

/-!
# Bisection

A search between two bounds looks at the middle and goes on at one side of it.
The positions it looks at on the way to one of them are looked at by every
search that comes by there.
-/

namespace OpenDylan.Lib.Bisection

/-- The positions strictly between two bounds that a search looks at, and the
one that it ends at.  `side` says where a position lies: what is searched is
less than it, greater, or found. -/
def bisect (side : Nat → Ordering) : Nat → Int → Int → List Nat × Option Nat
  | 0, _, _ => ([], none)
  | fuel + 1, low, high =>
      let mid := (low + high) / 2
      if low = mid then
        ([], none)
      else
        match side mid.toNat with
        | .eq => ([mid.toNat], some mid.toNat)
        | .lt =>
            let rest := bisect side fuel low mid
            (mid.toNat :: rest.1, rest.2)
        | .gt =>
            let rest := bisect side fuel mid high
            (mid.toNat :: rest.1, rest.2)

/-- The search for a position itself. -/
def towards (target position : Nat) : Ordering := compare target position

attribute [local simp] bisect

variable {side : Nat → Ordering} {fuel : Nat} {low high : Int}

theorem middle_bounds (apart : low < high) (different : low ≠ (low + high) / 2)
    : low < (low + high) / 2 ∧ (low + high) / 2 < high := by
  omega

/-- The bounds between which a search makes sense. -/
structure Bounds (low high : Int) : Prop where
  start : -1 ≤ low
  apart : low < high

theorem Bounds.middle (bounds : Bounds low high)
    (different : low ≠ (low + high) / 2) :
    (((low + high) / 2).toNat : Int) = (low + high) / 2 ∧
      Bounds low ((low + high) / 2) ∧ Bounds ((low + high) / 2) high := by
  have start := bounds.start
  have between := middle_bounds bounds.apart different
  refine ⟨Int.toNat_of_nonneg (by omega), ⟨start, between.1⟩,
    ⟨by omega, between.2⟩⟩

theorem between_of_mem (bounds : Bounds low high) {position : Nat}
    (member : position ∈ (bisect side fuel low high).1) :
    low < position ∧ (position : Int) < high := by
  induction fuel generalizing low high with
  | zero => simp at member
  | succ fuel inductionHypothesis =>
      unfold bisect at member
      by_cases stop : low = (low + high) / 2
      · simp [← stop] at member
      · have middle := bounds.middle stop
        have between := middle_bounds bounds.apart stop
        simp only [stop, if_false] at member
        cases turn : side ((low + high) / 2).toNat with
        | eq =>
            simp only [turn, List.mem_singleton] at member
            omega
        | lt =>
            simp only [turn, List.mem_cons] at member
            cases member with
            | inl here => omega
            | inr later =>
                have inner := inductionHypothesis middle.2.1 later
                omega
        | gt =>
            simp only [turn, List.mem_cons] at member
            cases member with
            | inl here => omega
            | inr later =>
                have inner := inductionHypothesis middle.2.2 later
                omega

theorem side_of_found {position : Nat}
    (found : (bisect side fuel low high).2 = some position) :
    side position = .eq := by
  induction fuel generalizing low high with
  | zero => simp at found
  | succ fuel inductionHypothesis =>
      unfold bisect at found
      by_cases stop : low = (low + high) / 2
      · simp [← stop] at found
      · simp only [stop, if_false] at found
        cases turn : side ((low + high) / 2).toNat with
        | eq =>
            simp only [turn, Option.some.injEq] at found
            rw [← found, turn]
        | lt =>
            simp only [turn] at found
            exact inductionHypothesis found
        | gt =>
            simp only [turn] at found
            exact inductionHypothesis found

/-- A search that always goes to the side of a position ends there. -/
theorem found_of_side (bounds : Bounds low high) {target : Nat}
    (sides : ∀ position : Nat, low < position → (position : Int) < high →
      side position = towards target position)
    (above : low < target) (below : (target : Int) < high)
    (enough : high - low ≤ fuel + 1) :
    (bisect side fuel low high).2 = some target := by
  induction fuel generalizing low high with
  | zero => omega
  | succ fuel inductionHypothesis =>
      unfold bisect
      have stop : low ≠ (low + high) / 2 := by omega
      have middle := bounds.middle stop
      have between := middle_bounds bounds.apart stop
      simp only [stop, if_false]
      have turn := sides ((low + high) / 2).toNat (by omega) (by omega)
      rw [turn]
      unfold towards
      rcases Nat.lt_trichotomy target ((low + high) / 2).toNat with
        before | here | after
      · rw [Nat.compare_eq_lt.mpr before]
        exact inductionHypothesis middle.2.1
          (fun position low' high' => sides position low' (by omega))
          above (by omega) (by omega)
      · rw [Nat.compare_eq_eq.mpr here, here]
      · rw [Nat.compare_eq_gt.mpr after]
        exact inductionHypothesis middle.2.2
          (fun position low' high' => sides position (by omega) high')
          (by omega) below (by omega)

theorem bisect_congr (bounds : Bounds low high) {other : Nat → Ordering}
    (same : ∀ position : Nat, low < position → (position : Int) < high →
      side position = other position) :
    bisect side fuel low high = bisect other fuel low high := by
  induction fuel generalizing low high with
  | zero => rfl
  | succ fuel inductionHypothesis =>
      unfold bisect
      by_cases stop : low = (low + high) / 2
      · simp [← stop]
      · have middle := bounds.middle stop
        have between := middle_bounds bounds.apart stop
        simp only [stop, if_false]
        rw [same ((low + high) / 2).toNat (by omega) (by omega),
          inductionHypothesis middle.2.1
            (fun position low' high' => same position low' (by omega)),
          inductionHypothesis middle.2.2
            (fun position low' high' => same position (by omega) high')]

/-- On the way to a position that a search looks at, it looks at all that the
search for the position looks at. -/
theorem towards_subset (bounds : Bounds low high) {target : Nat}
    (member : target ∈ (bisect side fuel low high).1) :
    (bisect (towards target) fuel low high).1 ⊆
      (bisect side fuel low high).1 := by
  induction fuel generalizing low high with
  | zero => simp at member
  | succ fuel inductionHypothesis =>
      have inside := between_of_mem bounds member
      unfold bisect at member ⊢
      by_cases stop : low = (low + high) / 2
      · simp [← stop] at member
      · have middle := bounds.middle stop
        have between := middle_bounds bounds.apart stop
        simp only [stop, if_false] at member ⊢
        intro position visited
        by_cases here : target = ((low + high) / 2).toNat
        · have turn : towards target ((low + high) / 2).toNat = .eq :=
            Nat.compare_eq_eq.mpr here
          rw [turn] at visited
          have same : position = ((low + high) / 2).toNat := by
            simpa using visited
          rw [same]
          cases side ((low + high) / 2).toNat <;> simp
        · cases turn : side ((low + high) / 2).toNat with
          | eq =>
              simp only [turn, List.mem_singleton] at member
              exact absurd member here
          | lt =>
              simp only [turn, List.mem_cons, here, false_or] at member ⊢
              have inner := between_of_mem middle.2.1 member
              have same : towards target ((low + high) / 2).toNat = .lt :=
                Nat.compare_eq_lt.mpr (by omega)
              simp only [same, List.mem_cons] at visited
              cases visited with
              | inl first => exact Or.inl first
              | inr later =>
                  exact Or.inr
                    (inductionHypothesis middle.2.1 member later)
          | gt =>
              simp only [turn, List.mem_cons, here, false_or] at member ⊢
              have inner := between_of_mem middle.2.2 member
              have same : towards target ((low + high) / 2).toNat = .gt :=
                Nat.compare_eq_gt.mpr (by omega)
              simp only [same, List.mem_cons] at visited
              cases visited with
              | inl first => exact Or.inl first
              | inr later =>
                  exact Or.inr
                    (inductionHypothesis middle.2.2 member later)

end OpenDylan.Lib.Bisection
