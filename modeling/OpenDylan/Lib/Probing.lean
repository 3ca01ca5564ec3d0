import Mathlib.Data.Nat.Find
import Mathlib.Data.Nat.ModEq

/-!
# Probing a vector with a stride

A search for a slot starts at an index and goes down by a fixed stride, around
the vector, until a slot stops it.  When the stride has no factor in common
with the number of slots, every slot is reached before the first one comes up
again, so that the search ends if any slot at all stops it.
-/

namespace OpenDylan.Lib.Probing

/-- The slot that is probed after one. -/
def next (count stride index : Nat) : Nat :=
  if index < stride then index + count - stride else index - stride

/-- The slot that is probed after a number of steps. -/
def position (count stride index : Nat) : Nat → Nat
  | 0 => index
  | steps + 1 => next count stride (position count stride index steps)

/-- Probe slots until one stops the search, a bounded number of them. -/
def probe (stop : Nat → Bool) (count stride : Nat) :
    Nat → Nat → Option Nat
  | 0, _ => none
  | fuel + 1, index =>
      if stop index then some index
      else probe stop count stride fuel (next count stride index)

/-- The slot after some steps is the first one that stops a search. -/
structure FirstStop (stop : Nat → Bool) (count stride index steps : Nat) :
    Prop where
  stops : stop (position count stride index steps) = true
  passes : ∀ earlier < steps,
    stop (position count stride index earlier) = false

section Probing

variable {stop : Nat → Bool} {count stride index : Nat}

theorem next_lt (strideLt : stride < count) (positive : 0 < stride)
    (inside : index < count) : next count stride index < count := by
  rw [next]
  split <;> omega

theorem position_lt (strideLt : stride < count) (positive : 0 < stride)
    (inside : index < count) (steps : Nat) :
    position count stride index steps < count := by
  induction steps with
  | zero => exact inside
  | succ steps ih => exact next_lt strideLt positive ih

theorem probe_lt (strideLt : stride < count) (positive : 0 < stride)
    {fuel place : Nat} (inside : index < count)
    (found : probe stop count stride fuel index = some place) :
    place < count := by
  induction fuel generalizing index with
  | zero => cases found
  | succ fuel ih =>
      rw [probe] at found
      split at found
      · cases found
        exact inside
      · exact ih (next_lt strideLt positive inside) found

/-- Probing goes on from the second slot. -/
theorem position_next (steps : Nat) :
    position count stride (next count stride index) steps =
      position count stride index (steps + 1) := by
  induction steps with
  | zero => rfl
  | succ steps ih => rw [position, ih, position.eq_2 _ _ _ (steps + 1)]

theorem next_modEq (strideLt : stride < count) :
    next count stride index + stride ≡ index [MOD count] := by
  rw [next]
  split
  · have same : index + count - stride + stride = index + count := by omega
    rw [same]
    exact Nat.add_modEq_right
  · have same : index - stride + stride = index := by omega
    rw [same]

/-- A step subtracts the stride, up to the number of slots. -/
theorem position_modEq (strideLt : stride < count) (steps : Nat) :
    position count stride index steps + steps * stride ≡
      index [MOD count] := by
  induction steps with
  | zero => rw [Nat.zero_mul, Nat.add_zero, position]
  | succ steps ih =>
      have back := Nat.ModEq.add_right (steps * stride)
        (@next_modEq count stride (position count stride index steps)
          strideLt)
      rw [Nat.succ_mul, Nat.add_comm (steps * stride), ← Nat.add_assoc]
      exact back.trans ih

/-- Every slot is reached. -/
theorem position_covers (coprime : Nat.Coprime stride count)
    (strideLt : stride < count) (positive : 0 < stride)
    (inside : index < count) {target : Nat} (isSlot : target < count) :
    ∃ steps < count, position count stride index steps = target := by
  have several : 1 < count := by omega
  obtain ⟨inverse, isInverse⟩ :=
    Nat.exists_mul_mod_eq_one_of_coprime coprime several
  -- As many steps as the distance down to the target, divided by the stride.
  have product : (index + (count - target)) * inverse % count * stride ≡
      index + (count - target) [MOD count] := by
    have one : inverse * stride ≡ 1 [MOD count] := by
      rw [Nat.ModEq, Nat.mul_comm, isInverse.2, Nat.mod_eq_of_lt several]
    calc (index + (count - target)) * inverse % count * stride
        ≡ (index + (count - target)) * inverse * stride [MOD count] :=
          Nat.ModEq.mul_right stride (Nat.mod_modEq _ _)
      _ = (index + (count - target)) * (inverse * stride) :=
          Nat.mul_assoc _ _ _
      _ ≡ (index + (count - target)) * 1 [MOD count] :=
          Nat.ModEq.mul_left _ one
      _ = index + (count - target) := Nat.mul_one _
  refine ⟨(index + (count - target)) * inverse % count,
    Nat.mod_lt _ (by omega), ?_⟩
  have arrives := @position_modEq count stride index strideLt
    ((index + (count - target)) * inverse % count)
  generalize (index + (count - target)) * inverse % count = steps
    at product arrives ⊢
  have same : position count stride index steps + (count - target) ≡
      target + (count - target) [MOD count] := by
    have sum : position count stride index steps +
        (index + (count - target)) ≡ index [MOD count] :=
      (Nat.ModEq.add_left _ product.symm).trans arrives
    have shifted : index + (position count stride index steps +
        (count - target)) ≡ index + 0 [MOD count] := by
      rw [Nat.add_left_comm]
      exact sum
    have zero := Nat.ModEq.add_left_cancel' index shifted
    have full : target + (count - target) = count := by omega
    rw [full]
    exact zero.trans (Nat.modEq_zero_iff_dvd.mpr (Nat.dvd_refl count)).symm
  have cancelled := Nat.ModEq.add_right_cancel' (count - target) same
  exact Nat.ModEq.eq_of_lt_of_lt cancelled
    (position_lt strideLt positive inside steps) isSlot

/-- The first stop of a search that goes on from the second slot. -/
theorem FirstStop.later {steps : Nat}
    (first : FirstStop stop count stride index (steps + 1)) :
    FirstStop stop count stride (next count stride index) steps := by
  constructor
  · rw [position_next]
    exact first.stops
  · intro earlier before
    rw [position_next]
    exact first.passes _ (Nat.succ_lt_succ before)

/-- The search ends at the first slot that stops it. -/
theorem FirstStop.probe {steps : Nat}
    (first : FirstStop stop count stride index steps) {fuel : Nat}
    (enough : steps < fuel) :
    probe stop count stride fuel index =
      some (position count stride index steps) := by
  induction fuel generalizing index steps with
  | zero => exact absurd enough (Nat.not_lt_zero steps)
  | succ fuel ih =>
      rw [Probing.probe]
      cases steps with
      | zero =>
          have stops : stop index = true := first.stops
          rw [if_pos stops, position]
      | succ steps =>
          have passes : stop index = false :=
            first.passes 0 (Nat.succ_pos steps)
          rw [if_neg (by rw [passes]; exact Bool.false_ne_true),
            ih first.later (Nat.lt_of_succ_lt_succ enough), position_next]

/-- A slot that stops the search is preceded by the first one. -/
theorem exists_firstStop {steps : Nat}
    (stops : stop (position count stride index steps) = true) :
    ∃ first ≤ steps, FirstStop stop count stride index first := by
  have some : ∃ steps, stop (position count stride index steps) = true :=
    ⟨steps, stops⟩
  refine ⟨Nat.find some, Nat.find_min' some stops, Nat.find_spec some, ?_⟩
  intro earlier before
  exact Bool.eq_false_iff.mpr (Nat.find_min some before)

/-- A search among slots one of which stops it. -/
theorem exists_probe (coprime : Nat.Coprime stride count)
    (strideLt : stride < count) (positive : 0 < stride)
    (inside : index < count) {target : Nat} (isSlot : target < count)
    (stops : stop target = true) :
    ∃ steps, FirstStop stop count stride index steps ∧
      ∀ fuel, count ≤ fuel → probe stop count stride fuel index =
        some (position count stride index steps) := by
  obtain ⟨steps, bound, reached⟩ :=
    position_covers coprime strideLt positive inside isSlot
  rw [← reached] at stops
  obtain ⟨first, before, isFirst⟩ := exists_firstStop stops
  refine ⟨first, isFirst, fun fuel enough => isFirst.probe ?_⟩
  omega

end Probing

end OpenDylan.Lib.Probing
