import Mathlib

/-!
# Common elements of progressions

The elements that two progressions of integers have in common are a step of the
least common multiple apart.  If there are any, the first one is met within as
many steps of one progression as the step of the other is long.
-/

namespace OpenDylan.Lib.Progression

variable {first1 step1 first2 step2 number : Int}

/-- A number is a whole number of steps away from both. -/
def Common (first1 step1 first2 step2 number : Int) : Prop :=
  step1 ∣ number - first1 ∧ step2 ∣ number - first2

/-- The first common element that is not before either first element, if there
is a common element at all. -/
def IsFirstCommon (first1 step1 first2 step2 : Int) : Option Int → Prop
  | none => ∀ number, ¬Common first1 step1 first2 step2 number
  | some first => (first1 ≤ first ∧ first2 ≤ first) ∧
      Common first1 step1 first2 step2 first ∧
      ∀ number, first1 ≤ number → first2 ≤ number →
        Common first1 step1 first2 step2 number → first ≤ number

theorem Common.symm (common : Common first1 step1 first2 step2 number) :
    Common first2 step2 first1 step1 number :=
  ⟨common.2, common.1⟩

theorem IsFirstCommon.symm {found : Option Int}
    (first : IsFirstCommon first1 step1 first2 step2 found) :
    IsFirstCommon first2 step2 first1 step1 found := by
  cases found with
  | none => exact fun number common => first number common.symm
  | some least =>
      exact ⟨first.1.symm, first.2.1.symm, fun number after2 after1 common =>
        first.2.2 number after1 after2 common.symm⟩

/-- Common elements are multiples of the common step apart. -/
theorem common_iff {other : Int}
    (common : Common first1 step1 first2 step2 other) :
    Common first1 step1 first2 step2 number ↔
      (Int.lcm step1 step2 : Int) ∣ number - other := by
  have split1 : number - first1 = (number - other) + (other - first1) := by ring
  have split2 : number - first2 = (number - other) + (other - first2) := by ring
  constructor
  · rintro ⟨fits1, fits2⟩
    rw [split1] at fits1
    rw [split2] at fits2
    exact Int.coe_lcm_dvd ((dvd_add_left common.1).mp fits1)
      ((dvd_add_left common.2).mp fits2)
  · intro divides
    rw [Common, split1, split2]
    exact ⟨dvd_add ((Int.dvd_lcm_left step1 step2).trans divides) common.1,
      dvd_add ((Int.dvd_lcm_right step1 step2).trans divides) common.2⟩

/-- There are common elements just where the first elements agree modulo what
the steps have in common. -/
theorem exists_common_iff :
    (∃ number, Common first1 step1 first2 step2 number) ↔
      (Int.gcd step1 step2 : Int) ∣ first1 - first2 := by
  constructor
  · rintro ⟨number, fits1, fits2⟩
    have difference : first1 - first2 =
        (number - first2) - (number - first1) := by ring
    rw [difference]
    exact dvd_sub ((Int.gcd_dvd_right step1 step2).trans fits2)
      ((Int.gcd_dvd_left step1 step2).trans fits1)
  · rintro ⟨factor, isFactor⟩
    have bezout := Int.gcd_eq_gcd_ab step1 step2
    refine ⟨first1 - step1 * (Int.gcdA step1 step2 * factor), ?_, ?_⟩
    · exact ⟨-(Int.gcdA step1 step2 * factor), by ring⟩
    · refine ⟨Int.gcdB step1 step2 * factor, ?_⟩
      have whole : first1 - first2 = step1 * (Int.gcdA step1 step2 * factor) +
          step2 * (Int.gcdB step1 step2 * factor) := by
        rw [isFactor, bezout]
        ring
      linarith

/-- A common element is met within as many steps of the first progression as
the step of the second is long. -/
theorem exists_index_of_common (positive2 : 0 < step2)
    (common : Common first1 step1 first2 step2 number) :
    ∃ index, 0 ≤ index ∧ index < step2 ∧
      step2 ∣ first1 + index * step1 - first2 := by
  obtain ⟨⟨steps, isStep⟩, fits2⟩ := common
  refine ⟨steps % step2, Int.emod_nonneg _ (ne_of_gt positive2),
    Int.emod_lt_of_pos _ positive2, ?_⟩
  have back : first1 + steps % step2 * step1 - first2 =
      (number - first2) - step2 * (steps / step2 * step1) := by
    have whole := Int.emod_add_mul_ediv steps step2
    have shorter : steps % step2 = steps - step2 * (steps / step2) := by linarith
    rw [shorter]
    linarith
  rw [back]
  exact dvd_sub fits2 (dvd_mul_right step2 _)

/-- The common elements that are not before either first element are those at
whole common steps from the first one. -/
theorem IsFirstCommon.iff_some {least : Int}
    (first : IsFirstCommon first1 step1 first2 step2 (some least)) :
    (first1 ≤ number ∧ first2 ≤ number ∧
        Common first1 step1 first2 step2 number) ↔
      least ≤ number ∧ (Int.lcm step1 step2 : Int) ∣ number - least := by
  obtain ⟨after, common, isLeast⟩ := first
  rw [common_iff common]
  constructor
  · rintro ⟨after1, after2, divides⟩
    exact ⟨isLeast number after1 after2 ((common_iff common).mpr divides), divides⟩
  · rintro ⟨later, divides⟩
    exact ⟨after.1.trans later, after.2.trans later, divides⟩

/-- Going downwards is going upwards with all signs changed. -/
theorem common_neg_iff :
    Common (-first1) step1 (-first2) step2 (-number) ↔
      Common first1 step1 first2 step2 number := by
  have flip1 : -number - -first1 = -(number - first1) := by ring
  have flip2 : -number - -first2 = -(number - first2) := by ring
  rw [Common, Common, flip1, flip2, dvd_neg, dvd_neg]

end OpenDylan.Lib.Progression
