import OpenDylan.Collections.RangeIntersection

/-!
# The members of intersections

Bounded intersections run from the first to the last common element at steps of
the least common multiple.  An infinite range is cut off at the end of the
other range; only what lies beyond that end is lost.  So intersections have the
members of both ranges, but for infinite ranges that descend with different
steps: there the step of the intersection ascends.
-/

namespace OpenDylan.Collections.Ranges

open OpenDylan.Lib.Progression OpenDylan.Numbers

/-! ## First common elements -/

section FirstIntersection

variable (from1 from2 : Int) {by1 by2 : Int} {depth : Nat}

/-- What the loop finds is the first of the elements that it goes along. -/
theorem firstIntersectionLoop_spec (by1 by2 i : Int) :
    match firstIntersectionLoop by1 from2 by2 i (from1 + i * by1) with
    | none => ∀ j, i ≤ j → j < by2 → ¬by2 ∣ from1 + j * by1 - from2
    | some n => ∃ j, i ≤ j ∧ n = from1 + j * by1 ∧ by2 ∣ n - from2 ∧
        ∀ earlier, i ≤ earlier → earlier < j →
          ¬by2 ∣ from1 + earlier * by1 - from2 := by
  induction steps : (by2 - i).toNat generalizing i with
  | zero =>
      rw [firstIntersectionLoop, if_neg (by omega)]
      intro j after before
      omega
  | succ steps ih =>
      have next : from1 + i * by1 + by1 = from1 + (i + 1) * by1 := by ring
      rw [firstIntersectionLoop, if_pos (by omega), next]
      by_cases here : (from1 + i * by1 - from2).tmod by2 = 0
      · rw [if_pos here]
        refine ⟨i, le_refl i, rfl, Int.dvd_of_tmod_eq_zero here, ?_⟩
        intro earlier after before
        omega
      · have notHere : ¬by2 ∣ from1 + i * by1 - from2 :=
          fun divides => here (Int.tmod_eq_zero_of_dvd divides)
        rw [if_neg here]
        have later := ih (i + 1) (by omega)
        split at later
        · intro j after before
          rcases Int.le_iff_eq_or_lt.mp after with rfl | strictly
          · exact notHere
          · exact later j strictly before
        · obtain ⟨j, after, isIndex, divides, least⟩ := later
          refine ⟨j, by omega, isIndex, divides, ?_⟩
          intro earlier after' before
          rcases Int.le_iff_eq_or_lt.mp after' with rfl | strictly
          · exact notHere
          · exact least earlier strictly before

theorem firstIntersectionLoop_isFirstCommon (positive1 : 0 < by1)
    (positive2 : 0 < by2) (ordered : from2 ≤ from1) :
    IsFirstCommon from1 by1 from2 by2
      (firstIntersectionLoop by1 from2 by2 0 from1) := by
  have spec := firstIntersectionLoop_spec from1 from2 by1 by2 0
  rw [zero_mul, add_zero] at spec
  split at spec
  · next found =>
      rw [found]
      intro number common
      obtain ⟨index, nonnegative, small, divides⟩ :=
        exists_index_of_common positive2 common
      exact spec index nonnegative small divides
  · next n found =>
      rw [found]
      obtain ⟨j, nonnegative, rfl, divides, least⟩ := spec
      have forward := mul_nonneg nonnegative (le_of_lt positive1)
      refine ⟨⟨by linarith, by linarith⟩, ⟨⟨j, by ring⟩, divides⟩, ?_⟩
      rintro number after - ⟨⟨index, isIndex⟩, divides'⟩
      have isNumber : number = from1 + index * by1 := by linarith
      subst isNumber
      by_contra before
      have below : index < j := by
        by_contra above
        nlinarith
      have start : 0 ≤ index := by
        by_contra negative
        nlinarith
      exact least index start below divides'

theorem firstIntersection_ascending (positive1 : 0 < by1) (positive2 : 0 < by2)
    (enough : 2 ≤ depth) :
    ∃ found, firstIntersection depth from1 by1 from2 by2 = .ok found ∧
      IsFirstCommon from1 by1 from2 by2 found := by
  obtain ⟨depth, rfl⟩ : ∃ less, depth = less + 2 := ⟨depth - 2, by omega⟩
  rw [firstIntersection, if_neg (not_lt_of_gt positive1)]
  by_cases swap : from1 < from2
  · rw [if_pos swap, firstIntersection, if_neg (not_lt_of_gt positive2),
      if_neg (not_lt_of_gt swap)]
    exact ⟨_, rfl, (firstIntersectionLoop_isFirstCommon from2 from1 positive2
      positive1 (le_of_lt swap)).symm⟩
  · rw [if_neg swap]
    exact ⟨_, rfl, firstIntersectionLoop_isFirstCommon from1 from2 positive1
      positive2 (not_lt.mp swap)⟩

theorem firstIntersection_descending (positive1 : 0 < by1) (positive2 : 0 < by2)
    (enough : 3 ≤ depth) :
    ∃ found, firstIntersection depth from1 (-by1) from2 (-by2) =
        .ok (found.map fun neg => -neg) ∧
      IsFirstCommon (-from1) by1 (-from2) by2 found := by
  obtain ⟨depth, rfl⟩ : ∃ less, depth = less + 1 := ⟨depth - 1, by omega⟩
  obtain ⟨found, run, first⟩ := firstIntersection_ascending (-from1) (-from2)
    positive1 positive2 (by omega : 2 ≤ depth)
  refine ⟨found, ?_, first⟩
  rw [firstIntersection, if_pos (by linarith), neg_neg, neg_neg, run]
  rfl

end FirstIntersection

/-! ## Bounded intersections -/

section Bounded

variable {lo1 by1 hi1 lo2 by2 hi2 value : Int} {rounds : Nat}

theorem lcm_positive (positive1 : 0 < by1) (positive2 : 0 < by2)
    (enough : by1.natAbs + by2.natAbs < rounds) :
    lcm rounds by1 by2 = .ok (Int.lcm by1 by2) := by
  rw [lcm, IntegerGcd.lcm_eq (mul_pos positive1 positive2) enough]
  split
  · next same =>
      rw [same, Int.lcm_self, Int.natAbs_of_nonneg (le_of_lt positive2)]
      rfl
  · rfl

/-- A range up to an element that is whole steps away. -/
theorem make_limit {first step last : Int} (positive : 0 < step)
    (aligned : step ∣ last - first) :
    ∃ result,
      make { rangeFrom := first, limit := some last, rangeBy := step } =
        .ok result ∧
      ∀ value, isMember value result = true ↔ Between first step last value := by
  obtain ⟨steps, isLast⟩ := aligned
  have count : floorDivide (last + step - first) step = steps + 1 := by
    have whole : last + step - first = step * (steps + 1) := by linarith
    rw [floorDivide, whole, Int.mul_fdiv_cancel_left _ (ne_of_gt positive)]
  have made : make { rangeFrom := first, limit := some last, rangeBy := step } =
      .ok (if steps + 1 = 0 then .empty
        else .finite first step (steps + 1)) := by
    rw [make, makeRange, if_neg (ne_of_gt positive)]
    simp only [Keys.convertedLimit, ite_self, count, makeFinite]
    rfl
  refine ⟨_, made, ?_⟩
  intro value
  split
  · next none =>
      rw [isMember_empty]
      constructor
      · intro impossible
        contradiction
      · rintro ⟨after, before, -⟩
        nlinarith
  · rw [isMember_finite_ascending positive]
    have ends : first + step * (steps + 1 - 1) = last := by linarith
    rw [ends]

theorem orderedFiniteIntersection_members (positive1 : 0 < by1)
    (positive2 : 0 < by2) (aligned1 : by1 ∣ hi1 - lo1)
    (aligned2 : by2 ∣ hi2 - lo2)
    (enough : by1.natAbs + by2.natAbs < rounds) :
    ∃ result, orderedFiniteIntersection rounds lo1 by1 hi1 lo2 by2 hi2 =
        .ok result ∧
      ∀ value, isMember value result = true ↔
        Between lo1 by1 hi1 value ∧ Between lo2 by2 hi2 value := by
  rw [orderedFiniteIntersection]
  have none {result : Range} (isEmpty : result = .empty)
      (absent : ∀ value, ¬(Between lo1 by1 hi1 value ∧
        Between lo2 by2 hi2 value)) (value : Int) :
      isMember value result = true ↔
        Between lo1 by1 hi1 value ∧ Between lo2 by2 hi2 value := by
    rw [isEmpty, isMember_empty]
    exact iff_of_false (by simp) (absent value)
  by_cases apart : hi1 < lo2 ∨ hi2 < lo1
  · rw [if_pos apart]
    refine ⟨_, rfl, none rfl ?_⟩
    rintro value ⟨⟨after1, before1, -⟩, after2, before2, -⟩
    rcases apart with apart | apart <;> linarith
  · rw [if_neg apart]
    obtain ⟨found, run, first⟩ := firstIntersection_ascending lo1 lo2 positive1
      positive2 (by omega : 2 ≤ rounds)
    obtain ⟨found', run', last⟩ := firstIntersection_descending hi1 hi2
      positive1 positive2 (by omega : 3 ≤ rounds)
    simp only [run, run', bind, Except.bind]
    cases found with
    | none =>
        refine ⟨_, rfl, none rfl ?_⟩
        rintro value ⟨⟨-, -, fits1⟩, -, -, fits2⟩
        exact first value ⟨fits1, fits2⟩
    | some first' =>
        -- What is whole steps from the low ends is so from the high ones.
        have shift (value : Int) : Common (-hi1) by1 (-hi2) by2 (-value) ↔
            Common lo1 by1 lo2 by2 value := by
          have split1 : value - lo1 = (value - hi1) + (hi1 - lo1) := by ring
          have split2 : value - lo2 = (value - hi2) + (hi2 - lo2) := by ring
          rw [common_neg_iff, Common, Common, split1, split2,
            dvd_add_left aligned1, dvd_add_left aligned2]
        cases found' with
        | none =>
            exact absurd ((shift first').mpr first.2.1) (last (-first'))
        | some last' =>
            have isCommon := (shift (-last')).mp (by rw [neg_neg]; exact last.2.1)
            have steps := (common_iff first.2.1).mp isCommon
            have inside : -last' ≤ hi1 ∧ -last' ≤ hi2 :=
              ⟨neg_le.mp last.1.1, neg_le.mp last.1.2⟩
            simp only [ge_iff_le, first.1, inside, and_self, if_true,
              Option.map_some, lcm_positive positive1 positive2 enough]
            have positive : (0 : Int) < Int.lcm by1 by2 := by
              exact_mod_cast Int.lcm_pos (ne_of_gt positive1) (ne_of_gt positive2)
            obtain ⟨result, made, members⟩ := make_limit positive steps
            refine ⟨result, made, ?_⟩
            intro value
            rw [members value, Between]
            constructor
            · rintro ⟨after, before, divides⟩
              have common := (common_iff first.2.1).mpr divides
              exact ⟨⟨first.1.1.trans after,
                  before.trans (neg_le.mp last.1.1), common.1⟩,
                first.1.2.trans after, before.trans (neg_le.mp last.1.2),
                common.2⟩
            · rintro ⟨⟨after1, before1, fits1⟩, after2, before2, fits2⟩
              have common : Common lo1 by1 lo2 by2 value := ⟨fits1, fits2⟩
              refine ⟨first.2.2 value after1 after2 common, ?_,
                (common_iff first.2.1).mp common⟩
              have later := last.2.2 (-value) (neg_le_neg before1)
                (neg_le_neg before2) ((shift value).mpr common)
              linarith

theorem finiteIntersection_members {from1 to1 from2 to2 : Int}
    (nonzero1 : by1 ≠ 0) (nonzero2 : by2 ≠ 0) (aligned1 : by1 ∣ to1 - from1)
    (aligned2 : by2 ∣ to2 - from2)
    (enough : by1.natAbs + by2.natAbs < rounds) :
    ∃ result, finiteIntersection rounds from1 by1 to1 from2 by2 to2 =
        .ok result ∧
      ∀ value, isMember value result = true ↔
        Spans from1 by1 to1 value ∧ Spans from2 by2 to2 value := by
  have back1 : -by1 ∣ from1 - to1 := by
    rw [neg_dvd, ← neg_sub, dvd_neg]
    exact aligned1
  have back2 : -by2 ∣ from2 - to2 := by
    rw [neg_dvd, ← neg_sub, dvd_neg]
    exact aligned2
  simp only [finiteIntersection, Spans]
  by_cases negative1 : by1 < 0
  · simp only [if_pos negative1]
    by_cases negative2 : by2 < 0
    · simp only [if_pos negative2]
      exact orderedFiniteIntersection_members (neg_pos.mpr negative1)
        (neg_pos.mpr negative2) back1 back2 (by omega)
    · simp only [if_neg negative2]
      exact orderedFiniteIntersection_members (neg_pos.mpr negative1)
        (by omega) back1 aligned2 (by omega)
  · simp only [if_neg negative1]
    by_cases negative2 : by2 < 0
    · simp only [if_pos negative2]
      exact orderedFiniteIntersection_members (by omega)
        (neg_pos.mpr negative2) aligned1 back2 (by omega)
    · simp only [if_neg negative2]
      exact orderedFiniteIntersection_members (by omega) (by omega) aligned1
        aligned2 enough

end Bounded

/-! ## Infinite ranges up to a bound -/

section Truncated

variable {first step bound value : Int}

/-- The last element of an infinite range that is not beyond a bound. -/
def lastUpTo (first step bound : Int) : Int :=
  (bound - first).tdiv step * step + first

theorem dvd_lastUpTo (first step bound : Int) :
    step ∣ lastUpTo first step bound - first :=
  ⟨(bound - first).tdiv step, by rw [lastUpTo]; ring⟩

/-- A bound in the direction of a range. -/
def Within (step bound value : Int) : Prop :=
  if step < 0 then bound ≤ value else value ≤ bound

theorem isMember_of_spans (nonzero : step ≠ 0)
    (spans : Spans first step (lastUpTo first step bound) value) :
    isMember value (.infinite first step) = true := by
  have steps := dvd_lastUpTo first step bound
  rw [Spans] at spans
  rcases lt_or_gt_of_ne nonzero with negative | positive
  · rw [if_pos negative] at spans
    obtain ⟨-, before, divides⟩ := spans
    rw [isMember_infinite_descending negative]
    refine ⟨before, ?_⟩
    have whole : value - first = (value - lastUpTo first step bound) +
        (lastUpTo first step bound - first) := by ring
    rw [whole]
    exact dvd_add (neg_dvd.mp divides) steps
  · rw [if_neg (not_lt_of_gt positive)] at spans
    rw [isMember_infinite_ascending positive]
    exact ⟨spans.1, spans.2.2⟩

theorem spans_of_isMember (nonzero : step ≠ 0)
    (member : isMember value (.infinite first step) = true)
    (within : Within step bound value) :
    Spans first step (lastUpTo first step bound) value := by
  rw [Within] at within
  obtain ⟨key, nonnegative, isValue⟩ := (isMember_infinite nonzero).mp member
  rw [Spans]
  rcases lt_or_gt_of_ne nonzero with negative | positive
  · rw [if_pos negative] at within ⊢
    have enough : key ≤ (bound - first).tdiv step := by
      rw [← Int.neg_tdiv_neg, Int.tdiv_eq_ediv_of_nonneg (by nlinarith),
        Int.le_ediv_iff_mul_le (neg_pos.mpr negative)]
      nlinarith
    refine ⟨?_, ?_, ?_⟩
    · rw [lastUpTo]
      nlinarith
    · nlinarith
    · rw [neg_dvd, lastUpTo, isValue]
      exact ⟨key - (bound - first).tdiv step, by ring⟩
  · rw [if_neg (not_lt_of_gt positive)] at within ⊢
    have enough : key ≤ (bound - first).tdiv step := by
      rw [Int.tdiv_eq_ediv_of_nonneg (by nlinarith),
        Int.le_ediv_iff_mul_le positive]
      linarith
    refine ⟨?_, ?_, ?_⟩
    · nlinarith
    · rw [lastUpTo]
      nlinarith
    · exact ⟨key, by linarith⟩

/-- What spans a range is not beyond the end that lies in a direction. -/
theorem within_of_spans {step' last : Int} (nonzero : step ≠ 0)
    (nonzero' : step' ≠ 0) (spans : Spans first step last value) :
    Within step' (if sameSign step step' then last else first) value := by
  rw [Spans] at spans
  rw [Within, sameSign]
  rcases lt_or_gt_of_ne nonzero with negative | positive
  · rw [if_pos negative] at spans
    rw [if_neg (not_lt_of_gt negative)]
    by_cases negative' : step' < 0
    · rw [if_pos negative', if_pos (by simpa using negative')]
      exact spans.1
    · rw [if_neg negative', if_neg (by simpa using negative')]
      exact spans.2.1
  · rw [if_neg (not_lt_of_gt positive)] at spans
    rw [if_pos positive]
    by_cases negative' : step' < 0
    · rw [if_pos negative', if_neg (by simpa using le_of_lt negative')]
      exact spans.1
    · rw [if_neg negative', if_pos (by simp; omega)]
      exact spans.2.1

end Truncated

/-! ## Intersections -/

/-- Both ranges are infinite and descend with different steps, and they have an
element in common. -/
def DescendApart : Range → Range → Prop
  | .infinite from1 by1, .infinite from2 by2 =>
      by1 < 0 ∧ by2 < 0 ∧ by1 ≠ by2 ∧
        (Int.gcd by1 by2 : Int) ∣ from1 - from2
  | _, _ => False

/-- The members of the intersection are those of both ranges. -/
def Intersects (rounds : Nat) (r1 r2 : Range) : Prop :=
  ∃ result, idIntersection rounds r1 r2 = .ok result ∧
    ∀ value, isMember value result = (isMember value r1 && isMember value r2)

section Intersections

variable {from1 by1 size1 from2 by2 size2 : Int} {rounds : Nat}

theorem intersects_of_iff {r1 r2 : Range}
    (iff : ∃ result, idIntersection rounds r1 r2 = .ok result ∧
      ∀ value, isMember value result = true ↔
        isMember value r1 = true ∧ isMember value r2 = true) :
    Intersects rounds r1 r2 := by
  obtain ⟨result, run, members⟩ := iff
  refine ⟨result, run, ?_⟩
  intro value
  rw [Bool.eq_iff_iff, members, Bool.and_eq_true]

theorem intersectionWithConstant_members (value : Int) (range : Range) :
    ∃ result, intersectionWithConstant value range = .ok result ∧
      ∀ other, isMember other result = true ↔
        other = value ∧ isMember other range = true := by
  rw [intersectionWithConstant]
  by_cases member : isMember value range = true
  · rw [if_pos member]
    refine ⟨.finite value 1 1, rfl, ?_⟩
    intro other
    rw [isMember_finite_ascending one_pos, Between]
    constructor
    · rintro ⟨after, before, -⟩
      have same : other = value := by linarith
      exact ⟨same, by rw [same]; exact member⟩
    · rintro ⟨rfl, -⟩
      simp
  · rw [if_neg member]
    refine ⟨.empty, rfl, ?_⟩
    intro other
    rw [isMember_empty]
    refine iff_of_false (by simp) ?_
    rintro ⟨rfl, isMember⟩
    exact member isMember

theorem intersects_empty (r1 : Range) : Intersects rounds r1 .empty := by
  refine ⟨.empty, ?_, ?_⟩
  · cases r1 <;> rfl
  · intro value
    rw [isMember_empty, Bool.and_false]

theorem intersects_constants {count1 count2 : Option Int} :
    Intersects rounds (.constant from1 count1) (.constant from2 count2) := by
  apply intersects_of_iff
  simp only [idIntersection, isMember_constant]
  by_cases same : from1 = from2
  · subst same
    rw [if_pos rfl]
    have either (first : Bool) : ∃ result : Range,
        (if first then return .constant from1 count1
          else return .constant from1 count2 : Except Stop Range) = .ok result ∧
        ∀ value, isMember value result = true ↔
          value = from1 ∧ value = from1 := by
      cases first <;>
        exact ⟨_, rfl, fun value => by rw [isMember_constant, and_self]⟩
    exact either _
  · rw [if_neg same]
    refine ⟨.empty, rfl, ?_⟩
    intro value
    rw [isMember_empty]
    refine iff_of_false (by simp) ?_
    rintro ⟨rfl, same'⟩
    exact same same'

/-- A constant range meets another range at its own value. -/
theorem intersects_of_constant {r1 r2 other : Range} {count : Option Int}
    (run : idIntersection rounds r1 r2 = intersectionWithConstant from1 other)
    (members : ∀ value, isMember value r1 = true ∧ isMember value r2 = true ↔
      isMember value (.constant from1 count) = true ∧
        isMember value other = true) : Intersects rounds r1 r2 := by
  obtain ⟨result, run', members'⟩ := intersectionWithConstant_members from1 other
  refine intersects_of_iff ⟨result, run.trans run', ?_⟩
  intro value
  rw [members', members, isMember_constant]

theorem intersects_finite (nonzero1 : by1 ≠ 0) (nonzero2 : by2 ≠ 0)
    (enough : by1.natAbs + by2.natAbs < rounds) :
    Intersects rounds (.finite from1 by1 size1) (.finite from2 by2 size2) := by
  obtain ⟨result, run, members⟩ := finiteIntersection_members nonzero1 nonzero2
    (⟨size1 - 1, by ring⟩ : by1 ∣ from1 + by1 * (size1 - 1) - from1)
    (⟨size2 - 1, by ring⟩ : by2 ∣ from2 + by2 * (size2 - 1) - from2) enough
  refine intersects_of_iff ⟨result, run, ?_⟩
  intro value
  rw [members, isMember_finite_spans nonzero1, isMember_finite_spans nonzero2]

/-- The last element of an infinite range in a finite one. -/
theorem lastOfIn_finite :
    lastOfIn (.infinite from2 by2) (.finite from1 by1 size1) =
      .ok (lastUpTo from2 by2 (if sameSign by1 by2 then
        from1 + by1 * (size1 - 1) else from1)) := by
  rw [lastOfIn]
  cases same : sameSign by1 by2 with
  | true =>
      simp only [Range.rangeBy, Range.rangeFrom, Range.last, same, if_true]
      rfl
  | false =>
      simp only [Range.rangeBy, Range.rangeFrom, same, Bool.false_eq_true,
        if_false]
      rfl

/-- A finite range meets an infinite one only up to the end of either. -/
theorem spans_and_spans_iff {last1 value : Int} (nonzero1 : by1 ≠ 0)
    (nonzero2 : by2 ≠ 0) :
    Spans from1 by1 last1 value ∧
        Spans from2 by2 (lastUpTo from2 by2
          (if sameSign by1 by2 then last1 else from1)) value ↔
      Spans from1 by1 last1 value ∧
        isMember value (.infinite from2 by2) = true := by
  apply and_congr_right
  intro spans
  exact ⟨isMember_of_spans nonzero2, fun member =>
    spans_of_isMember nonzero2 member (within_of_spans nonzero1 nonzero2 spans)⟩

theorem intersects_finite_infinite (nonzero1 : by1 ≠ 0) (nonzero2 : by2 ≠ 0)
    (enough : by1.natAbs + by2.natAbs < rounds) :
    Intersects rounds (.finite from1 by1 size1) (.infinite from2 by2) := by
  obtain ⟨result, run, members⟩ := finiteIntersection_members nonzero1 nonzero2
    (⟨size1 - 1, by ring⟩ : by1 ∣ from1 + by1 * (size1 - 1) - from1)
    (dvd_lastUpTo from2 by2 (if sameSign by1 by2 then
      from1 + by1 * (size1 - 1) else from1)) enough
  refine intersects_of_iff ⟨result, ?_, ?_⟩
  · simp only [idIntersection, Range.last, lastOfIn_finite, bind, Except.bind]
    exact run
  · intro value
    rw [members, isMember_finite_spans nonzero1,
      spans_and_spans_iff nonzero1 nonzero2]

theorem intersects_infinite_finite (nonzero1 : by1 ≠ 0) (nonzero2 : by2 ≠ 0)
    (enough : by1.natAbs + by2.natAbs < rounds) :
    Intersects rounds (.infinite from1 by1) (.finite from2 by2 size2) := by
  obtain ⟨result, run, members⟩ := finiteIntersection_members nonzero1 nonzero2
    (dvd_lastUpTo from1 by1 (if sameSign by2 by1 then
      from2 + by2 * (size2 - 1) else from2))
    (⟨size2 - 1, by ring⟩ : by2 ∣ from2 + by2 * (size2 - 1) - from2) enough
  refine intersects_of_iff ⟨result, ?_, ?_⟩
  · simp only [idIntersection, Range.last, lastOfIn_finite, bind, Except.bind]
    exact run
  · intro value
    rw [members, isMember_finite_spans nonzero2, and_comm,
      spans_and_spans_iff nonzero2 nonzero1, and_comm]

/-- Infinite ranges in opposite directions meet only between their first
elements. -/
theorem intersects_opposite (nonzero1 : by1 ≠ 0) (nonzero2 : by2 ≠ 0)
    (opposite : sameSign by1 by2 = false)
    (enough : by1.natAbs + by2.natAbs < rounds) :
    Intersects rounds (.infinite from1 by1) (.infinite from2 by2) := by
  have opposite' : sameSign by2 by1 = false := by
    rw [sameSign] at opposite ⊢
    split at opposite <;> split <;> simp at opposite ⊢ <;> omega
  obtain ⟨result, run, members⟩ := finiteIntersection_members nonzero1 nonzero2
    (dvd_lastUpTo from1 by1 from2) (dvd_lastUpTo from2 by2 from1) enough
  refine intersects_of_iff ⟨result, ?_, ?_⟩
  · have last1 : lastOfIn (.infinite from1 by1) (.infinite from2 by2) =
        .ok (lastUpTo from1 by1 from2) := by
      rw [lastOfIn]
      simp only [Range.rangeBy, Range.rangeFrom, opposite']
      rfl
    have last2 : lastOfIn (.infinite from2 by2) (.infinite from1 by1) =
        .ok (lastUpTo from2 by2 from1) := by
      rw [lastOfIn]
      simp only [Range.rangeBy, Range.rangeFrom, opposite]
      rfl
    simp only [idIntersection, opposite, Bool.false_eq_true, if_false, last1,
      last2, bind, Except.bind]
    exact run
  · intro value
    rw [members]
    constructor
    · rintro ⟨spans1, spans2⟩
      exact ⟨isMember_of_spans nonzero1 spans1, isMember_of_spans nonzero2 spans2⟩
    · rintro ⟨member1, member2⟩
      have directions : Within by1 from2 value ∧ Within by2 from1 value := by
        rw [Within, Within]
        rw [sameSign] at opposite
        rcases lt_or_gt_of_ne nonzero1 with negative1 | positive1
        · rw [if_neg (not_lt_of_gt negative1)] at opposite
          have positive2 : 0 < by2 := by
            simp at opposite
            omega
          rw [if_pos negative1, if_neg (not_lt_of_gt positive2)]
          exact ⟨((isMember_infinite_ascending positive2).mp member2).1,
            ((isMember_infinite_descending negative1).mp member1).1⟩
        · rw [if_pos positive1] at opposite
          have negative2 : by2 < 0 := by
            simp at opposite
            omega
          rw [if_neg (not_lt_of_gt positive1), if_pos negative2]
          exact ⟨((isMember_infinite_descending negative2).mp member2).1,
            ((isMember_infinite_ascending positive1).mp member1).1⟩
      exact ⟨spans_of_isMember nonzero1 member1 directions.1,
        spans_of_isMember nonzero2 member2 directions.2⟩

theorem make_infinite {first step : Int} (nonzero : step ≠ 0) :
    make { rangeFrom := first, rangeBy := step } =
      .ok (.infinite first step) := by
  rw [make, makeRange, if_neg nonzero]
  simp only [Keys.convertedLimit, ite_self]
  rfl

theorem intersects_ascending (positive1 : 0 < by1) (positive2 : 0 < by2)
    (enough : by1.natAbs + by2.natAbs < rounds) :
    Intersects rounds (.infinite from1 by1) (.infinite from2 by2) := by
  have same : sameSign by1 by2 = true := by
    simp [sameSign, positive1, positive2]
  obtain ⟨found, run, first⟩ := firstIntersection_ascending from1 from2 positive1
    positive2 (by omega : 2 ≤ rounds)
  apply intersects_of_iff
  simp only [idIntersection, same, if_true, run, bind, Except.bind,
    isMember_infinite_ascending positive1, isMember_infinite_ascending positive2]
  cases found with
  | none =>
      refine ⟨.empty, rfl, ?_⟩
      intro value
      rw [isMember_empty]
      refine iff_of_false (by simp) ?_
      rintro ⟨⟨-, fits1⟩, -, fits2⟩
      exact first value ⟨fits1, fits2⟩
  | some least =>
      have positive : (0 : Int) < Int.lcm by1 by2 := by
        exact_mod_cast Int.lcm_pos (ne_of_gt positive1) (ne_of_gt positive2)
      refine ⟨.infinite least (Int.lcm by1 by2), ?_, ?_⟩
      · simp only [lcm_positive positive1 positive2 enough,
          make_infinite (ne_of_gt positive)]
      · intro value
        rw [isMember_infinite_ascending positive, ← first.iff_some, Common]
        tauto

variable (from1 from2) in
/-- The first common element of descending ranges, seen upwards. -/
theorem idIntersection_descending (negative1 : by1 < 0) (negative2 : by2 < 0)
    (enough : by1.natAbs + by2.natAbs < rounds) :
    ∃ found, IsFirstCommon (-from1) (-by1) (-from2) (-by2) found ∧
      idIntersection rounds (.infinite from1 by1) (.infinite from2 by2) =
        .ok (match found with
          | none => .empty
          | some least =>
              .infinite (-least) (if by1 = by2 then by1 else Int.lcm by1 by2)) := by
  have same : sameSign by1 by2 = true := by
    simp [sameSign, negative2, le_of_lt negative1]
  obtain ⟨found, run, first⟩ := firstIntersection_descending from1 from2
    (neg_pos.mpr negative1) (neg_pos.mpr negative2) (by omega : 3 ≤ rounds)
  rw [neg_neg, neg_neg] at run
  refine ⟨found, first, ?_⟩
  simp only [idIntersection, same, if_true, run, bind, Except.bind]
  cases found with
  | none => rfl
  | some least =>
      have nonzero : (if by1 = by2 then by1 else (Int.lcm by1 by2 : Int)) ≠ 0 := by
        split
        · exact ne_of_lt negative1
        · exact_mod_cast Nat.ne_of_gt
            (Int.lcm_pos (ne_of_lt negative1) (ne_of_lt negative2))
      simp only [Option.map_some, lcm,
        IntegerGcd.lcm_eq (mul_pos_of_neg_of_neg negative1 negative2) enough,
        Except.mapError, make_infinite nonzero]

/-- The members of two descending ranges, seen upwards. -/
theorem isMember_descending_iff {value : Int} (negative1 : by1 < 0)
    (negative2 : by2 < 0) :
    isMember value (.infinite from1 by1) = true ∧
        isMember value (.infinite from2 by2) = true ↔
      -from1 ≤ -value ∧ -from2 ≤ -value ∧
        Common (-from1) (-by1) (-from2) (-by2) (-value) := by
  rw [common_neg_iff, isMember_infinite_descending negative1,
    isMember_infinite_descending negative2, Common, neg_dvd, neg_dvd,
    neg_le_neg_iff, neg_le_neg_iff]
  tauto

/-- Two descending infinite ranges that have elements in common are intersected
correctly only if their steps are equal. -/
theorem intersects_descending_iff (negative1 : by1 < 0) (negative2 : by2 < 0)
    (enough : by1.natAbs + by2.natAbs < rounds) :
    Intersects rounds (.infinite from1 by1) (.infinite from2 by2) ↔
      ¬DescendApart (.infinite from1 by1) (.infinite from2 by2) := by
  obtain ⟨found, first, run⟩ := idIntersection_descending from1 from2
    negative1 negative2 enough
  have meet : (Int.gcd by1 by2 : Int) ∣ from1 - from2 ↔
      ∃ value, Common (-from1) (-by1) (-from2) (-by2) (-value) := by
    rw [← exists_common_iff]
    apply exists_congr
    intro value
    rw [common_neg_iff, Common, Common, neg_dvd, neg_dvd]
  rw [DescendApart]
  cases found with
  | none =>
      refine iff_of_true (intersects_of_iff ⟨_, run, ?_⟩) ?_
      · intro value
        rw [isMember_empty, isMember_descending_iff negative1 negative2]
        exact iff_of_false (by simp) fun both => first (-value) both.2.2
      · rintro ⟨-, -, -, divides⟩
        obtain ⟨value, common⟩ := meet.mp divides
        exact first (-value) common
  | some least =>
      have both (value : Int) :
          isMember value (.infinite from1 by1) = true ∧
              isMember value (.infinite from2 by2) = true ↔
            least ≤ -value ∧ (Int.lcm by1 by2 : Int) ∣ -value - least := by
        rw [isMember_descending_iff negative1 negative2, first.iff_some,
          Int.neg_lcm, Int.lcm_neg]
      by_cases same : by1 = by2
      · refine iff_of_true (intersects_of_iff ⟨_, run, ?_⟩)
          fun apart => apart.2.2.1 same
        intro value
        have flip : value - -least = -(-value - least) := by ring
        rw [both]
        dsimp only
        rw [if_pos same, isMember_infinite_descending negative1, flip, dvd_neg,
          ← same, Int.lcm_self, Int.natCast_natAbs, abs_of_neg negative1,
          neg_dvd, le_neg]
      · have apart : by1 < 0 ∧ by2 < 0 ∧ by1 ≠ by2 ∧
            (Int.gcd by1 by2 : Int) ∣ from1 - from2 :=
          ⟨negative1, negative2, same,
            meet.mpr ⟨-least, by rw [neg_neg]; exact first.2.1⟩⟩
        refine iff_of_false ?_ fun notApart => notApart apart
        rintro ⟨result, run', members⟩
        rw [run] at run'
        cases run'
        have positive : (0 : Int) < Int.lcm by1 by2 := by
          exact_mod_cast Int.lcm_pos (ne_of_lt negative1) (ne_of_lt negative2)
        -- The element after the first common one is not reached.
        have next := members (-least - Int.lcm by1 by2)
        rw [Bool.eq_iff_iff, Bool.and_eq_true, both] at next
        dsimp only at next
        rw [if_neg same, isMember_infinite_ascending positive] at next
        have reached := next.mpr ⟨by linarith, 1, by ring⟩
        linarith [reached.1]

end Intersections

end OpenDylan.Collections.Ranges
