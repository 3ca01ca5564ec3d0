import OpenDylan.Collections.Range
import OpenDylan.Lib.Progression
import OpenDylan.Numbers.IntegerGcd

/-!
# Intersections of ranges

Two ranges are intersected by stepping along one of them to a first element
that is in both, and for bounded ranges also to a last one; the step of the
intersection is the least common multiple of the steps.  That multiple is
positive for different negative steps, so the intersection of two descending
infinite ranges with different steps goes in the wrong direction.
-/

namespace OpenDylan.Collections.Ranges

open OpenDylan.Lib.Progression OpenDylan.Numbers

/-- What stops an operation: an error of the arithmetic, the errors that the
source signals, and endless running. -/
inductive Stop where
  | arithmetic (stop : IntegerGcd.Stop)
  | sizeMismatch (mismatch : SizeMismatch)
  | infiniteRange
  | subscriptOutOfBounds
  | endless
deriving DecidableEq

/-! ## Ranges as progressions -/

/-- `range-from` -/
def Range.rangeFrom : Range → Int
  | .empty => 0
  | .constant rangeFrom _ => rangeFrom
  | .finite rangeFrom _ _ => rangeFrom
  | .infinite rangeFrom _ => rangeFrom

/-- `range-by` -/
def Range.rangeBy : Range → Int
  | .empty => 0
  | .constant _ _ => 0
  | .finite _ rangeBy _ => rangeBy
  | .infinite _ rangeBy => rangeBy

/-- `last` -/
def Range.last : Range → Except Stop Int
  | .finite rangeFrom rangeBy size => .ok (rangeFrom + rangeBy * (size - 1))
  | .constant rangeFrom _ => .ok rangeFrom
  | .infinite _ _ => .error .infiniteRange
  | .empty => .error .subscriptOutOfBounds

/-- `find-key-for-element` -/
def findKeyForElement (value : Int) : Range → Option Int
  | .empty => none
  | .constant rangeFrom _ => if value = rangeFrom then some 0 else none
  | .infinite rangeFrom rangeBy =>
      let key := (value - rangeFrom).tdiv rangeBy
      let rem := (value - rangeFrom).tmod rangeBy
      if rem = 0 ∧ 0 ≤ key then some key else none
  | .finite rangeFrom rangeBy size =>
      let key := (value - rangeFrom).tdiv rangeBy
      let rem := (value - rangeFrom).tmod rangeBy
      if rem = 0 ∧ 0 ≤ key ∧ key < size then some key else none

/-- `member?` with the test `\==`. -/
def isMember (value : Int) (range : Range) : Bool :=
  (findKeyForElement value range).isSome

/-! ## Intersection -/

/-- `make(<range>, …)` -/
def make (keys : Keys) : Except Stop Range :=
  (makeRange keys).mapError .sizeMismatch

/-- `same-sign?`, of numbers that are not zero. -/
def sameSign (x y : Int) : Bool :=
  if 0 < x then 0 < y else y < 0

/-- The loop of `first-intersection`. -/
def firstIntersectionLoop (by1 from2 by2 i n : Int) : Option Int :=
  if i < by2 then
    if (n - from2).tmod by2 = 0 then some n
    else firstIntersectionLoop by1 from2 by2 (i + 1) (n + by1)
  else
    none
termination_by (by2 - i).toNat
decreasing_by omega

/-- `first-intersection`, with a bound on the depth of the recursion. -/
def firstIntersection : (depth : Nat) → (from1 by1 from2 by2 : Int) →
    Except Stop (Option Int)
  | 0, _, _, _, _ => .error .endless
  | depth + 1, from1, by1, from2, by2 =>
      if by1 < 0 then do
        let neg ← firstIntersection depth (-from1) (-by1) (-from2) (-by2)
        return neg.map fun neg => -neg
      else if from1 < from2 then
        firstIntersection depth from2 by2 from1 by1
      else
        .ok (firstIntersectionLoop by1 from2 by2 0 from1)

/-- `lcm` -/
def lcm (rounds : Nat) (by1 by2 : Int) : Except Stop Int :=
  (IntegerGcd.lcm rounds by1 by2).mapError .arithmetic

/-- `ordered-finite-intersection` -/
def orderedFiniteIntersection (rounds : Nat)
    (lo1 by1 hi1 lo2 by2 hi2 : Int) : Except Stop Range :=
  if hi1 < lo2 ∨ hi2 < lo1 then
    return .empty
  else do
    match ← firstIntersection rounds lo1 by1 lo2 by2 with
    | none => return .empty
    | some first =>
        if first ≥ lo1 ∧ first ≥ lo2 then
          match ← firstIntersection rounds hi1 (-by1) hi2 (-by2) with
          | none => return .empty
          | some last =>
              if last ≤ hi1 ∧ last ≤ hi2 then
                let step ← lcm rounds by1 by2
                make { rangeFrom := first, limit := some last, rangeBy := step }
              else
                return .empty
        else
          return .empty

/-- `finite-intersection` -/
def finiteIntersection (rounds : Nat) (from1 by1 to1 from2 by2 to2 : Int) :
    Except Stop Range :=
  if by1 < 0 then
    if by2 < 0 then
      orderedFiniteIntersection rounds to1 (-by1) from1 to2 (-by2) from2
    else
      orderedFiniteIntersection rounds to1 (-by1) from1 from2 by2 to2
  else
    if by2 < 0 then
      orderedFiniteIntersection rounds from1 by1 to1 to2 (-by2) from2
    else
      orderedFiniteIntersection rounds from1 by1 to1 from2 by2 to2

/-- `last-of-in`, of an infinite range in another range. -/
def lastOfIn (range within : Range) : Except Stop Int := do
  let bound ←
    if sameSign within.rangeBy range.rangeBy then within.last
    else pure within.rangeFrom
  let n := (bound - range.rangeFrom).tdiv range.rangeBy
  return n * range.rangeBy + range.rangeFrom

/-- `id?-intersection-with-constant` -/
def intersectionWithConstant (value : Int) (range : Range) :
    Except Stop Range :=
  if isMember value range then
    make { rangeFrom := value, size := some 1 }
  else
    return .empty

/-- `id?-intersection` -/
def idIntersection (rounds : Nat) (r1 r2 : Range) : Except Stop Range :=
  match r1, r2 with
  | .empty, _ => return .empty
  | _, .empty => return .empty
  | .constant from1 size1, .constant from2 size2 =>
      if from1 = from2 then
        let first :=
          match size1, size2 with
          | some size1, some size2 => decide (size1 < size2)
          | some _, none => true
          | none, _ => false
        if first then return .constant from1 size1
        else return .constant from2 size2
      else
        return .empty
  | .constant value _, range => intersectionWithConstant value range
  | range, .constant value _ => intersectionWithConstant value range
  | .finite from1 by1 _, .finite from2 by2 _ => do
      let last1 ← r1.last
      let last2 ← r2.last
      finiteIntersection rounds from1 by1 last1 from2 by2 last2
  | .finite from1 by1 _, .infinite from2 by2 => do
      let last1 ← r1.last
      let last2 ← lastOfIn r2 r1
      finiteIntersection rounds from1 by1 last1 from2 by2 last2
  | .infinite from1 by1, .finite from2 by2 _ => do
      let last1 ← lastOfIn r1 r2
      let last2 ← r2.last
      finiteIntersection rounds from1 by1 last1 from2 by2 last2
  | .infinite from1 by1, .infinite from2 by2 =>
      if sameSign by1 by2 then do
        match ← firstIntersection rounds from1 by1 from2 by2 with
        | none => return .empty
        | some first =>
            let step ← lcm rounds by1 by2
            make { rangeFrom := first, rangeBy := step }
      else do
        let last1 ← lastOfIn r1 r2
        let last2 ← lastOfIn r2 r1
        finiteIntersection rounds from1 by1 last1 from2 by2 last2

/-! ## Members -/

/-- The steps of finite and infinite ranges are not zero. -/
def Range.WellFormed : Range → Prop
  | .finite _ rangeBy _ => rangeBy ≠ 0
  | .infinite _ rangeBy => rangeBy ≠ 0
  | _ => True

section Members

variable {first step size value : Int}

/-- A quotient without a remainder is a number of steps. -/
theorem tdiv_tmod_iff {key : Int} (nonzero : step ≠ 0) :
    (value - first).tmod step = 0 ∧ (value - first).tdiv step = key ↔
      value = first + key * step := by
  have whole := Int.tdiv_mul_add_tmod (value - first) step
  constructor
  · rintro ⟨rest, rfl⟩
    rw [rest] at whole
    linarith
  · intro isValue
    have difference : value - first = key * step := by linarith
    rw [difference]
    exact ⟨Int.mul_tmod_left key step, Int.mul_tdiv_cancel key nonzero⟩

theorem isMember_infinite (nonzero : step ≠ 0) :
    isMember value (.infinite first step) = true ↔
      ∃ key, 0 ≤ key ∧ value = first + key * step := by
  rw [isMember, findKeyForElement]
  constructor
  · intro found
    by_cases both : (value - first).tmod step = 0 ∧
        0 ≤ (value - first).tdiv step
    · exact ⟨_, both.2, (tdiv_tmod_iff nonzero).mp ⟨both.1, rfl⟩⟩
    · simp [if_neg both] at found
  · rintro ⟨key, nonnegative, isValue⟩
    obtain ⟨rest, isKey⟩ := (tdiv_tmod_iff nonzero).mpr isValue
    rw [if_pos ⟨rest, by rw [isKey]; exact nonnegative⟩]
    rfl

theorem isMember_finite (nonzero : step ≠ 0) :
    isMember value (.finite first step size) = true ↔
      ∃ key, 0 ≤ key ∧ key < size ∧ value = first + key * step := by
  rw [isMember, findKeyForElement]
  constructor
  · intro found
    by_cases all : (value - first).tmod step = 0 ∧
        0 ≤ (value - first).tdiv step ∧ (value - first).tdiv step < size
    · exact ⟨_, all.2.1, all.2.2, (tdiv_tmod_iff nonzero).mp ⟨all.1, rfl⟩⟩
    · simp [if_neg all] at found
  · rintro ⟨key, nonnegative, small, isValue⟩
    obtain ⟨rest, isKey⟩ := (tdiv_tmod_iff nonzero).mpr isValue
    rw [if_pos ⟨rest, by rw [isKey]; exact ⟨nonnegative, small⟩⟩]
    rfl

theorem isMember_constant {count : Option Int} :
    isMember value (.constant first count) = true ↔ value = first := by
  rw [isMember, findKeyForElement]
  split <;> simp [*]

theorem isMember_empty : isMember value .empty = false := rfl

/-- Between two numbers that are whole steps apart, whole steps from either. -/
def Between (low step high value : Int) : Prop :=
  low ≤ value ∧ value ≤ high ∧ step ∣ value - low

/-- An ascending infinite range has all elements from its first one on. -/
theorem isMember_infinite_ascending (positive : 0 < step) :
    isMember value (.infinite first step) = true ↔
      first ≤ value ∧ step ∣ value - first := by
  rw [isMember_infinite (ne_of_gt positive)]
  constructor
  · rintro ⟨key, nonnegative, rfl⟩
    have forward := mul_nonneg nonnegative (le_of_lt positive)
    exact ⟨by linarith, key, by ring⟩
  · rintro ⟨after, key, isKey⟩
    refine ⟨key, ?_, by linarith⟩
    by_contra negative
    nlinarith

theorem isMember_infinite_neg :
    isMember (-value) (.infinite (-first) (-step)) =
      isMember value (.infinite first step) := by
  have flip : -value - -first = -(value - first) := by ring
  rw [isMember, isMember, findKeyForElement, findKeyForElement, flip,
    Int.neg_tdiv_neg, Int.tmod_neg, Int.neg_tmod]
  simp only [neg_eq_zero]

theorem isMember_finite_neg :
    isMember (-value) (.finite (-first) (-step) size) =
      isMember value (.finite first step size) := by
  have flip : -value - -first = -(value - first) := by ring
  rw [isMember, isMember, findKeyForElement, findKeyForElement, flip,
    Int.neg_tdiv_neg, Int.tmod_neg, Int.neg_tmod]
  simp only [neg_eq_zero]

theorem isMember_finite_ascending (positive : 0 < step) :
    isMember value (.finite first step size) = true ↔
      Between first step (first + step * (size - 1)) value := by
  rw [isMember_finite (ne_of_gt positive)]
  constructor
  · rintro ⟨key, nonnegative, small, rfl⟩
    refine ⟨?_, ?_, key, by ring⟩
    · have forward := mul_nonneg nonnegative (le_of_lt positive)
      linarith
    · nlinarith
  · rintro ⟨after, before, key, isKey⟩
    refine ⟨key, ?_, ?_, by linarith⟩
    · by_contra negative
      nlinarith
    · by_contra large
      nlinarith

theorem isMember_infinite_descending (negative : step < 0) :
    isMember value (.infinite first step) = true ↔
      value ≤ first ∧ step ∣ value - first := by
  have flip : -value - -first = -(value - first) := by ring
  rw [← isMember_infinite_neg, isMember_infinite_ascending (neg_pos.mpr negative),
    flip, dvd_neg, neg_dvd, neg_le_neg_iff]

/-- From a first element in steps to a last one. -/
def Spans (first step last value : Int) : Prop :=
  if step < 0 then Between last (-step) first value
  else Between first step last value

/-- What is between numbers is also between them with all signs changed. -/
theorem between_neg {low high : Int} (aligned : step ∣ high - low) :
    Between (-high) step (-low) (-value) ↔ Between low step high value := by
  have flip : -value - -high = (high - low) - (value - low) := by ring
  rw [Between, Between, flip, dvd_sub_right aligned, neg_le_neg_iff,
    neg_le_neg_iff]
  tauto

theorem isMember_finite_spans (nonzero : step ≠ 0) :
    isMember value (.finite first step size) = true ↔
      Spans first step (first + step * (size - 1)) value := by
  rw [Spans]
  rcases lt_or_gt_of_ne nonzero with negative | positive
  · rw [if_pos negative, ← isMember_finite_neg,
      isMember_finite_ascending (neg_pos.mpr negative), ← between_neg]
    · have ends : -(-first + -step * (size - 1)) = first + step * (size - 1) := by
        ring
      rw [ends, neg_neg, neg_neg]
    · exact ⟨size - 1, by ring⟩
  · rw [if_neg (not_lt_of_gt positive), isMember_finite_ascending positive]

end Members

end OpenDylan.Collections.Ranges
