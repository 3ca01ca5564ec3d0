import Mathlib.Tactic.Linarith
import Mathlib.Tactic.Ring

/-!
# Ranges

A range is an arithmetic progression.  It is made from its first element, its
step and a bound, from which a size is computed.
-/

namespace OpenDylan.Collections.Ranges

/-- The concrete classes of `<range>`, with their slots `range-from`,
`range-by` and `size`. -/
inductive Range where
  | empty
  | constant (rangeFrom : Int) (size : Option Int)
  | finite (rangeFrom rangeBy size : Int)
  | infinite (rangeFrom rangeBy : Int)
deriving DecidableEq

/-- The keyword arguments of `make`; `limit` is `to:`. -/
structure Keys where
  rangeFrom : Int := 0
  rangeBy : Int := 1
  limit : Option Int := none
  below : Option Int := none
  above : Option Int := none
  size : Option Int := none

/-- `<range-size-mismatch-error>`, with its format arguments. -/
structure SizeMismatch where
  specified : Int
  inferred : Int
deriving DecidableEq

/-- The quotient of `floor/`. -/
def floorDivide (dividend divisor : Int) : Int := dividend.fdiv divisor

/-- `convert above: or below: to to:` -/
def Keys.convertedLimit (keys : Keys) : Option Int :=
  if 0 < keys.rangeBy then
    match keys.below, keys.limit with
    | none, limit => limit
    | some below, none => some (below - keys.rangeBy)
    | some below, some limit =>
        if limit < below - keys.rangeBy then some (below - keys.rangeBy)
        else some limit
  else
    match keys.above, keys.limit with
    | none, limit => limit
    | some above, none => some (above - keys.rangeBy)
    | some above, some limit =>
        if above - keys.rangeBy < limit then some (above - keys.rangeBy)
        else some limit

/-- The finite range of a size. -/
def makeFinite (keys : Keys) (size : Int) : Range :=
  if size = 0 then .empty
  else .finite keys.rangeFrom keys.rangeBy size

/-- `make(<range>, …)` -/
def makeRange (keys : Keys) : Except SizeMismatch Range :=
  if keys.rangeBy = 0 then
    if (∀ above ∈ keys.above, above < keys.rangeFrom) ∧
        ∀ below ∈ keys.below, keys.rangeFrom < below then
      .ok (.constant keys.rangeFrom keys.size)
    else
      .ok .empty
  else
    match keys.convertedLimit, keys.size with
    | none, none => .ok (.infinite keys.rangeFrom keys.rangeBy)
    | none, some size => .ok (makeFinite keys size)
    | some limit, none =>
        .ok (makeFinite keys (floorDivide
          (limit + keys.rangeBy - keys.rangeFrom) keys.rangeBy))
    | some limit, some size =>
        let inferred := floorDivide
          (limit + keys.rangeBy - keys.rangeFrom) keys.rangeBy
        if size ≠ inferred then .error ⟨size, inferred⟩
        else .ok (makeFinite keys size)

/-! ## Elements -/

/-- `size`, where `none` stands for `#f`. -/
def Range.size : Range → Option Int
  | .empty => some 0
  | .constant _ size => size
  | .finite _ _ size => some size
  | .infinite _ _ => none

/-- `empty?` -/
def Range.isEmpty : Range → Bool
  | .empty => true
  | _ => false

/-- `element`, where `none` stands for the error or the default. -/
def Range.element (key : Int) : Range → Option Int
  | .empty => none
  | .constant rangeFrom size =>
      if ∀ size' ∈ size, key < size' then some rangeFrom else none
  | .finite rangeFrom rangeBy size =>
      if 0 ≤ key ∧ key < size then some (rangeFrom + key * rangeBy) else none
  | .infinite rangeFrom rangeBy => some (rangeFrom + key * rangeBy)

/-- The initial state of `forward-iteration-protocol`. -/
def Range.initialState : Range → Int
  | .empty => 0
  | .constant _ _ => 0
  | .finite rangeFrom _ _ => rangeFrom
  | .infinite rangeFrom _ => rangeFrom

/-- `range-next-state` or `sequence-next-state` -/
def Range.nextState (state : Int) : Range → Int
  | .empty => state
  | .constant _ _ => state + 1
  | .finite _ rangeBy _ => state + rangeBy
  | .infinite _ rangeBy => state + rangeBy

/-- The `finished-state?` of `forward-iteration-protocol`; the limit of a
finite range is its last element. -/
def Range.finishedState (state : Int) : Range → Bool
  | .empty => true
  | .constant _ none => false
  | .constant _ (some size) => state = size
  | .finite rangeFrom rangeBy size =>
      let last := rangeFrom + rangeBy * (size - 1)
      if 0 < rangeBy then last < state else state < last
  | .infinite _ _ => false

/-- `range-current-element` or `constant-range-current-element` -/
def Range.currentElement (state : Int) : Range → Int
  | .empty => state
  | .constant rangeFrom _ => rangeFrom
  | .finite _ _ _ => state
  | .infinite _ _ => state

/-- The element that comes after a number of others when a range is iterated
over from a state. -/
def Range.visited (range : Range) : Nat → Int → Option Int
  | 0, state =>
      if range.finishedState state then none
      else some (range.currentElement state)
  | count + 1, state =>
      if range.finishedState state then none
      else range.visited count (range.nextState state)

/-! ## Denotation -/

/-- At most one bound for a progression; `limit` is `to:`. -/
inductive Bound where
  | unbounded
  | limit (number : Int)
  | below (number : Int)
  | above (number : Int)
  | size (number : Int)
deriving DecidableEq

/-- The keyword arguments for a bound. -/
def Bound.keys (bound : Bound) (first step : Int) : Keys :=
  let keys : Keys := { rangeFrom := first, rangeBy := step }
  match bound with
  | .unbounded => keys
  | .limit number => { keys with limit := some number }
  | .below number => { keys with below := some number }
  | .above number => { keys with above := some number }
  | .size number => { keys with size := some number }

/-- An element of a progression satisfies a bound. -/
def Bound.Admits (first step : Int) (index : Nat) : Bound → Prop
  | .unbounded => True
  | .limit number =>
      if 0 < step then first + index * step ≤ number
      else number ≤ first + index * step
  | .below number => first + index * step < number
  | .above number => number < first + index * step
  | .size number => (index : Int) < number

/-- The progression goes on as long as the elements satisfy the bound. -/
def Bound.Reaches (bound : Bound) (first step : Int) (index : Nat) : Prop :=
  ∀ earlier ≤ index, bound.Admits first step earlier

/-- A range has the elements of a progression, as far as that goes. -/
structure Range.Denotes (range : Range) (first step : Int)
    (reaches : Nat → Prop) : Prop where
  visits : ∀ (index : Nat) (value : Int),
    range.visited index range.initialState = some value ↔
      reaches index ∧ value = first + index * step
  elements : ∀ (index : Nat) (value : Int),
    range.element index = some value ↔
      reaches index ∧ value = first + index * step
  sized : ∀ size, range.size = some size →
    0 ≤ size ∧ ∀ index : Nat, reaches index ↔ (index : Int) < size
  unsized : range.size = none → ∀ index, reaches index
  empty : range.isEmpty = true ↔ ¬reaches 0

section Denotations

variable {first step : Int} {reaches : Nat → Prop}

theorem visited_infinite (index count : Nat) :
    (Range.infinite first step).visited count (first + index * step) =
      some (first + (index + count) * step) := by
  induction count generalizing index with
  | zero =>
      show some (first + index * step) = _
      rw [Nat.cast_zero, add_zero]
  | succ count inductionHypothesis =>
      show (Range.infinite first step).visited count
        (first + index * step + step) = _
      have next : first + index * step + step =
          first + ((index + 1 : Nat) : Int) * step := by
        push_cast
        ring
      rw [next, inductionHypothesis]
      push_cast
      congr 1
      ring

/-- Iteration over a finite range ends after as many elements as its size
says. -/
theorem finishedState_finite (nonzero : step ≠ 0) (size : Int)
    (index : Nat) :
    (Range.finite first step size).finishedState (first + index * step) =
      decide (size ≤ index) := by
  show (if 0 < step then
      decide (first + step * (size - 1) < first + index * step)
    else decide (first + index * step < first + step * (size - 1))) = _
  rcases lt_or_gt_of_ne nonzero with negative | positive
  · rw [if_neg (not_lt_of_gt negative), decide_eq_decide]
    constructor
    · intro later
      by_contra small
      nlinarith
    · intro large
      nlinarith
  · rw [if_pos positive, decide_eq_decide]
    constructor
    · intro later
      by_contra small
      nlinarith
    · intro large
      nlinarith

theorem visited_finite (nonzero : step ≠ 0) (size : Int)
    (index count : Nat) :
    (Range.finite first step size).visited count (first + index * step) =
      if (index + count : Int) < size then
        some (first + (index + count) * step)
      else none := by
  induction count generalizing index with
  | zero =>
      rw [Range.visited, finishedState_finite nonzero, Nat.cast_zero,
        add_zero]
      by_cases small : (index : Int) < size
      · simp [small, Range.currentElement]
      · simp [small, not_lt.mp small]
  | succ count inductionHypothesis =>
      have next : first + index * step + step =
          first + ((index + 1 : Nat) : Int) * step := by
        push_cast
        ring
      have same : ((index + 1 : Nat) : Int) + count =
          index + (count + 1 : Nat) := by
        push_cast
        ring
      rw [Range.visited, finishedState_finite nonzero, Range.nextState, next,
        inductionHypothesis, same]
      by_cases small : (index : Int) < size
      · rw [if_neg]
        simp [not_le.mpr small]
      · have large : ¬(index : Int) + (count + 1 : Nat) < size := by
          push_cast
          omega
        rw [if_pos (by simpa using small), if_neg large]

/-- An infinite range denotes a progression that goes on for ever. -/
theorem denotes_infinite :
    (Range.infinite first step).Denotes first step reaches ↔
      ∀ index, reaches index := by
  constructor
  · intro denotes
    exact denotes.unsized rfl
  · intro all
    have start : ∀ index : Nat, (Range.infinite first step).visited index
        (Range.infinite first step).initialState =
          some (first + index * step) := by
      intro index
      have visits := @visited_infinite first step 0 index
      simpa [Range.initialState] using visits
    constructor
    · intro index value
      rw [start]
      simp [all index, eq_comm]
    · intro index value
      simp [Range.element, all index, eq_comm]
    · intro size isSize
      cases isSize
    · exact fun _ => all
    · simp [Range.isEmpty, all 0]

/-- A range of a size denotes a progression that reaches as many elements. -/
theorem denotes_makeFinite (nonzero : step ≠ 0) (size : Int) {keys : Keys}
    (isFirst : keys.rangeFrom = first) (isStep : keys.rangeBy = step) :
    (makeFinite keys size).Denotes first step reaches ↔
      0 ≤ size ∧ ∀ index : Nat, reaches index ↔ (index : Int) < size := by
  rw [makeFinite, isFirst, isStep]
  constructor
  · intro denotes
    by_cases none : size = 0
    · rw [if_pos none] at denotes
      rw [none]
      exact denotes.sized 0 rfl
    · rw [if_neg none] at denotes
      exact denotes.sized size rfl
  · rintro ⟨nonnegative, bounds⟩
    by_cases none : size = 0
    · rw [if_pos none]
      have absent : ∀ index, ¬reaches index := by
        intro index
        rw [bounds, none]
        omega
      constructor
      · intro index value
        cases index <;> simp [Range.visited, Range.finishedState, absent]
      · intro index value
        simp [Range.element, absent]
      · intro other isSize
        cases isSize
        exact ⟨le_refl 0, by simpa [none] using bounds⟩
      · intro unsized
        cases unsized
      · simp [Range.isEmpty, absent]
    · rw [if_neg none]
      have start : ∀ index : Nat, (Range.finite first step size).visited index
          (Range.finite first step size).initialState =
            if (index : Int) < size then some (first + index * step)
            else Option.none := by
        intro index
        have visits := @visited_finite first step nonzero size 0 index
        simpa [Range.initialState] using visits
      constructor
      · intro index value
        rw [start, bounds]
        by_cases small : (index : Int) < size <;> simp [small, eq_comm]
      · intro index value
        rw [Range.element, bounds]
        by_cases small : (index : Int) < size <;> simp [small, eq_comm]
      · intro other isSize
        cases isSize
        exact ⟨nonnegative, bounds⟩
      · intro unsized
        cases unsized
      · have positive : reaches 0 := by
          rw [bounds]
          omega
        simp [Range.isEmpty, positive]

end Denotations

/-! ## Bounds -/

/-- A size, or a limit that the first element does not exceed by more than a
step, or another bound that the progression meets exactly, or a bound that all
of the progression satisfies. -/
def Bound.Fits (first step : Int) : Bound → Prop
  | .unbounded => True
  | .limit number =>
      if 0 < step then first ≤ number + step else number + step ≤ first
  | .below number =>
      if 0 < step then first ≤ number ∧ step ∣ number - first
      else first < number
  | .above number =>
      if 0 < step then number < first
      else number ≤ first ∧ step ∣ first - number
  | .size number => 0 ≤ number

section Bounds

variable {first step distance : Int} {bound : Bound}

/-- As many steps as fit into a distance. -/
theorem stepsWithin_iff (positive : 0 < step) :
    (0 ≤ floorDivide (distance + step) step ∧ ∀ index : Nat,
      (∀ earlier ≤ index, (earlier : Int) * step ≤ distance) ↔
        (index : Int) < floorDivide (distance + step) step) ↔
      0 ≤ distance + step := by
  rw [floorDivide, Int.fdiv_eq_ediv_of_nonneg _ (le_of_lt positive)]
  have nonnegative : 0 ≤ (distance + step) / step ↔ 0 ≤ distance + step := by
    rw [Int.le_ediv_iff_mul_le positive, zero_mul]
  rw [nonnegative, and_iff_left_iff_imp]
  intro _ index
  rw [← Int.add_one_le_iff, Int.le_ediv_iff_mul_le positive]
  constructor
  · intro all
    have last := all index (Nat.le_refl index)
    linarith
  · intro last earlier before
    have smaller : (earlier : Int) * step ≤ index * step :=
      mul_le_mul_of_nonneg_right (by exact_mod_cast before)
        (le_of_lt positive)
    linarith

/-- The steps short of a distance are as many as its quotient just where the
distance is divisible. -/
theorem stepsBelow_iff (positive : 0 < step) :
    (0 ≤ floorDivide distance step ∧ ∀ index : Nat,
      (∀ earlier ≤ index, (earlier : Int) * step < distance) ↔
        (index : Int) < floorDivide distance step) ↔
      0 ≤ distance ∧ step ∣ distance := by
  rw [floorDivide, Int.fdiv_eq_ediv_of_nonneg _ (le_of_lt positive)]
  have reached : ∀ index : Nat,
      (∀ earlier ≤ index, (earlier : Int) * step < distance) ↔
        (index : Int) * step < distance := by
    intro index
    constructor
    · intro all
      exact all index (Nat.le_refl index)
    · intro last earlier before
      have smaller : (earlier : Int) * step ≤ index * step :=
        mul_le_mul_of_nonneg_right (by exact_mod_cast before)
          (le_of_lt positive)
      exact lt_of_le_of_lt smaller last
  have nonnegative : 0 ≤ distance / step ↔ 0 ≤ distance := by
    rw [Int.le_ediv_iff_mul_le positive, zero_mul]
  simp only [reached]
  rw [nonnegative]
  apply and_congr_right
  intro large
  constructor
  · intro exact'
    have quotient := Int.toNat_of_nonneg (nonnegative.mpr large)
    have notBelow := exact' (distance / step).toNat
    rw [quotient] at notBelow
    have reaches : distance ≤ distance / step * step := by
      by_contra short
      exact lt_irrefl _ (notBelow.mp (not_le.mp short))
    have within := Int.ediv_mul_le distance (ne_of_gt positive)
    exact ⟨distance / step, by linarith⟩
  · rintro ⟨quotient, rfl⟩ index
    rw [Int.mul_ediv_cancel_left _ (ne_of_gt positive), mul_comm step]
    exact mul_lt_mul_iff_of_pos_right positive

theorem floorDivide_neg (dividend divisor : Int) :
    floorDivide (-dividend) (-divisor) = floorDivide dividend divisor :=
  Int.neg_fdiv_neg dividend divisor

/-- A progression that leads away from a bound satisfies it for ever just where
it does at first. -/
theorem reaches_all_iff (nonnegative : 0 ≤ step) :
    (∀ index : Nat, ∀ earlier ≤ index, distance < (earlier : Int) * step) ↔
      distance < 0 := by
  constructor
  · intro all
    simpa using all 0 0 (Nat.le_refl 0)
  · intro negative index earlier _
    have forward : 0 ≤ (earlier : Int) * step :=
      mul_nonneg (by exact_mod_cast Nat.zero_le earlier) nonnegative
    linarith

theorem Bound.keys_rangeFrom : (bound.keys first step).rangeFrom = first := by
  cases bound <;> rfl

theorem Bound.keys_rangeBy : (bound.keys first step).rangeBy = step := by
  cases bound <;> rfl

theorem convertedLimit_plain {keys : Keys} (noBelow : keys.below = none)
    (noAbove : keys.above = none) : keys.convertedLimit = keys.limit := by
  rw [Keys.convertedLimit, noBelow, noAbove]
  exact ite_self keys.limit

/-- What is made from a progression whose step is not zero. -/
theorem makeRange_keys (nonzero : step ≠ 0)
    (noBelow : (bound.keys first step).below = none)
    (noAbove : (bound.keys first step).above = none) :
    makeRange (bound.keys first step) =
      match (bound.keys first step).limit, (bound.keys first step).size with
      | none, none => .ok (.infinite first step)
      | none, some size => .ok (makeFinite (bound.keys first step) size)
      | some limit, none => .ok (makeFinite (bound.keys first step)
          (floorDivide (limit + step - first) step))
      | some limit, some size =>
          if size ≠ floorDivide (limit + step - first) step then
            .error ⟨size, floorDivide (limit + step - first) step⟩
          else .ok (makeFinite (bound.keys first step) size) := by
  rw [makeRange, convertedLimit_plain noBelow noAbove, Bound.keys_rangeBy,
    Bound.keys_rangeFrom, if_neg nonzero]

/-- What a finite range denotes, if the bound is one on the steps. -/
theorem denotes_iff_of_admits {size : Int} {within : Nat → Prop}
    (nonzero : step ≠ 0)
    (admits : ∀ index, bound.Admits first step index ↔ within index) :
    (makeFinite (bound.keys first step) size).Denotes first step
        (bound.Reaches first step) ↔
      0 ≤ size ∧ ∀ index : Nat,
        (∀ earlier ≤ index, within earlier) ↔ (index : Int) < size := by
  rw [denotes_makeFinite nonzero size Bound.keys_rangeFrom
    Bound.keys_rangeBy]
  simp only [Bound.Reaches, admits]

theorem makeRange_limit (nonzero : step ≠ 0) (number : Int) :
    (∃ range, makeRange ((Bound.limit number).keys first step) = .ok range ∧
      range.Denotes first step ((Bound.limit number).Reaches first step)) ↔
      (Bound.limit number).Fits first step := by
  have made : makeRange ((Bound.limit number).keys first step) =
      .ok (makeFinite ((Bound.limit number).keys first step)
        (floorDivide (number + step - first) step)) :=
    makeRange_keys nonzero rfl rfl
  simp only [made, Except.ok.injEq, exists_eq_left', Bound.Fits]
  rcases lt_or_gt_of_ne nonzero with negative | positive
  · have flipped : floorDivide (number + step - first) step =
        floorDivide ((first - number) + -step) (-step) := by
      rw [← floorDivide_neg]
      congr 1
      ring
    have admits : ∀ index : Nat, (Bound.limit number).Admits first step index ↔
        (index : Int) * -step ≤ first - number := by
      intro index
      simp only [Bound.Admits, if_neg (not_lt_of_gt negative)]
      constructor <;> intro <;> linarith
    rw [flipped, if_neg (not_lt_of_gt negative),
      denotes_iff_of_admits nonzero admits,
      stepsWithin_iff (neg_pos.mpr negative)]
    constructor <;> intro <;> linarith
  · have same : number + step - first = (number - first) + step := by ring
    have admits : ∀ index : Nat, (Bound.limit number).Admits first step index ↔
        (index : Int) * step ≤ number - first := by
      intro index
      simp only [Bound.Admits, if_pos positive]
      constructor <;> intro <;> linarith
    rw [same, if_pos positive, denotes_iff_of_admits nonzero admits,
      stepsWithin_iff positive]
    constructor <;> intro <;> linarith

theorem makeRange_below (nonzero : step ≠ 0) (number : Int) :
    (∃ range, makeRange ((Bound.below number).keys first step) = .ok range ∧
      range.Denotes first step ((Bound.below number).Reaches first step)) ↔
      (Bound.below number).Fits first step := by
  rw [Bound.Fits]
  rcases lt_or_gt_of_ne nonzero with negative | positive
  · have made : makeRange ((Bound.below number).keys first step) =
        .ok (.infinite first step) := by
      simp [makeRange, Bound.keys, Keys.convertedLimit, nonzero,
        not_lt_of_gt negative]
    have admits : ∀ index : Nat, (Bound.below number).Admits first step index ↔
        first - number < (index : Int) * -step := by
      intro index
      simp only [Bound.Admits]
      constructor <;> intro <;> linarith
    simp only [made, Except.ok.injEq, exists_eq_left', denotes_infinite,
      Bound.Reaches, admits]
    rw [reaches_all_iff (le_of_lt (neg_pos.mpr negative)),
      if_neg (not_lt_of_gt negative)]
    exact sub_neg
  · have made : makeRange ((Bound.below number).keys first step) =
        .ok (makeFinite ((Bound.below number).keys first step)
          (floorDivide (number - first) step)) := by
      simp [makeRange, Bound.keys, Keys.convertedLimit, nonzero, positive]
    have admits : ∀ index : Nat, (Bound.below number).Admits first step index ↔
        (index : Int) * step < number - first := by
      intro index
      simp only [Bound.Admits]
      constructor <;> intro <;> linarith
    simp only [made, Except.ok.injEq, exists_eq_left']
    rw [denotes_iff_of_admits nonzero admits,
      stepsBelow_iff positive, if_pos positive, sub_nonneg]

theorem makeRange_above (nonzero : step ≠ 0) (number : Int) :
    (∃ range, makeRange ((Bound.above number).keys first step) = .ok range ∧
      range.Denotes first step ((Bound.above number).Reaches first step)) ↔
      (Bound.above number).Fits first step := by
  rw [Bound.Fits]
  rcases lt_or_gt_of_ne nonzero with negative | positive
  · have made : makeRange ((Bound.above number).keys first step) =
        .ok (makeFinite ((Bound.above number).keys first step)
          (floorDivide (number - first) step)) := by
      simp [makeRange, Bound.keys, Keys.convertedLimit, nonzero,
        not_lt_of_gt negative]
    have flipped : floorDivide (number - first) step =
        floorDivide (first - number) (-step) := by
      rw [← floorDivide_neg, neg_sub]
    have admits : ∀ index : Nat, (Bound.above number).Admits first step index ↔
        (index : Int) * -step < first - number := by
      intro index
      simp only [Bound.Admits]
      constructor <;> intro <;> linarith
    simp only [made, Except.ok.injEq, exists_eq_left']
    rw [flipped, denotes_iff_of_admits nonzero admits,
      stepsBelow_iff (neg_pos.mpr negative), if_neg (not_lt_of_gt negative),
      sub_nonneg, Int.neg_dvd]
  · have made : makeRange ((Bound.above number).keys first step) =
        .ok (.infinite first step) := by
      simp [makeRange, Bound.keys, Keys.convertedLimit, nonzero, positive]
    have admits : ∀ index : Nat, (Bound.above number).Admits first step index ↔
        number - first < (index : Int) * step := by
      intro index
      simp only [Bound.Admits]
      constructor <;> intro <;> linarith
    simp only [made, Except.ok.injEq, exists_eq_left', denotes_infinite,
      Bound.Reaches, admits]
    rw [reaches_all_iff (le_of_lt positive), if_pos positive]
    exact sub_neg

end Bounds

end OpenDylan.Collections.Ranges
