import OpenDylan.Collections.RangeIntersection

/-!
# Ranges as sequences

The sequence operations of ranges keep a range where the element is at one of
its ends, and fall back to a list otherwise.  They are compared with the
operations on the list of the elements.
-/

namespace OpenDylan.Collections.Ranges

/-! ## Sequences -/

/-- What stops a sequence operation: `cannotAdd` and `cannotRemove` stand for
`<incompatible-range-error>`, and `notFunction` for a test that is `#f`. -/
inductive Refusal where
  | stopped (stop : Stop)
  | cannotAdd (elt : Int) (range : Range)
  | cannotRemove (elt : Int) (range : Range)
  | notFunction
  | naturalNumber (count : Int)
deriving DecidableEq

/-- The `<sequence>` that an operation returns. -/
inductive Sequence where
  | range (range : Range)
  | list (elements : List Int)
deriving DecidableEq

/-- `make(<range>, …)` within an operation. -/
def makeSequence (keys : Keys) : Except Refusal Sequence :=
  ((make keys).map .range).mapError .stopped

/-! ## Lists -/

/-- The loop of `remove!` on a `<list>`; a count below zero is no limit. -/
def listRemoveLoop (test : Int → Int → Bool) (value : Int) :
    Int → List Int → List Int
  | _, [] => []
  | count, head :: tail =>
      if test head value then
        if count - 1 = 0 then tail else listRemoveLoop test value (count - 1) tail
      else
        head :: listRemoveLoop test value count tail

/-- `remove!` on a `<list>` -/
def listRemove (elements : List Int) (value : Int) (test : Int → Int → Bool)
    (count : Option Int) : Except Refusal (List Int) :=
  match count with
  | none => .ok (listRemoveLoop test value (-1) elements)
  | some count =>
      if count < 0 then .error (.naturalNumber count)
      else if count = 0 then .ok elements
      else .ok (listRemoveLoop test value count elements)

/-! ## Copies -/

/-- The initial state of `backward-iteration-protocol`. -/
def Range.finalState : Range → Except Stop Int
  | .empty => .ok 0
  | .constant _ none => .error .infiniteRange
  | .constant _ (some size) => .ok (size - 1)
  | .finite rangeFrom rangeBy size => .ok (rangeFrom + rangeBy * (size - 1))
  | .infinite _ _ => .error .infiniteRange

/-- `range-previous-state` or `sequence-previous-state` -/
def Range.previousState (state : Int) : Range → Int
  | .empty => state
  | .constant _ _ => state - 1
  | .finite _ rangeBy _ => state - rangeBy
  | .infinite _ rangeBy => state - rangeBy

/-- The `finished-state?` of `backward-iteration-protocol`. -/
def Range.backwardFinishedState (state : Int) : Range → Bool
  | .empty => true
  | .constant _ _ => state = -1
  | .finite rangeFrom rangeBy _ =>
      if 0 < rangeBy then state < rangeFrom else rangeFrom < state
  | .infinite _ _ => false

/-- The loop of `shallow-copy`, with a bound on its rounds. -/
def shallowCopyLoop (range : Range) : Nat → Int → List Int →
    Except Stop (List Int)
  | 0, _, _ => .error .endless
  | rounds + 1, state, list =>
      if range.backwardFinishedState state then
        .ok list
      else
        shallowCopyLoop range rounds (range.previousState state)
          (range.currentElement state :: list)

/-- `shallow-copy` -/
def shallowCopy (range : Range) : Except Stop (List Int) := do
  let state ← range.finalState
  shallowCopyLoop range ((range.size.getD 0).toNat + 1) state []

/-- `copy-sequence`; `last` is `end:`, whose default is the size. -/
def copySequence (range : Range) (start : Int) (last : Option Int) :
    Except Stop Range :=
  match range with
  | .empty => .ok .empty
  | range => do
      let rangeFrom ← (range.element start).elim
        (.error .subscriptOutOfBounds) .ok
      let keys : Keys := { rangeFrom := rangeFrom, rangeBy := range.rangeBy }
      match last.or range.size with
      | some last =>
          let newEnd :=
            match range.size with
            | some size => if last > size then size else last
            | none => last
          make { keys with size := some (newEnd - start) }
      | none => make keys

/-! ## Adding an element -/

/-- A list with an element in front, or the failure to make it. -/
def addToList (range : Range) (elt : Int) : Except Refusal Sequence :=
  ((shallowCopy range).map fun list => .list (elt :: list)).mapError .stopped

/-- `add!` -/
def addInPlace (range : Range) (elt : Int) : Except Refusal Sequence :=
  match range with
  | .empty => makeSequence { rangeFrom := elt, size := some 1 }
  | .infinite rangeFrom rangeBy =>
      let prev := rangeFrom - rangeBy
      if elt = prev then .ok (.range (.infinite prev rangeBy))
      else .error (.cannotAdd elt range)
  | .constant rangeFrom size =>
      if elt = rangeFrom then
        .ok (.range (.constant rangeFrom (size.map (· + 1))))
      else if size = some 1 then
        makeSequence {
          rangeFrom := rangeFrom, rangeBy := elt - rangeFrom, size := some 2 }
      else
        addToList range elt
  | .finite rangeFrom rangeBy size =>
      if elt = rangeFrom + rangeBy * (size - 1) + rangeBy then
        .ok (.range (.finite rangeFrom rangeBy (size + 1)))
      else if elt = rangeFrom - rangeBy then
        .ok (.range (.finite (rangeFrom - rangeBy) rangeBy (size + 1)))
      else if size = 1 then
        if elt = rangeFrom then
          makeSequence { rangeFrom := elt, rangeBy := 0, size := some 2 }
        else
          .ok (.range (.finite rangeFrom (elt - rangeFrom) (size + 1)))
      else
        addToList range elt

/-- `add` -/
def add (range : Range) (elt : Int) : Except Refusal Sequence := do
  let copy ← (copySequence range 0 none).mapError .stopped
  addInPlace copy elt

/-! ## Removing an element -/

/-- The fallback to a list, to which the test is passed on. -/
def removeFromList (range : Range) (elt : Int)
    (test : Option (Int → Int → Bool)) (count : Option Int) :
    Except Refusal Sequence := do
  let list ← (shallowCopy range).mapError .stopped
  match test with
  | none => .error .notFunction
  | some test => return .list (← listRemove list elt test count)

/-- `~count | count > 0` -/
def removesAny (count : Option Int) : Bool := ∀ limit ∈ count, limit > 0

/-- `remove!`; `none` is a test or a count that is not supplied. -/
def removeInPlace (range : Range) (elt : Int)
    (test : Option (Int → Int → Bool)) (count : Option Int) :
    Except Refusal Sequence :=
  match range with
  | .empty => .ok (.range range)
  | .infinite rangeFrom rangeBy =>
      if elt = rangeFrom then
        .ok (.range (if removesAny count then
          .infinite (rangeFrom + rangeBy) rangeBy else range))
      else
        .error (.cannotRemove elt range)
  | .constant rangeFrom size =>
      if removesAny count then
        if elt = rangeFrom then
          .ok (.range (.constant rangeFrom (size.map (· - 1))))
        else if size = some 1 then
          .ok (.range .empty)
        else if isMember elt range then
          removeFromList range elt test count
        else
          .ok (.range range)
      else
        .ok (.range range)
  | .finite rangeFrom rangeBy size =>
      if removesAny count then
        if size = 1 ∧ elt = rangeFrom then
          .ok (.range .empty)
        else if elt = rangeFrom + rangeBy * (size - 1) then
          .ok (.range (.finite rangeFrom rangeBy (size - 1)))
        else if elt = rangeFrom then
          .ok (.range (.finite (rangeFrom + rangeBy) rangeBy (size - 1)))
        else if count.isSome ∧ isMember elt range then
          removeFromList range elt test count
        else
          .ok (.range range)
      else
        .ok (.range range)

/-- `remove` -/
def remove (range : Range) (elt : Int) (test : Option (Int → Int → Bool))
    (count : Option Int) : Except Refusal Sequence := do
  let copy ← (copySequence range 0 none).mapError .stopped
  removeInPlace copy elt test count

/-! ## Reversing -/

/-- `reverse!` -/
def reverseInPlace : Range → Except Stop Range
  | .empty => .ok .empty
  | .infinite _ _ => .error .infiniteRange
  | .constant rangeFrom size =>
      if size = none then .error .infiniteRange
      else .ok (.constant rangeFrom size)
  | .finite rangeFrom rangeBy size =>
      .ok (.finite (rangeFrom + rangeBy * (size - 1)) (-rangeBy) size)

/-- `reverse` -/
def reverse (range : Range) : Except Stop Range := do
  reverseInPlace (← copySequence range 0 none)

/-! ## The elements of finite ranges -/

/-- The numbers of a progression. -/
def progression (first step : Int) (count : Nat) : List Int :=
  (List.range count).map fun index : Nat => first + index * step

/-- The list of the elements of a finite range. -/
def elements : Range → List Int
  | .constant rangeFrom (some size) => List.replicate size.toNat rangeFrom
  | .finite rangeFrom rangeBy size => progression rangeFrom rangeBy size.toNat
  | _ => []

/-- A range with finitely many elements; one that is neither empty nor constant
has a step and at least one element. -/
def Range.IsFinite : Range → Prop
  | .empty => True
  | .constant _ (some size) => 0 ≤ size
  | .constant _ none => False
  | .finite _ rangeBy size => rangeBy ≠ 0 ∧ 1 ≤ size
  | .infinite _ _ => False

/-- Iteration over a sequence meets the elements of a list. -/
def Sequence.HasElements (expected : List Int) : Sequence → Prop
  | .range made => ∀ index : Nat,
      made.visited index made.initialState = expected[index]?
  | .list given => given = expected

theorem getElem?_progression (first step : Int) (count index : Nat) :
    (progression first step count)[index]? =
      if index < count then some (first + index * step) else none := by
  unfold progression
  rw [List.getElem?_map]
  split
  · next inside => rw [List.getElem?_range inside]; rfl
  · next outside =>
    rw [List.getElem?_eq_none (by simpa using outside)]
    rfl

theorem hasElements_empty {expected : List Int} :
    (Sequence.range .empty).HasElements expected ↔ expected = [] := by
  constructor
  · intro elements
    have first := elements 0
    cases expected with
    | nil => rfl
    | cons head tail => cases first
  · rintro rfl index
    cases index <;> rfl

/-- A finite range has the elements of its progression. -/
theorem hasElements_finite {first step size : Int} (nonzero : step ≠ 0)
    {expected : List Int} :
    (Sequence.range (.finite first step size)).HasElements expected ↔
      progression first step size.toNat = expected := by
  have visits : ∀ index : Nat, (Range.finite first step size).visited index
      (Range.finite first step size).initialState =
        (progression first step size.toNat)[index]? := by
    intro index
    have visited := @visited_finite first step nonzero size 0 index
    have start : first + ((0 : Nat) : Int) * step = first := by simp
    have same : (index : Int) < size ↔ index < size.toNat := by omega
    have next : ((0 : Nat) : Int) + index = index := by simp
    rw [start] at visited
    rw [getElem?_progression]
    show (Range.finite first step size).visited index first = _
    rw [visited]
    simp only [next, same]
  constructor
  · intro elements
    refine List.ext_getElem? fun index => ?_
    rw [← elements index, visits]
  · rintro rfl index
    exact visits index

theorem visited_constant (rangeFrom size : Int) (state count : Nat) :
    (Range.constant rangeFrom (some size)).visited count state =
      if 0 ≤ size - state ∧ size - state ≤ count then none
      else some rangeFrom := by
  induction count generalizing state with
  | zero =>
      show (if decide ((state : Int) = size) = true then none
        else some rangeFrom) = _
      by_cases ended : (state : Int) = size
      · rw [if_pos (by simpa using ended), if_pos (by omega)]
      · rw [if_neg (by simpa using ended), if_neg (by omega)]
  | succ count inductionHypothesis =>
      have step := inductionHypothesis (state + 1)
      show (if decide ((state : Int) = size) = true then none
        else (Range.constant rangeFrom (some size)).visited count
          ((state : Int) + 1)) = _
      push_cast at step ⊢
      by_cases ended : (state : Int) = size
      · rw [if_pos (by simpa using ended), if_pos (by omega)]
      · rw [if_neg (by simpa using ended), step]
        have same : (0 ≤ size - (state + 1) ∧ size - (state + 1) ≤ (count : Int)) ↔
            0 ≤ size - state ∧ size - state ≤ (count : Int) + 1 := by omega
        simp only [same]

/-- A constant range has as many copies as its size says, and does not end if
the size is negative. -/
theorem hasElements_constant {first size : Int} {expected : List Int} :
    (Sequence.range (.constant first (some size))).HasElements expected ↔
      0 ≤ size ∧ List.replicate size.toNat first = expected := by
  have visits : ∀ index : Nat,
      (Range.constant first (some size)).visited index 0 =
        if 0 ≤ size ∧ size ≤ index then none else some first := by
    intro index
    have visited := visited_constant first size 0 index
    simpa using visited
  constructor
  · intro elements
    have nonnegative : 0 ≤ size := by
      have last := elements expected.length
      rw [List.getElem?_eq_none (Nat.le_refl _)] at last
      have none := (visits expected.length).symm.trans last
      by_contra negative
      rw [if_neg (by omega)] at none
      cases none
    refine ⟨nonnegative, List.ext_getElem? fun index => ?_⟩
    rw [← elements index]
    show _ = (Range.constant first (some size)).visited index 0
    rw [visits, List.getElem?_replicate]
    by_cases inside : index < size.toNat
    · rw [if_pos inside, if_neg (by omega)]
    · rw [if_neg inside, if_pos (by omega)]
  · rintro ⟨nonnegative, rfl⟩ index
    show (Range.constant first (some size)).visited index 0 = _
    rw [visits, List.getElem?_replicate]
    by_cases inside : index < size.toNat
    · rw [if_pos inside, if_neg (by omega)]
    · rw [if_neg inside, if_pos (by omega)]

/-- Iteration over a finite range meets its elements. -/
theorem hasElements_elements {range : Range} (finite : range.IsFinite) :
    (Sequence.range range).HasElements (elements range) := by
  match range, finite with
  | .empty, _ => exact hasElements_empty.mpr rfl
  | .constant _ (some _), nonnegative =>
      exact hasElements_constant.mpr ⟨nonnegative, rfl⟩
  | .finite _ _ _, both => exact (hasElements_finite both.1).mpr rfl

/-! ## Progressions -/

theorem progression_succ (first step : Int) (count : Nat) :
    progression first step (count + 1) =
      progression first step count ++ [first + count * step] := by
  unfold progression
  rw [List.range_succ, List.map_append, List.map_singleton]

theorem progression_cons (first step : Int) (count : Nat) :
    progression first step (count + 1) =
      first :: progression (first + step) step count := by
  refine List.ext_getElem? fun index => ?_
  cases index with
  | zero =>
      rw [getElem?_progression, if_pos (Nat.succ_pos count)]
      show some _ = some _
      simp
  | succ index =>
      rw [List.getElem?_cons_succ, getElem?_progression, getElem?_progression]
      by_cases inside : index < count
      · rw [if_pos inside, if_pos (by omega)]
        congr 1
        push_cast
        ring
      · rw [if_neg inside, if_neg (by omega)]

theorem mem_progression {first step number : Int} {count : Nat} :
    number ∈ progression first step count ↔
      ∃ index : Nat, index < count ∧ number = first + index * step := by
  unfold progression
  simp only [List.mem_map, List.mem_range, eq_comm]

theorem length_progression (first step : Int) (count : Nat) :
    (progression first step count).length = count := by
  unfold progression
  rw [List.length_map, List.length_range]

theorem reverse_progression (first step : Int) (count : Nat) :
    (progression first step count).reverse =
      progression (first + step * (count - 1)) (-step) count := by
  refine List.ext_getElem? fun index => ?_
  by_cases inside : index < count
  · rw [List.getElem?_reverse (by rwa [length_progression]),
      length_progression, getElem?_progression, getElem?_progression,
      if_pos (by omega), if_pos inside]
    have cast : ((count - 1 - index : Nat) : Int) = count - 1 - index := by
      omega
    rw [cast]
    congr 1
    ring
  · rw [getElem?_progression, if_neg inside, List.getElem?_eq_none]
    rw [List.length_reverse, length_progression]
    omega

theorem extract_progression (first step : Int) {start last count : Nat}
    (bounded : last ≤ count) :
    (progression first step count).extract start last =
      progression (first + start * step) step (last - start) := by
  refine List.ext_getElem? fun index => ?_
  rw [List.extract_eq_take_drop, List.getElem?_take, List.getElem?_drop,
    getElem?_progression, getElem?_progression]
  by_cases inside : index < last - start
  · rw [if_pos inside, if_pos inside, if_pos (by omega)]
    congr 1
    push_cast
    ring
  · rw [if_neg inside, if_neg inside]

/-! ## Copies -/

theorem shallowCopyLoop_constant (first size : Int) (count : Nat)
    (list : List Int) :
    shallowCopyLoop (.constant first (some size)) (count + 1)
      ((count : Int) - 1) list = .ok (List.replicate count first ++ list) := by
  induction count generalizing list with
  | zero => rfl
  | succ count inductionHypothesis =>
      have next : ((count + 1 : Nat) : Int) - 1 - 1 = (count : Int) - 1 := by
        omega
      have goesOn : ¬ ((count + 1 : Nat) : Int) - 1 = -1 := by omega
      rw [shallowCopyLoop, Range.backwardFinishedState,
        decide_eq_false goesOn, if_neg Bool.noConfusion]
      show shallowCopyLoop _ _ (((count + 1 : Nat) : Int) - 1 - 1)
        (first :: list) = _
      rw [next, inductionHypothesis, List.replicate_succ', List.append_assoc]
      rfl

theorem shallowCopyLoop_finite {first step : Int} (nonzero : step ≠ 0)
    (size : Int) (count : Nat) (list : List Int) :
    shallowCopyLoop (.finite first step size) (count + 1)
      (first + step * ((count : Int) - 1)) list =
        .ok (progression first step count ++ list) := by
  induction count generalizing list with
  | zero =>
      have ended : (Range.finite first step size).backwardFinishedState
          (first + step * (((0 : Nat) : Int) - 1)) = true := by
        show (if 0 < step then decide (_ < first) else decide (first < _)) = true
        rcases lt_or_gt_of_ne nonzero with negative | positive
        · rw [if_neg (not_lt_of_gt negative), decide_eq_true_iff]
          push_cast
          linarith
        · rw [if_pos positive, decide_eq_true_iff]
          push_cast
          linarith
      rw [shallowCopyLoop, if_pos ended]
      rfl
  | succ count inductionHypothesis =>
      have state : first + step * (((count + 1 : Nat) : Int) - 1) =
          first + count * step := by
        push_cast
        ring
      have next : first + count * step - step =
          first + step * ((count : Int) - 1) := by ring
      have goesOn : (Range.finite first step size).backwardFinishedState
          (first + count * step) = false := by
        have steps : (0 : Int) ≤ count := by omega
        show (if 0 < step then decide (_ < first) else decide (first < _)) = false
        rcases lt_or_gt_of_ne nonzero with negative | positive
        · rw [if_neg (not_lt_of_gt negative), decide_eq_false_iff_not]
          nlinarith
        · rw [if_pos positive, decide_eq_false_iff_not]
          nlinarith
      rw [shallowCopyLoop, state, goesOn, if_neg Bool.noConfusion]
      show shallowCopyLoop _ _ (first + count * step - step)
        ((first + count * step) :: list) = _
      rw [next, inductionHypothesis, progression_succ, List.append_assoc]
      rfl

/-- The list that `shallow-copy` makes has the elements of the range. -/
theorem shallowCopy_elements {range : Range} (finite : range.IsFinite) :
    shallowCopy range = .ok (elements range) := by
  match range, finite with
  | .empty, _ => rfl
  | .constant first (some size), nonnegative =>
      have loop := shallowCopyLoop_constant first size size.toNat []
      have count : (size.toNat : Int) = size := Int.toNat_of_nonneg nonnegative
      rw [count, List.append_nil] at loop
      exact loop
  | .finite first step size, both =>
      have loop := @shallowCopyLoop_finite first step both.1 size size.toNat []
      have count : (size.toNat : Int) = size :=
        Int.toNat_of_nonneg (by have := both.2; omega)
      rw [count, List.append_nil] at loop
      exact loop

/-- A constant range without elements, which is not `$empty-range`. -/
def Range.IsHollow (range : Range) : Prop :=
  ∃ rangeFrom, range = .constant rangeFrom (some 0)

theorem progression_constant (first : Int) (count : Nat) :
    progression first 0 count = List.replicate count first := by
  refine List.ext_getElem? fun index => ?_
  rw [getElem?_progression, List.getElem?_replicate, mul_zero, add_zero]

/-- A range that is made with a size has the elements of its progression. -/
theorem make_size (first step : Int) (count : Nat) :
    ∃ made, make ((Bound.size count).keys first step) = .ok made ∧
      made.IsFinite ∧ elements made = progression first step count := by
  by_cases constant : step = 0
  · refine ⟨.constant first (some count), ?_, Int.natCast_nonneg count, ?_⟩
    · unfold make makeRange Bound.keys
      rw [if_pos constant, if_pos ⟨by simp, by simp⟩]
      rfl
    · rw [constant, progression_constant]
      rfl
  · have made : make ((Bound.size count).keys first step) =
        .ok (if (count : Int) = 0 then .empty
          else .finite first step count) := by
      unfold make
      rw [makeRange_keys constant rfl rfl]
      rfl
    rw [made]
    refine ⟨_, rfl, ?_⟩
    cases count with
    | zero => exact ⟨trivial, rfl⟩
    | succ count =>
        rw [if_neg (by omega)]
        exact ⟨⟨constant, by omega⟩, rfl⟩

/-- The slots of a finite range that is not empty. -/
theorem Range.IsFinite.slots {range : Range} (finite : range.IsFinite)
    (some : range ≠ .empty) :
    range.size = Option.some ((elements range).length : Int) ∧
      elements range = progression range.rangeFrom range.rangeBy
        (elements range).length := by
  match range, finite with
  | .empty, _ => exact absurd rfl some
  | .constant first (.some size), nonnegative =>
      have count : ((elements (.constant first (.some size))).length : Int) =
          size := by
        show ((List.replicate size.toNat first).length : Int) = size
        rw [List.length_replicate]
        exact Int.toNat_of_nonneg nonnegative
      refine ⟨by rw [count]; rfl, ?_⟩
      show List.replicate size.toNat first = progression first 0 _
      rw [progression_constant]
      congr 1
      exact (List.length_replicate).symm
  | .finite first step size, both =>
      have count : (elements (.finite first step size)).length = size.toNat :=
        length_progression first step size.toNat
      have positive := both.2
      refine ⟨?_, ?_⟩
      · rw [count, Int.toNat_of_nonneg (by omega)]
        rfl
      · rw [count]
        rfl

theorem element_elements {range : Range} (finite : range.IsFinite)
    (index : Nat) : range.element index = (elements range)[index]? := by
  match range, finite with
  | .empty, _ => rfl
  | .constant first (some size), nonnegative =>
      show (if ∀ size' ∈ some size, (index : Int) < size' then some first
        else none) = (List.replicate size.toNat first)[index]?
      rw [List.getElem?_replicate]
      by_cases inside : index < size.toNat
      · rw [if_pos inside, if_pos]
        rintro _ ⟨⟩
        omega
      · rw [if_neg inside, if_neg]
        intro all
        have := all size rfl
        omega
  | .finite first step size, both =>
      show (if 0 ≤ (index : Int) ∧ (index : Int) < size then _ else none) =
        (progression first step size.toNat)[index]?
      rw [getElem?_progression]
      by_cases inside : index < size.toNat
      · rw [if_pos inside, if_pos (by omega)]
      · rw [if_neg inside, if_neg (by omega)]

/-- A part is copied if the range has an element at the start. -/
theorem copySequence_eq {range : Range} (finite : range.IsFinite)
    (some : range ≠ .empty) {start last : Nat} {finish : Option Int}
    (isLast : finish.or range.size = Option.some (last : Int))
    (ordered : start ≤ last) (bounded : last ≤ (elements range).length) :
    if start < (elements range).length then
      ∃ copy, copySequence range start finish = .ok copy ∧ copy.IsFinite ∧
        elements copy = (elements range).extract start last
    else
      copySequence range start finish = .error .subscriptOutOfBounds := by
  obtain ⟨sized, elements_eq⟩ := finite.slots some
  have unfolded : copySequence range start finish = (do
      let rangeFrom ← (range.element start).elim
        (.error .subscriptOutOfBounds) .ok
      let keys : Keys := { rangeFrom := rangeFrom, rangeBy := range.rangeBy }
      match finish.or range.size with
      | Option.some last =>
          let newEnd :=
            match range.size with
            | Option.some size => if last > size then size else last
            | none => last
          make { keys with size := Option.some (newEnd - start) }
      | none => make keys) := by
    cases range with
    | empty => exact absurd rfl some
    | constant rangeFrom size => rfl
    | finite rangeFrom rangeBy size => rfl
    | infinite rangeFrom rangeBy => rfl
  rw [unfolded, element_elements finite, isLast, sized]
  generalize (elements range).length = count at sized elements_eq bounded ⊢
  by_cases inside : start < count
  · rw [if_pos inside, elements_eq, getElem?_progression, if_pos inside]
    have part : (last : Int) - start = ((last - start : Nat) : Int) := by omega
    obtain ⟨made, isMade, madeFinite, madeElements⟩ :=
      make_size (range.rangeFrom + start * range.rangeBy) range.rangeBy
        (last - start)
    refine ⟨made, ?_, madeFinite, ?_⟩
    · show make ((Bound.size ((if (last : Int) > _ then _ else (last : Int)) -
        start)).keys _ _) = _
      rw [if_neg (by omega), part]
      exact isMade
    · rw [madeElements, extract_progression _ _ bounded]
  · rw [if_neg inside, elements_eq, getElem?_progression, if_neg inside]
    rfl

/-- A range that is not hollow is copied as it is. -/
theorem copySequence_whole {range : Range} (finite : range.IsFinite) :
    (¬ range.IsHollow → copySequence range 0 none = .ok range) ∧
      (range.IsHollow →
        copySequence range 0 none = .error .subscriptOutOfBounds) := by
  match range, finite with
  | .empty, _ =>
      refine ⟨fun _ => rfl, ?_⟩
      rintro ⟨_, same⟩
      cases same
  | .constant first (some size), nonnegative =>
      have counted : 0 ≤ size := nonnegative
      by_cases zero : size = 0
      · rw [zero]
        exact ⟨fun full => absurd ⟨first, rfl⟩ full, fun _ => rfl⟩
      · refine ⟨fun _ => ?_, ?_⟩
        · have start : (Range.constant first (some size)).element 0 =
              some first := by
            refine if_pos ?_
            rintro _ ⟨⟩
            omega
          have made : makeRange ((Bound.size size).keys first 0) =
              .ok (.constant first (some size)) := by
            unfold makeRange Bound.keys
            rw [if_pos rfl, if_pos ⟨by simp, by simp⟩]
          show (do
            let rangeFrom ← ((Range.constant first (some size)).element 0).elim
              (Except.error Stop.subscriptOutOfBounds) Except.ok
            _) = _
          rw [start]
          show make ((Bound.size
            ((if size > size then size else size) - 0)).keys first 0) = _
          rw [if_neg (by omega), Int.sub_zero, make, made]
          rfl
        · rintro ⟨_, same⟩
          cases same
          exact absurd rfl zero
  | .finite first step size, both =>
      have counted := both.2
      refine ⟨fun _ => ?_, ?_⟩
      · have start : (Range.finite first step size).element 0 =
            some (first + 0 * step) := if_pos ⟨by omega, by omega⟩
        have sized : makeFinite ((Bound.size size).keys first step) size =
            .finite first step size := if_neg (by omega)
        show (do
          let rangeFrom ← ((Range.finite first step size).element 0).elim
            (Except.error Stop.subscriptOutOfBounds) Except.ok
          _) = _
        rw [start, zero_mul, add_zero]
        show make ((Bound.size
          ((if size > size then size else size) - 0)).keys first step) = _
        rw [if_neg (by omega), Int.sub_zero, make,
          makeRange_keys both.1 rfl rfl]
        show Except.ok (makeFinite ((Bound.size size).keys first step) size) = _
        rw [sized]
      · rintro ⟨_, same⟩
        cases same

/-! ## Results -/

/-- An operation returns a sequence with the elements of a list. -/
def Gives (result : Except Refusal Sequence) (expected : List Int) : Prop :=
  ∃ sequence, result = .ok sequence ∧ sequence.HasElements expected

/-- An operation returns a sequence with the elements of a list, wherever an
element has been added. -/
def GivesInAnyOrder (result : Except Refusal Sequence)
    (expected : List Int) : Prop :=
  ∃ list, list.Perm expected ∧ Gives result list

/-- The range that an operation returns, as a sequence. -/
def asSequence (result : Except Stop Range) : Except Refusal Sequence :=
  (result.map .range).mapError .stopped

theorem Sequence.HasElements.unique {sequence : Sequence}
    {expected other : List Int} (elements : sequence.HasElements expected)
    (others : sequence.HasElements other) : expected = other := by
  cases sequence with
  | range made =>
      refine List.ext_getElem? fun index => ?_
      rw [← elements index, ← others index]
  | list given => exact elements.symm.trans others

theorem not_gives_error (refusal : Refusal) (expected : List Int) :
    ¬ Gives (.error refusal) expected := by
  rintro ⟨_, same, -⟩
  cases same

theorem gives_range {range : Range} {expected : List Int} :
    Gives (.ok (.range range)) expected ↔
      (Sequence.range range).HasElements expected := by
  constructor
  · rintro ⟨_, same, elements⟩
    cases same
    exact elements
  · exact fun elements => ⟨_, rfl, elements⟩

/-- A finite range gives its elements and no others. -/
theorem gives_finite_iff {range : Range} (finite : range.IsFinite)
    {expected : List Int} :
    Gives (.ok (.range range)) expected ↔ elements range = expected := by
  rw [gives_range]
  constructor
  · exact fun given => (hasElements_elements finite).unique given
  · rintro rfl
    exact hasElements_elements finite

/-! ## Reversing -/

theorem reverseInPlace_gives {range : Range} (finite : range.IsFinite) :
    Gives (asSequence (reverseInPlace range)) (elements range).reverse := by
  match range, finite with
  | .empty, _ => exact ⟨_, rfl, hasElements_empty.mpr rfl⟩
  | .constant first (some size), nonnegative =>
      refine ⟨.range (.constant first (some size)), rfl,
        hasElements_constant.mpr ⟨nonnegative, ?_⟩⟩
      exact (List.reverse_replicate ..).symm
  | .finite first step size, both =>
      have counted := both.2
      have count : (size.toNat : Int) = size := Int.toNat_of_nonneg (by omega)
      refine ⟨.range (.finite (first + step * (size - 1)) (-step) size), rfl,
        (hasElements_finite (neg_ne_zero.mpr both.1)).mpr ?_⟩
      show _ = (progression first step size.toNat).reverse
      rw [reverse_progression, count]

theorem reverse_gives_iff {range : Range} (finite : range.IsFinite) :
    Gives (asSequence (reverse range)) (elements range).reverse ↔
      ¬ range.IsHollow := by
  obtain ⟨whole, fails⟩ := copySequence_whole finite
  unfold reverse
  by_cases hollow : range.IsHollow
  · rw [fails hollow]
    exact ⟨fun gives => absurd gives (not_gives_error _ _),
      fun full => absurd hollow full⟩
  · rw [whole hollow]
    exact ⟨fun _ => hollow, fun _ => reverseInPlace_gives finite⟩

/-! ## Copying -/

theorem copySequence_gives_iff {range : Range} (finite : range.IsFinite)
    {start last : Nat} (ordered : start ≤ last)
    (bounded : last ≤ (elements range).length) :
    Gives (asSequence (copySequence range start (some (last : Int))))
        ((elements range).extract start last) ↔
      (range = .empty ∨ start < (elements range).length) := by
  by_cases empty : range = .empty
  · subst empty
    refine ⟨fun _ => .inl rfl, fun _ => ⟨.range .empty, rfl, ?_⟩⟩
    exact hasElements_empty.mpr (by simp [elements])
  · have copied := copySequence_eq finite empty
      (by rfl : (some (last : Int)).or range.size = some (last : Int))
      ordered bounded
    by_cases inside : start < (elements range).length
    · rw [if_pos inside] at copied
      obtain ⟨copy, isCopy, copyFinite, same⟩ := copied
      rw [isCopy]
      exact ⟨fun _ => .inr inside,
        fun _ => (gives_finite_iff copyFinite).mpr same⟩
    · rw [if_neg inside] at copied
      rw [copied]
      refine ⟨fun gives => absurd gives (not_gives_error _ _), ?_⟩
      rintro (none | within)
      · exact absurd none empty
      · exact absurd within inside

/-! ## Adding -/

theorem makeSequence_gives (first step : Int) (count : Nat) :
    Gives (makeSequence ((Bound.size count).keys first step))
      (progression first step count) := by
  obtain ⟨made, isMade, finite, same⟩ := make_size first step count
  unfold makeSequence
  rw [isMade]
  exact (gives_finite_iff finite).mpr same

theorem addToList_gives {range : Range} (finite : range.IsFinite) (elt : Int) :
    Gives (addToList range elt) (elt :: elements range) := by
  unfold addToList
  rw [shallowCopy_elements finite]
  exact ⟨_, rfl, rfl⟩

/-- Two elements are a progression. -/
theorem pair_progression (first elt : Int) :
    (progression first (elt - first) 2).Perm [elt, first] := by
  have pair : progression first (elt - first) 2 = [first, elt] := by
    show [first + ((0 : Nat) : Int) * (elt - first),
      first + ((1 : Nat) : Int) * (elt - first)] = _
    simp
  rw [pair]
  exact List.Perm.swap elt first []

theorem addInPlace_gives {range : Range} (finite : range.IsFinite)
    (elt : Int) :
    GivesInAnyOrder (addInPlace range elt) (elt :: elements range) := by
  match range, finite with
  | .empty, _ =>
      have single : progression elt 1 1 = [elt] := by
        show [elt + ((0 : Nat) : Int) * 1] = _
        simp
      refine ⟨[elt], List.Perm.refl _, ?_⟩
      rw [← single]
      exact makeSequence_gives elt 1 1
  | .constant first (some size), nonnegative =>
      have counted : 0 ≤ size := nonnegative
      rw [addInPlace]
      by_cases same : elt = first
      · rw [if_pos same]
        refine ⟨_, List.Perm.refl _, ⟨.range (.constant first
          (some (size + 1))), rfl, hasElements_constant.mpr ⟨by omega, ?_⟩⟩⟩
        have next : (size + 1).toNat = size.toNat + 1 := by omega
        rw [next, List.replicate_succ, same]
        rfl
      rw [if_neg same]
      by_cases single : some size = some 1
      · rw [if_pos single]
        cases single
        exact ⟨_, pair_progression first elt,
          makeSequence_gives first (elt - first) 2⟩
      · rw [if_neg single]
        exact ⟨_, List.Perm.refl _, addToList_gives nonnegative elt⟩
  | .finite first step size, both =>
      have counted := both.2
      have count : (size.toNat : Int) = size := Int.toNat_of_nonneg (by omega)
      have next : (size + 1).toNat = size.toNat + 1 := by omega
      rw [addInPlace]
      by_cases after : elt = first + step * (size - 1) + step
      · rw [if_pos after]
        refine ⟨_, ?_, ⟨_, rfl, (hasElements_finite both.1).mpr rfl⟩⟩
        have last : first + (size.toNat : Int) * step = elt := by
          rw [count, after]
          ring
        rw [next, progression_succ, last]
        exact List.perm_append_singleton elt _
      rw [if_neg after]
      by_cases before : elt = first - step
      · rw [if_pos before]
        refine ⟨_, ?_, ⟨_, rfl, (hasElements_finite both.1).mpr rfl⟩⟩
        rw [next, progression_cons, sub_add_cancel, before]
        exact List.Perm.refl _
      rw [if_neg before]
      by_cases single : size = 1
      · subst single
        have one : elements (.finite first step 1) = [first] := by
          show [first + ((0 : Nat) : Int) * step] = _
          simp
        rw [if_pos rfl, one]
        by_cases same : elt = first
        · have twice := makeSequence_gives first 0 2
          rw [progression_constant] at twice
          rw [if_pos same, same]
          exact ⟨_, List.Perm.refl _, twice⟩
        · rw [if_neg same]
          exact ⟨_, pair_progression first elt, ⟨_, rfl,
            (hasElements_finite (sub_ne_zero.mpr same)).mpr rfl⟩⟩
      · rw [if_neg single]
        exact ⟨_, List.Perm.refl _, addToList_gives both elt⟩

theorem add_gives_iff {range : Range} (finite : range.IsFinite) (elt : Int) :
    GivesInAnyOrder (add range elt) (elt :: elements range) ↔
      ¬ range.IsHollow := by
  obtain ⟨whole, fails⟩ := copySequence_whole finite
  unfold add
  by_cases hollow : range.IsHollow
  · rw [fails hollow]
    constructor
    · rintro ⟨list, -, gives⟩
      exact absurd gives (not_gives_error _ _)
    · exact fun full => absurd hollow full
  · rw [whole hollow]
    exact ⟨fun _ => hollow, fun _ => addInPlace_gives finite elt⟩

/-! ## Removing from lists -/

/-- The test of a list when none is supplied. -/
def isSame (left right : Int) : Bool := left == right

theorem isSame_head {value head : Int} {tail : List Int}
    (absent : value ∉ head :: tail) : isSame head value = false := by
  rw [isSame, beq_eq_false_iff_ne]
  rintro rfl
  exact absent List.mem_cons_self

theorem listRemoveLoop_notMem {value : Int} (count : Int) {list : List Int}
    (absent : value ∉ list) : listRemoveLoop isSame value count list = list := by
  induction list with
  | nil => rfl
  | cons head tail inductionHypothesis =>
      rw [listRemoveLoop, isSame_head absent, if_neg Bool.noConfusion,
        inductionHypothesis fun further =>
          absent (List.mem_cons_of_mem head further)]

theorem listRemoveLoop_split {value count : Int} {front rest : List Int}
    (before : value ∉ front) (after : value ∉ rest) :
    listRemoveLoop isSame value count (front ++ value :: rest) =
      front ++ rest := by
  induction front with
  | nil =>
      have same : isSame value value = true := by simp [isSame]
      show listRemoveLoop isSame value count (value :: rest) = rest
      rw [listRemoveLoop, same, if_pos rfl]
      split
      · rfl
      · exact listRemoveLoop_notMem _ after
  | cons head tail inductionHypothesis =>
      show listRemoveLoop isSame value count (head :: (tail ++ value :: rest)) =
        head :: (tail ++ rest)
      rw [listRemoveLoop, isSame_head before, if_neg Bool.noConfusion,
        inductionHypothesis fun further =>
          before (List.mem_cons_of_mem head further)]

theorem length_listRemoveLoop_le (value count : Int) (list : List Int) :
    (listRemoveLoop isSame value count list).length ≤ list.length := by
  induction list generalizing count with
  | nil => exact Nat.le_refl _
  | cons head tail inductionHypothesis =>
      rw [listRemoveLoop]
      split
      · split
        · exact Nat.le_succ _
        · exact (inductionHypothesis _).trans (Nat.le_succ _)
      · exact Nat.succ_le_succ (inductionHypothesis _)

theorem length_listRemoveLoop_lt {value count : Int} {list : List Int}
    (member : value ∈ list) :
    (listRemoveLoop isSame value count list).length < list.length := by
  induction list generalizing count with
  | nil => cases member
  | cons head tail inductionHypothesis =>
      rw [listRemoveLoop]
      split
      · have shorter : ∀ count, (listRemoveLoop isSame value count tail).length
            < (head :: tail).length := fun count =>
          Nat.lt_succ_of_le (length_listRemoveLoop_le value count tail)
        split
        · exact Nat.lt_succ_self _
        · exact shorter _
      · next different =>
        have further : value ∈ tail := by
          rcases List.mem_cons.mp member with same | further
          · exact absurd (by simp [isSame, same]) different
          · exact further
        exact Nat.succ_lt_succ (inductionHypothesis further)

/-- Of equal elements, as many as the count says are removed. -/
theorem listRemoveLoop_replicate (value : Int) (size count : Nat) :
    listRemoveLoop isSame value ((count + 1 : Nat) : Int)
      (List.replicate size value) = List.replicate (size - (count + 1)) value := by
  induction size generalizing count with
  | zero => simp [listRemoveLoop]
  | succ size inductionHypothesis =>
      have same : isSame value value = true := by simp [isSame]
      rw [List.replicate_succ, listRemoveLoop, same, if_pos rfl]
      cases count with
      | zero => rw [if_pos (by omega), Nat.zero_add, Nat.add_sub_cancel]
      | succ count =>
          have next : ((count + 1 + 1 : Nat) : Int) - 1 =
              ((count + 1 : Nat) : Int) := by omega
          rw [if_neg (by omega), next, inductionHypothesis]
          congr 1
          omega

/-- Without a limit, all equal elements are removed. -/
theorem listRemoveLoop_all (value : Int) (size : Nat) {count : Int}
    (unlimited : count < 0) :
    listRemoveLoop isSame value count (List.replicate size value) = [] := by
  induction size generalizing count with
  | zero => rfl
  | succ size inductionHypothesis =>
      have same : isSame value value = true := by simp [isSame]
      rw [List.replicate_succ, listRemoveLoop, same, if_pos rfl,
        if_neg (by omega)]
      exact inductionHypothesis (by omega)

/-! ## Removing -/

/-- A count of elements, as it is supplied. -/
def supplied (count : Option Nat) : Option Int :=
  count.map fun limit => (limit : Int)

/-- An operation has the result of `remove!` on the list of the elements. -/
def RemovesAsList (range : Range) (elt : Int) (count : Option Nat)
    (result : Except Refusal Sequence) : Prop :=
  ∃ expected, listRemove (elements range) elt isSame (supplied count) =
    .ok expected ∧ Gives result expected

/-- Where `remove!` has the result of the list: nothing is to be removed; or a
constant range keeps its elements or loses one of them, and has not just one
that is kept; or the element is at an end of a range, or not in it. -/
def RemovesRight (range : Range) (elt : Int) (count : Option Nat) : Prop :=
  count = some 0 ∨
    match range with
    | .constant rangeFrom (some size) =>
        if elt = rangeFrom then size ≠ 0 ∧ (size = 1 ∨ count = some 1)
        else size ≠ 1
    | .finite rangeFrom rangeBy size =>
        elt = rangeFrom ∨ elt = rangeFrom + rangeBy * (size - 1) ∨
          elt ∉ elements range
    | _ => True

/-- The limit of the loop for a count that is not zero. -/
def limitOf (count : Option Nat) : Int :=
  match count with
  | none => -1
  | some limit => limit

theorem listRemove_supplied {count : Option Nat} (some' : count ≠ some 0)
    (list : List Int) (value : Int) :
    listRemove list value isSame (supplied count) =
      .ok (listRemoveLoop isSame value (limitOf count) list) := by
  cases count with
  | none => rfl
  | some limit =>
      have positive : limit ≠ 0 := fun zero => some' (by rw [zero])
      show (if (limit : Int) < 0 then Except.error (.naturalNumber limit)
        else if (limit : Int) = 0 then .ok list
        else .ok (listRemoveLoop isSame value limit list)) = _
      rw [if_neg (by omega), if_neg (by omega)]
      rfl

theorem removesAny_supplied (count : Option Nat) :
    removesAny (supplied count) = decide (count ≠ some 0) := by
  unfold removesAny
  rw [decide_eq_decide]
  cases count with
  | none => simp [supplied]
  | some limit =>
      constructor
      · intro all zero
        cases zero
        exact absurd (all 0 rfl) (lt_irrefl 0)
      · rintro nonzero _ ⟨⟩
        have positive : limit ≠ 0 := fun zero => nonzero (by rw [zero])
        show (limit : Int) > 0
        omega

theorem removesAsList_iff {range : Range} {elt : Int} {count : Option Nat}
    {result : Except Refusal Sequence} (some' : count ≠ some 0) :
    RemovesAsList range elt count result ↔
      Gives result (listRemoveLoop isSame elt (limitOf count)
        (elements range)) := by
  unfold RemovesAsList
  rw [listRemove_supplied some']
  constructor
  · rintro ⟨expected, same, gives⟩
    cases same
    exact gives
  · exact fun gives => ⟨_, rfl, gives⟩

/-- Nothing is removed for a count of zero. -/
theorem removeInPlace_zero {range : Range} (finite : range.IsFinite)
    (elt : Int) :
    RemovesAsList range elt (some 0)
      (removeInPlace range elt none (supplied (some 0))) := by
  have result : removeInPlace range elt none (supplied (some 0)) =
      .ok (.range range) := by
    match range, finite with
    | .empty, _ => rfl
    | .constant first (some size), _ => rfl
    | .finite first step size, _ => rfl
  rw [result]
  exact ⟨elements range, rfl, (gives_finite_iff finite).mpr rfl⟩

/-- A constant range loses one element, whatever the count. -/
theorem removeInPlace_constant_same {first size : Int} (counted : 0 ≤ size)
    {count : Option Nat} (some' : count ≠ some 0) :
    Gives (.ok (.range (.constant first (some (size - 1)))))
        (listRemoveLoop isSame first (limitOf count)
          (List.replicate size.toNat first)) ↔
      size ≠ 0 ∧ (size = 1 ∨ count = some 1) := by
  rw [gives_range, hasElements_constant]
  have replicate_iff : ∀ few many : Nat,
      List.replicate few first = List.replicate many first ↔ few = many := by
    intro few many
    constructor
    · intro same
      have lengths := congrArg List.length same
      rwa [List.length_replicate, List.length_replicate] at lengths
    · rintro rfl
      rfl
  cases count with
  | none =>
      have removed := listRemoveLoop_all first size.toNat
        (by show limitOf none < 0; decide)
      rw [removed, ← @List.replicate_zero _ first, replicate_iff]
      constructor
      · intro both
        exact ⟨by omega, .inl (by omega)⟩
      · rintro ⟨nonzero, one | once⟩
        · omega
        · cases once
  | some limit =>
      obtain ⟨less, rfl⟩ : ∃ less, limit = less + 1 := by
        cases limit with
        | zero => exact absurd rfl some'
        | succ less => exact ⟨less, rfl⟩
      have removed := listRemoveLoop_replicate first size.toNat less
      show 0 ≤ size - 1 ∧ _ = listRemoveLoop isSame first
        ((less + 1 : Nat) : Int) _ ↔ _
      rw [removed, replicate_iff, Option.some.injEq]
      omega

/-- Only the elements at the ends of a range are removed. -/
theorem removeInPlace_finite_iff {first step size : Int} (nonzero : step ≠ 0)
    (counted : 1 ≤ size) (elt : Int) {count : Option Nat}
    (some' : count ≠ some 0) :
    Gives (removeInPlace (.finite first step size) elt none (supplied count))
        (listRemoveLoop isSame elt (limitOf count)
          (progression first step size.toNat)) ↔
      (elt = first ∨ elt = first + step * (size - 1) ∨
        elt ∉ progression first step size.toNat) := by
  obtain ⟨rest, rfl⟩ : ∃ rest : Nat, size = (rest : Int) + 1 :=
    ⟨(size - 1).toNat, by omega⟩
  have whole : ((rest : Int) + 1).toNat = rest + 1 := by omega
  have fewer : (rest : Int) + 1 - 1 = rest := by omega
  have lastIs : first + step * (rest : Int) = first + rest * step := by ring
  rw [removeInPlace, removesAny_supplied, decide_eq_true some', if_pos rfl,
    whole, fewer, lastIs]
  by_cases single : (rest : Int) + 1 = 1 ∧ elt = first
  · have zero : rest = 0 := by omega
    rw [if_pos single]
    refine ⟨fun _ => .inl single.2, fun _ => ⟨_, rfl,
      hasElements_empty.mpr ?_⟩⟩
    rw [zero, progression_cons, single.2]
    exact @listRemoveLoop_split first (limitOf count) [] [] List.not_mem_nil
      List.not_mem_nil
  rw [if_neg single]
  by_cases last : elt = first + rest * step
  · rw [if_pos last]
    refine ⟨fun _ => .inr (.inl last), fun _ => ⟨_, rfl,
      (hasElements_finite nonzero).mpr ?_⟩⟩
    have absent : elt ∉ progression first step rest := by
      rw [mem_progression, last]
      rintro ⟨index, inside, same⟩
      have equal : (rest : Int) * step = index * step := by linarith
      have := mul_right_cancel₀ nonzero equal
      omega
    rw [progression_succ, ← last]
    exact ((listRemoveLoop_split absent List.not_mem_nil).trans
      (List.append_nil _)).symm
  rw [if_neg last]
  by_cases begins : elt = first
  · rw [if_pos begins]
    refine ⟨fun _ => .inl begins, fun _ => ⟨_, rfl,
      (hasElements_finite nonzero).mpr ?_⟩⟩
    have absent : elt ∉ progression (first + step) step rest := by
      rw [mem_progression, begins]
      rintro ⟨index, inside, same⟩
      have equal : (0 : Int) * step = ((index : Int) + 1) * step := by linarith
      have := mul_right_cancel₀ nonzero equal
      omega
    rw [progression_cons, ← begins, begins]
    rw [begins] at absent
    exact (@listRemoveLoop_split first (limitOf count) [] _ List.not_mem_nil
      absent).symm
  rw [if_neg begins]
  have neither : (elt = first ∨ elt = first + rest * step ∨
      elt ∉ progression first step (rest + 1)) ↔
        elt ∉ progression first step (rest + 1) := by
    simp [begins, last]
  rw [neither]
  have finite : (Range.finite first step ((rest : Int) + 1)).IsFinite :=
    ⟨nonzero, counted⟩
  have elements_eq : elements (.finite first step ((rest : Int) + 1)) =
      progression first step (rest + 1) := by
    show progression first step ((rest : Int) + 1).toNat = _
    rw [whole]
  by_cases member : elt ∈ progression first step (rest + 1)
  · refine ⟨fun gives => ?_, fun absent => absurd member absent⟩
    by_cases fallsBack : (supplied count).isSome = true ∧
        isMember elt (.finite first step ((rest : Int) + 1)) = true
    · rw [if_pos fallsBack, removeFromList, shallowCopy_elements finite] at gives
      exact absurd gives (not_gives_error _ _)
    · rw [if_neg fallsBack, gives_finite_iff finite, elements_eq] at gives
      have shorter := @length_listRemoveLoop_lt elt (limitOf count) _ member
      rw [← gives] at shorter
      exact absurd shorter (Nat.lt_irrefl _)
  · have unknown : isMember elt (.finite first step ((rest : Int) + 1)) =
        false := by
      rw [← Bool.not_eq_true, isMember_finite nonzero]
      rintro ⟨key, nonnegative, small, isKey⟩
      refine member (mem_progression.mpr ⟨key.toNat, by omega, ?_⟩)
      rw [isKey, Int.toNat_of_nonneg nonnegative]
    refine ⟨fun _ => member, fun _ => ?_⟩
    rw [unknown, if_neg (fun both => Bool.noConfusion both.2),
      gives_finite_iff finite, elements_eq]
    exact (listRemoveLoop_notMem _ member).symm

/-- `remove!` has the result of the list under one condition. -/
theorem removeInPlace_iff {range : Range} (finite : range.IsFinite) (elt : Int)
    (count : Option Nat) :
    RemovesAsList range elt count
        (removeInPlace range elt none (supplied count)) ↔
      RemovesRight range elt count := by
  by_cases none' : count = some 0
  · rw [none']
    exact ⟨fun _ => .inl rfl, fun _ => removeInPlace_zero finite elt⟩
  rw [removesAsList_iff none']
  unfold RemovesRight
  rw [or_iff_right none']
  match range, finite with
  | .empty, _ =>
      exact ⟨fun _ => trivial, fun _ => ⟨_, rfl, hasElements_empty.mpr rfl⟩⟩
  | .constant first (some size), nonnegative =>
      have counted : 0 ≤ size := nonnegative
      rw [removeInPlace, removesAny_supplied, decide_eq_true none', if_pos rfl]
      dsimp only
      by_cases same : elt = first
      · rw [if_pos same, if_pos same, same]
        exact removeInPlace_constant_same counted none'
      rw [if_neg same, if_neg same]
      have absent : elt ∉ List.replicate size.toNat first :=
        fun member => same (List.eq_of_mem_replicate member)
      show Gives _ (listRemoveLoop isSame elt _
        (List.replicate size.toNat first)) ↔ _
      rw [listRemoveLoop_notMem _ absent]
      by_cases single : size = 1
      · rw [if_pos (congrArg some single), gives_range, hasElements_empty,
          single]
        exact ⟨fun none => (by cases none), fun many => absurd rfl many⟩
      · have unknown : isMember elt (.constant first (some size)) = false := by
          rw [← Bool.not_eq_true, isMember_constant]
          exact same
        rw [if_neg (fun one => single (Option.some.inj one)), unknown,
          if_neg Bool.noConfusion, gives_finite_iff nonnegative]
        exact ⟨fun _ => single, fun _ => rfl⟩
  | .finite first step size, both =>
      exact removeInPlace_finite_iff both.1 both.2 elt none'

theorem remove_iff {range : Range} (finite : range.IsFinite) (elt : Int)
    (count : Option Nat) :
    RemovesAsList range elt count (remove range elt none (supplied count)) ↔
      RemovesRight range elt count ∧ ¬ range.IsHollow := by
  obtain ⟨whole, fails⟩ := copySequence_whole finite
  unfold remove
  by_cases hollow : range.IsHollow
  · rw [fails hollow]
    constructor
    · rintro ⟨expected, -, gives⟩
      exact absurd gives (not_gives_error _ _)
    · exact fun both => absurd hollow both.2
  · rw [whole hollow]
    exact (removeInPlace_iff finite elt count).trans
      ⟨fun right => ⟨right, hollow⟩, fun both => both.1⟩

/-- `member?` finds an element in a constant range without elements. -/
theorem isMember_iff {range : Range} (finite : range.IsFinite) (value : Int) :
    (isMember value range = true ↔ value ∈ elements range) ↔
      range ≠ .constant value (some 0) := by
  match range, finite with
  | .empty, _ =>
      refine ⟨fun _ same => (by cases same), fun _ => ?_⟩
      rw [isMember_empty]
      exact ⟨fun absurd => Bool.noConfusion absurd,
        fun member => (by cases member)⟩
  | .constant first (some size), nonnegative =>
      have counted : 0 ≤ size := nonnegative
      rw [isMember_constant]
      show (value = first ↔ value ∈ List.replicate size.toNat first) ↔ _
      rw [List.mem_replicate]
      constructor
      · rintro member same
        cases same
        exact (member.mp rfl).1 rfl
      · intro different
        refine ⟨fun same => ⟨fun zero => different ?_, same⟩, fun both => both.2⟩
        have none : size = 0 := by omega
        rw [same, none]
  | .finite first step size, both =>
      refine ⟨fun _ same => (by cases same), fun _ => ?_⟩
      rw [isMember_finite both.1]
      show _ ↔ value ∈ progression first step size.toNat
      rw [mem_progression]
      constructor
      · rintro ⟨key, low, small, isKey⟩
        exact ⟨key.toNat, by omega, by rw [isKey, Int.toNat_of_nonneg low]⟩
      · rintro ⟨index, inside, isIndex⟩
        exact ⟨index, by omega, by omega, isIndex⟩

/-! ## All operations -/

/-- The sequence operations on a finite range. -/
inductive Operation where
  | reverse
  | reverseInPlace
  | copySequence (start last : Nat)
  | add (elt : Int)
  | addInPlace (elt : Int)
  | remove (elt : Int) (count : Option Nat)
  | removeInPlace (elt : Int) (count : Option Nat)
  | isMember (value : Int)
deriving DecidableEq

/-- The bounds of a part are those of a part of the list. -/
def Operation.Valid (range : Range) : Operation → Prop
  | .copySequence start last =>
      start ≤ last ∧ last ≤ (elements range).length
  | _ => True

/-- An operation on a range has the elements of the operation on the list of
its elements. -/
def Operation.Agrees (range : Range) : Operation → Prop
  | .reverse =>
      Gives (asSequence (Ranges.reverse range)) (elements range).reverse
  | .reverseInPlace =>
      Gives (asSequence (Ranges.reverseInPlace range)) (elements range).reverse
  | .copySequence start last =>
      Gives (asSequence (Ranges.copySequence range start (some (last : Int))))
        ((elements range).extract start last)
  | .add elt =>
      GivesInAnyOrder (Ranges.add range elt) (elt :: elements range)
  | .addInPlace elt =>
      GivesInAnyOrder (Ranges.addInPlace range elt) (elt :: elements range)
  | .remove elt count =>
      RemovesAsList range elt count
        (Ranges.remove range elt none (supplied count))
  | .removeInPlace elt count =>
      RemovesAsList range elt count
        (Ranges.removeInPlace range elt none (supplied count))
  | .isMember value => Ranges.isMember value range = true ↔ value ∈ elements range

/-- Where an operation agrees with lists: what copies the range needs an
element to start from, and what removes from it must meet one at an end. -/
def Operation.Fits (range : Range) : Operation → Prop
  | .reverse => ¬ range.IsHollow
  | .reverseInPlace => True
  | .copySequence start _ =>
      range = .empty ∨ start < (elements range).length
  | .add _ => ¬ range.IsHollow
  | .addInPlace _ => True
  | .remove elt count => RemovesRight range elt count ∧ ¬ range.IsHollow
  | .removeInPlace elt count => RemovesRight range elt count
  | .isMember value => range ≠ .constant value (some 0)

end OpenDylan.Collections.Ranges
