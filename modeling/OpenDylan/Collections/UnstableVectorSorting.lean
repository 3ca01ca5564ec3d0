import OpenDylan.Collections.StableVectorSorting

/-!
# Quick sort

A partition scans the range from both ends without bounds checks.  The pivot,
and later the elements that were swapped, stop the scans inside of the range;
and as the pivot is a median, neither part of the range is empty in the end.
So the recursion ends, and the sorted parts are joined at the pivot.
-/

namespace OpenDylan.Collections.VectorSorting

open OpenDylan.Lib.StableOrder

variable {Element : Type} {test : Element → Element → Bool}
  {vector front range back : List Element} {start finish : Int}
  {pivot : Element}

/-! ## The scans -/

theorem scanSmall_eq {below : List Element} {next : Element} {smallKey : Int}
    (split : vector = front ++ (below ++ next :: back))
    (keyAt : smallKey = front.length)
    (passes : ∀ element ∈ below, test element pivot = true)
    (stops : test next pivot = false) :
    scanSmall test vector pivot smallKey =
      .ok (front.length + below.length : Nat) := by
  induction below generalizing front smallKey with
  | nil =>
      have inside : 0 ≤ smallKey ∧ smallKey < vector.length := by
        rw [split]
        simp
        omega
      rw [scanSmall, if_pos inside, element_split split keyAt]
      simp [bind, Except.bind, stops, keyAt, pure, Except.pure]
  | cons first below ih =>
      have inside : 0 ≤ smallKey ∧ smallKey < vector.length := by
        rw [split]
        simp
        omega
      have atFirst : vector = front ++ first :: (below ++ next :: back) := split
      have resplit : vector = (front ++ [first]) ++ (below ++ next :: back) := by
        rw [split, List.append_assoc]
        rfl
      rw [scanSmall, if_pos inside, element_split atFirst keyAt]
      simp only [bind, Except.bind, passes first List.mem_cons_self, if_true]
      rw [ih resplit (by simp; omega)
        fun other member => passes other (List.mem_cons_of_mem _ member)]
      simp
      omega

theorem scanLarge_eq {above : List Element} {next : Element} {largeKey : Int}
    (split : vector = front ++ next :: (above ++ back))
    (keyAt : largeKey = front.length + above.length)
    (passes : ∀ element ∈ above, test pivot element = true)
    (stops : test pivot next = false) :
    scanLarge test vector pivot largeKey = .ok front.length := by
  induction above using List.reverseRecOn generalizing back largeKey with
  | nil =>
      have inside : 0 ≤ largeKey ∧ largeKey < vector.length := by
        rw [split]
        simp at keyAt ⊢
        omega
      have keyAt' : largeKey = front.length := by simpa using keyAt
      rw [scanLarge, if_pos inside, element_split split keyAt']
      simp [bind, Except.bind, stops, keyAt', pure, Except.pure]
  | append_singleton above last ih =>
      have inside : 0 ≤ largeKey ∧ largeKey < vector.length := by
        rw [split]
        simp at keyAt ⊢
        omega
      have atLast : vector = (front ++ next :: above) ++ last :: back := by
        rw [split]
        simp
      have resplit : vector = front ++ next :: (above ++ last :: back) := by
        rw [split]
        simp
      rw [scanLarge, if_pos inside,
        element_split atLast (by simp at keyAt ⊢; omega)]
      simp only [bind, Except.bind, passes last (by simp), if_true]
      exact ih resplit (by simp at keyAt; omega)
        fun other member => passes other (List.mem_append_left _ member)

/-- Either all elements pass a test, or there is a first one that does not. -/
theorem forall_or_first (passes : Element → Bool) (list : List Element) :
    (∀ element ∈ list, passes element = true) ∨
      ∃ earlier first later, list = earlier ++ first :: later ∧
        (∀ element ∈ earlier, passes element = true) ∧
        passes first = false := by
  cases found : list.find? (fun element => !passes element) with
  | none =>
      left
      simpa using found
  | some first =>
      right
      obtain ⟨fails, earlier, later, split, passed⟩ :=
        List.find?_eq_some_iff_append.mp found
      exact ⟨earlier, first, later, split, by simpa using passed,
        by simpa using fails⟩

/-- Either all elements pass a test, or there is a last one that does not. -/
theorem forall_or_last (passes : Element → Bool) (list : List Element) :
    (∀ element ∈ list, passes element = true) ∨
      ∃ earlier last later, list = earlier ++ last :: later ∧
        (∀ element ∈ later, passes element = true) ∧ passes last = false := by
  rcases forall_or_first passes list.reverse with
    all | ⟨later, last, earlier, split, passed, fails⟩
  · left
    simpa using all
  · right
    have resplit := congrArg List.reverse split
    rw [List.reverse_reverse, List.reverse_append, List.reverse_cons,
      List.append_assoc, List.singleton_append] at resplit
    exact ⟨earlier.reverse, last, later.reverse, resplit, by simpa using passed,
      fails⟩

/-! ## Partitions -/

/-- Two parts of a range of which neither is empty, the elements of the first
not above and those of the second not below the pivot. -/
structure Partitioned (test : Element → Element → Bool) (pivot : Element)
    (range left right : List Element) : Prop where
  leftNonempty : left ≠ []
  rightNonempty : right ≠ []
  perm : (left ++ right).Perm range
  notAbove : ∀ element ∈ left, test pivot element = false
  notBelow : ∀ element ∈ right, test element pivot = false

/-- What is in the range before each round: passed elements at both ends, and
something in between where the scans stop at first. -/
structure Scanned (test : Element → Element → Bool) (pivot : Element)
    (small between large : List Element) : Prop where
  notAbove : ∀ element ∈ small, test pivot element = false
  notBelow : ∀ element ∈ large, test element pivot = false
  stops : small ≠ [] ∧ large ≠ [] ∨
    small = [] ∧ large = [] ∧ pivot ∈ between ∧
      ∃ element ∈ between.tail, test pivot element = false

/-- When everything that was not passed upwards is above the pivot, something
was passed upwards. -/
theorem Scanned.passed_nonempty {small large below above : List Element}
    {one : Element}
    (scanned : Scanned test pivot small (below ++ one :: above) large)
    (allAbove : ∀ element ∈ above, test pivot element = true) :
    small ++ below ≠ [] := by
  intro empty
  obtain ⟨noSmall, noBelow⟩ := List.append_eq_nil_iff.mp empty
  rcases scanned.stops with ⟨isSmall, -⟩ | ⟨-, -, -, stop, member, fails⟩
  · exact isSmall noSmall
  · rw [noBelow] at member
    rw [allAbove stop member] at fails
    contradiction

/-- The scan downwards stops at the latest at the last element that was passed
upwards. -/
theorem scanLarge_passed {passed above : List Element} {largeKey : Int}
    (split : vector = front ++ (passed ++ (above ++ back)))
    (keyAt : largeKey = front.length + passed.length + above.length - 1)
    (nonempty : passed ≠ [])
    (allAbove : ∀ element ∈ above, test pivot element = true)
    (notAbove : ∀ element ∈ passed, test pivot element = false) :
    scanLarge test vector pivot largeKey =
      .ok (front.length + passed.length - 1) := by
  obtain ⟨earlier, last, rfl⟩ :
      ∃ earlier last, passed = earlier ++ [last] :=
    ⟨_, _, (List.dropLast_append_getLast nonempty).symm⟩
  have resplit : vector = (front ++ earlier) ++ last :: (above ++ back) := by
    rw [split]
    simp
  rw [List.length_append, List.length_singleton] at keyAt
  rw [scanLarge_eq resplit (by rw [List.length_append]; omega) allAbove
    (notAbove last (by simp))]
  simp
  omega

/-- A round in which the scans have crossed is the last one. -/
theorem partitionLoop_stop {rounds : Nat} {smallKey largeKey small large : Int}
    (up : scanSmall test vector pivot smallKey = .ok small)
    (down : scanLarge test vector pivot largeKey = .ok large)
    (crossed : large ≤ small) :
    partitionLoop test pivot (rounds + 1) smallKey largeKey vector =
      .ok (small, vector) := by
  rw [partitionLoop, up]
  simp only [bind, Except.bind, down]
  rw [if_neg (by omega)]
  rfl

theorem partitionLoop_swap {rounds : Nat} {smallKey largeKey small large : Int}
    {swapped : List Element}
    (up : scanSmall test vector pivot smallKey = .ok small)
    (down : scanLarge test vector pivot largeKey = .ok large)
    (apart : small < large)
    (swap : swapElements vector small large = .ok swapped) :
    partitionLoop test pivot (rounds + 1) smallKey largeKey vector =
      partitionLoop test pivot rounds (small + 1) (large - 1) swapped := by
  rw [partitionLoop, up]
  simp only [bind, Except.bind, down]
  rw [if_pos apart, swap]

/-- A round with a swap goes on between the swapped elements. -/
theorem partitionLoop_between {small large below middle above : List Element}
    {one other : Element} {rounds : Nat} {smallKey largeKey : Int}
    (split : vector = front ++ (small ++
      ((below ++ one :: (middle ++ other :: above)) ++ (large ++ back))))
    (smallKeyAt : smallKey = front.length + small.length)
    (largeKeyAt : largeKey =
      smallKey + (below ++ one :: (middle ++ other :: above)).length - 1)
    (allBelow : ∀ element ∈ below, test element pivot = true)
    (notBelow : test one pivot = false)
    (allAbove : ∀ element ∈ above, test pivot element = true)
    (notAbove : test pivot other = false) :
    partitionLoop test pivot (rounds + 1) smallKey largeKey vector =
      partitionLoop test pivot rounds
        (front.length + (small ++ below ++ [other]).length)
        (front.length + (small ++ below ++ [other]).length + middle.length - 1)
        (front ++ ((small ++ below ++ [other]) ++
          (middle ++ ((one :: (above ++ large)) ++ back)))) := by
  have split1 : vector = (front ++ small) ++
      (below ++ one :: ((middle ++ other :: above) ++ (large ++ back))) := by
    rw [split]
    simp
  have split2 : vector = (front ++ small ++ below ++ one :: middle) ++
      other :: (above ++ (large ++ back)) := by
    rw [split]
    simp
  have split3 : vector = (front ++ small ++ below) ++
      one :: (middle ++ other :: (above ++ (large ++ back))) := by
    rw [split]
    simp
  have up := scanSmall_eq split1 (by simp [smallKeyAt] : smallKey = _) allBelow
    notBelow
  have down : scanLarge test vector pivot largeKey =
      .ok (front ++ small ++ below ++ one :: middle).length := by
    refine scanLarge_eq split2 ?_ allAbove notAbove
    simp at largeKeyAt ⊢
    omega
  have swap : swapElements vector ((front ++ small).length + below.length : Nat)
      (front ++ small ++ below ++ one :: middle).length =
        .ok ((front ++ small ++ below) ++
          other :: (middle ++ one :: (above ++ (large ++ back)))) :=
    swapElements_split split3 (by simp; omega) (by simp; omega)
  rw [partitionLoop_swap up down (by simp; omega) swap]
  congr 1
  · simp
    omega
  · simp
    omega
  · simp

section StrictWeakOrder

variable [order : IsStrictWeakOrder Element fun one other => test one other]
  {small between large : List Element}

include order

/-- After a swap the scans go on with what is between the swapped elements. -/
theorem Scanned.swap {below above : List Element} {one other : Element}
    (scanned : Scanned test pivot small
      (below ++ one :: (between ++ other :: above)) large)
    (allBelow : ∀ element ∈ below, test element pivot = true)
    (notBelow : test one pivot = false)
    (allAbove : ∀ element ∈ above, test pivot element = true)
    (notAbove : test pivot other = false) :
    Scanned test pivot (small ++ below ++ [other]) between
      (one :: (above ++ large)) where
  notAbove := by
    intro element member
    rw [List.mem_append, List.mem_append, List.mem_singleton] at member
    rcases member with (isSmall | isBelow) | rfl
    · exact scanned.notAbove element isSmall
    · exact not_below_of_below (allBelow element isBelow)
    · exact notAbove
  notBelow := by
    intro element member
    rw [List.mem_cons, List.mem_append] at member
    rcases member with rfl | isAbove | isLarge
    · exact notBelow
    · exact not_below_of_below (allAbove element isAbove)
    · exact scanned.notBelow element isLarge
  stops := Or.inl ⟨by simp, by simp⟩

/-- The two sides at the end make a partition. -/
theorem Scanned.partitioned {below above : List Element}
    (scanned : Scanned test pivot small (below ++ above) large)
    (allBelow : ∀ element ∈ below, test element pivot = true)
    (notBelow : ∀ element ∈ above, test element pivot = false)
    (leftNonempty : small ++ below ≠ []) (rightNonempty : above ++ large ≠ []) :
    Partitioned test pivot (small ++ (below ++ above) ++ large)
      (small ++ below) (above ++ large) where
  leftNonempty := leftNonempty
  rightNonempty := rightNonempty
  perm := by
    rw [List.append_assoc, List.append_assoc, List.append_assoc]
  notAbove := by
    intro element member
    rcases List.mem_append.mp member with isSmall | isBelow
    · exact scanned.notAbove element isSmall
    · exact not_below_of_below (allBelow element isBelow)
  notBelow := by
    intro element member
    rcases List.mem_append.mp member with isAbove | isLarge
    · exact notBelow element isAbove
    · exact scanned.notBelow element isLarge

section Rounds

variable {rounds : Nat} {smallKey largeKey : Int} {below above : List Element}
  {one : Element}

/-- A round that passes everything upwards is stopped by an element that was
swapped before, and is the last one. -/
theorem partitionLoop_all_below
    (split : vector = front ++ (small ++ (between ++ (large ++ back))))
    (smallKeyAt : smallKey = front.length + small.length)
    (largeKeyAt : largeKey = smallKey + between.length - 1)
    (scanned : Scanned test pivot small between large)
    (allBelow : ∀ element ∈ between, test element pivot = true) :
    ∃ left right, partitionLoop test pivot (rounds + 1) smallKey largeKey vector =
        .ok (front.length + left.length, front ++ (left ++ (right ++ back))) ∧
      Partitioned test pivot (small ++ between ++ large) left right := by
  have stopped : small ≠ [] ∧ large ≠ [] := by
    rcases scanned.stops with both | ⟨-, -, member, -⟩
    · exact both
    · have isBelow : test pivot pivot = true := allBelow pivot member
      have never : test pivot pivot = false := not_below_self pivot
      rw [never] at isBelow
      contradiction
  have up : scanSmall test vector pivot smallKey =
      .ok ((front ++ small).length + between.length : Nat) := by
    obtain ⟨first, later, isLarge⟩ := List.exists_cons_of_ne_nil stopped.2
    have resplit : vector =
        (front ++ small) ++ (between ++ first :: (later ++ back)) := by
      rw [split, isLarge]
      simp
    refine scanSmall_eq resplit (by simp [smallKeyAt]) allBelow ?_
    exact scanned.notBelow first (by rw [isLarge]; exact List.mem_cons_self)
  have whole : Scanned test pivot small (between ++ []) large := by
    rwa [List.append_nil]
  have parts := whole.partitioned allBelow (by simp) (by simp [stopped.1])
    stopped.2
  rw [List.append_nil, List.nil_append] at parts
  have down : scanLarge test vector pivot largeKey =
      .ok (front.length + (small ++ between).length - 1) := by
    have resplit : vector =
        front ++ ((small ++ between) ++ ([] ++ (large ++ back))) := by
      rw [split]
      simp
    refine scanLarge_passed resplit ?_ parts.leftNonempty (by simp)
      parts.notAbove
    simp
    omega
  refine ⟨_, _, ?_, parts⟩
  rw [partitionLoop_stop up down (by simp; omega), split]
  simp
  omega

/-- A round in which the scans cross is the last one. -/
theorem partitionLoop_crossed
    (split : vector =
      front ++ (small ++ ((below ++ one :: above) ++ (large ++ back))))
    (smallKeyAt : smallKey = front.length + small.length)
    (largeKeyAt : largeKey = smallKey + (below ++ one :: above).length - 1)
    (scanned : Scanned test pivot small (below ++ one :: above) large)
    (allBelow : ∀ element ∈ below, test element pivot = true)
    (notBelow : test one pivot = false)
    (allAbove : ∀ element ∈ above, test pivot element = true) :
    ∃ left right, partitionLoop test pivot (rounds + 1) smallKey largeKey vector =
        .ok (front.length + left.length, front ++ (left ++ (right ++ back))) ∧
      Partitioned test pivot (small ++ (below ++ one :: above) ++ large)
        left right := by
  have up : scanSmall test vector pivot smallKey =
      .ok ((front ++ small).length + below.length : Nat) := by
    have resplit : vector =
        (front ++ small) ++ (below ++ one :: (above ++ (large ++ back))) := by
      rw [split]
      simp
    exact scanSmall_eq resplit (by simp [smallKeyAt]) allBelow notBelow
  have noneBelow : ∀ element ∈ one :: above, test element pivot = false := by
    intro element member
    rcases List.mem_cons.mp member with rfl | isAbove
    · exact notBelow
    · exact not_below_of_below (allAbove element isAbove)
  have parts := scanned.partitioned allBelow noneBelow
    (scanned.passed_nonempty allAbove) (by simp)
  rw [List.length_append, List.length_cons] at largeKeyAt
  obtain ⟨stop, down, crossed⟩ : ∃ stop,
      scanLarge test vector pivot largeKey = .ok stop ∧
      stop ≤ ((front ++ small).length + below.length : Nat) := by
    cases isAbove : test pivot one with
    | true =>
        have resplit : vector = front ++
            ((small ++ below) ++ ((one :: above) ++ (large ++ back))) := by
          rw [split]
          simp
        have passes : ∀ element ∈ one :: above, test pivot element = true := by
          intro element member
          rcases List.mem_cons.mp member with rfl | later
          · exact isAbove
          · exact allAbove element later
        refine ⟨_, scanLarge_passed resplit ?_ parts.leftNonempty passes
          parts.notAbove, ?_⟩
        · rw [List.length_append, List.length_cons]
          omega
        · rw [List.length_append, List.length_append]
          omega
    | false =>
        have resplit : vector = (front ++ small ++ below) ++
            one :: (above ++ (large ++ back)) := by
          rw [split]
          simp
        refine ⟨_, scanLarge_eq resplit ?_ allAbove isAbove, ?_⟩
        · rw [List.length_append, List.length_append]
          omega
        · have length := @List.length_append _ (front ++ small) below
          omega
  refine ⟨_, _, ?_, parts⟩
  rw [partitionLoop_stop up down crossed, split]
  simp
  omega

end Rounds

/-- The loop makes a partition of the range. -/
theorem partitionLoop_eq {rounds : Nat} {smallKey largeKey : Int}
    (split : vector = front ++ (small ++ (between ++ (large ++ back))))
    (smallKeyAt : smallKey = front.length + small.length)
    (largeKeyAt : largeKey = smallKey + between.length - 1)
    (scanned : Scanned test pivot small between large)
    (enough : between.length < rounds) :
    ∃ left right, partitionLoop test pivot rounds smallKey largeKey vector =
        .ok (front.length + left.length, front ++ (left ++ (right ++ back))) ∧
      Partitioned test pivot (small ++ between ++ large) left right := by
  induction rounds generalizing small between large vector smallKey largeKey with
  | zero => omega
  | succ rounds ih =>
      rcases forall_or_first (fun element => test element pivot) between with
        allBelow | ⟨below, one, rest, rfl, allBelow, notBelow⟩
      · exact partitionLoop_all_below split smallKeyAt largeKeyAt scanned allBelow
      · rcases forall_or_last (test pivot) rest with
          allAbove | ⟨middle, other, above, rfl, allAbove, notAbove⟩
        · exact partitionLoop_crossed split smallKeyAt largeKeyAt scanned
            allBelow notBelow allAbove
        · rw [partitionLoop_between split smallKeyAt largeKeyAt allBelow notBelow
            allAbove notAbove]
          have fewer : middle.length < rounds := by
            simp at enough
            omega
          obtain ⟨left, right, run, parts⟩ := ih rfl rfl rfl
            (scanned.swap allBelow notBelow allAbove notAbove) fewer
          refine ⟨left, right, run, parts.leftNonempty, parts.rightNonempty,
            parts.perm.trans ?_, parts.notAbove, parts.notBelow⟩
          classical
          rw [List.perm_iff_count]
          intro element
          simp only [List.count_append, List.count_cons, List.count_nil]
          omega

/-! ## The pivot -/

omit order in
theorem element_range {place : Nat} {key : Int}
    (split : vector = front ++ (range ++ back)) (inside : place < range.length)
    (keyAt : key = front.length + place) :
    element vector key = .ok range[place] := by
  have cut : range = range.take place ++ range[place] :: range.drop (place + 1) := by
    rw [← List.drop_eq_getElem_cons, List.take_append_drop]
  have resplit : vector = front ++
      (range.take place ++ range[place] :: (range.drop (place + 1) ++ back)) := by
    rw [split]
    conv_lhs => rw [cut]
    rw [List.append_assoc, List.cons_append]
  exact element_within resplit (by rw [keyAt, List.length_take]; omega)

omit order in
theorem getElem_mem_tail {place : Nat} (inside : place < range.length)
    (positive : 0 < place) : range[place] ∈ range.tail := by
  have found := List.getElem_mem (l := range.tail) (n := place - 1)
    (by rw [List.length_tail]; omega)
  rwa [List.getElem_tail, show range[place - 1 + 1] = range[place] by
    congr 1; omega] at found

variable (test) in
/-- The median of three is in the range, and something behind the first element
of the range is not above it. -/
theorem medianOfThree_eq (split : vector = front ++ (range ++ back))
    (startAt : start = front.length) (finishAt : finish = start + range.length)
    (large : 3 ≤ range.length) :
    ∃ key pivot, medianOfThree test vector start (finish - 1) = .ok key ∧
      element vector key = .ok pivot ∧ pivot ∈ range ∧
      ∃ element ∈ range.tail, test pivot element = false := by
  have middleAt : (start + (finish - 1)).tdiv 2 =
      front.length + ((range.length - 1) / 2 : Nat) := by
    rw [Int.tdiv_eq_ediv_of_nonneg (by omega)]
    omega
  have atStart := element_range split (by omega : 0 < range.length)
    (by omega : start = front.length + (0 : Nat))
  have atEnd := element_range split (by omega : range.length - 2 < range.length)
    (by omega : finish - 1 - 1 = front.length + (range.length - 2 : Nat))
  have atMiddle := element_range split
    (by omega : (range.length - 1) / 2 < range.length) middleAt
  have atLast := element_range split (by omega : range.length - 1 < range.length)
    (by omega : finish - 1 = front.length + (range.length - 1 : Nat))
  have middleStops := getElem_mem_tail
    (by omega : (range.length - 1) / 2 < range.length) (by omega)
  have lastStops := getElem_mem_tail
    (by omega : range.length - 1 < range.length) (by omega)
  have endStops := getElem_mem_tail
    (by omega : range.length - 2 < range.length) (by omega)
  rw [medianOfThree, atStart, atEnd]
  simp only [bind, Except.bind, atMiddle]
  cases startBelow : test range[0] range[range.length - 2] with
  | true =>
      rw [if_pos rfl]
      split
      · exact ⟨_, _, rfl, atMiddle, List.getElem_mem _, _, middleStops,
          not_below_self _⟩
      · exact ⟨_, _, rfl, atLast, List.getElem_mem _, _, lastStops,
          not_below_self _⟩
  | false =>
      rw [if_neg (by simp)]
      split
      · exact ⟨_, _, rfl, atMiddle, List.getElem_mem _, _, middleStops,
          not_below_self _⟩
      · exact ⟨_, _, rfl, atStart, List.getElem_mem _, _, endStops, startBelow⟩

variable (test) in
theorem partition_eq {rounds : Nat} (split : vector = front ++ (range ++ back))
    (startAt : start = front.length) (finishAt : finish = start + range.length)
    (large : 3 ≤ range.length) (enough : range.length < rounds) :
    ∃ pivot left right, partition test rounds start finish vector =
        .ok (front.length + left.length, front ++ (left ++ (right ++ back))) ∧
      Partitioned test pivot range left right := by
  obtain ⟨key, pivot, found, atKey, isElement, stops⟩ :=
    medianOfThree_eq test split startAt finishAt large
  have resplit : vector = front ++ ([] ++ (range ++ ([] ++ back))) := split
  have scanned : Scanned test pivot [] range [] := by
    refine ⟨by simp, by simp, Or.inr ⟨rfl, rfl, isElement, stops⟩⟩
  obtain ⟨left, right, run, parts⟩ := partitionLoop_eq resplit
    (by simp [startAt] : start = _) (by omega : finish - 1 = _) scanned enough
  refine ⟨pivot, left, right, ?_, by simpa using parts⟩
  rw [partition, found]
  simp only [bind, Except.bind, atKey]
  exact run

/-! ## Quick sort -/

variable (test) in
/-- Quick sort sorts a range, whenever the recursion may go as deep and the
partitions may take as many rounds as the range is long. -/
theorem quickSort_eq {rounds depth : Nat}
    (split : vector = front ++ (range ++ back))
    (startAt : start = front.length) (finishAt : finish = start + range.length)
    (enough : range.length < depth) (enoughRounds : range.length < rounds) :
    ∃ sorted, quickSort test rounds depth start finish vector =
        .ok (front ++ (sorted ++ back)) ∧
      Sorted test sorted ∧ sorted.Perm range := by
  induction depth generalizing vector front range back start finish with
  | zero => omega
  | succ depth ih =>
      rw [quickSort, sortRangeCheck_split split startAt finishAt]
      simp only [bind, Except.bind]
      split
      · rw [insertionSort_eq split startAt finishAt]
        exact ⟨_, rfl, sorted_insertAll range, (sameOrder_insertAll range).perm⟩
      · next large =>
          rw [smallSortSize] at large
          obtain ⟨pivot, left, right, run, parts⟩ :=
            partition_eq test split startAt finishAt (by omega)
              enoughRounds
          have count := parts.perm.length_eq
          rw [List.length_append] at count
          have someLeft := List.length_pos_of_ne_nil parts.leftNonempty
          have someRight := List.length_pos_of_ne_nil parts.rightNonempty
          rw [if_pos (by omega), run]
          simp only
          obtain ⟨sortedLeft, leftRun, leftSorted, leftPerm⟩ :=
            ih rfl startAt (by rw [startAt] : front.length + (left.length : Int) = _)
              (by omega) (by omega)
          have leftCount := leftPerm.length_eq
          have resplit : front ++ (sortedLeft ++ (right ++ back)) =
              (front ++ sortedLeft) ++ (right ++ back) := by
            rw [List.append_assoc]
          obtain ⟨sortedRight, rightRun, rightSorted, rightPerm⟩ :=
            ih resplit
              (by rw [List.length_append, leftCount]; omega :
                front.length + (left.length : Int) = _)
              (by omega : finish = _) (by omega) (by omega)
          rw [leftRun]
          simp only
          refine ⟨sortedLeft ++ sortedRight, ?_, ?_, ?_⟩
          · rw [rightRun, List.append_assoc, List.append_assoc]
          · exact sorted_append leftSorted rightSorted
              (fun element member =>
                parts.notAbove element (leftPerm.mem_iff.mp member))
              (fun element member =>
                parts.notBelow element (rightPerm.mem_iff.mp member))
          · exact (leftPerm.append rightPerm).trans parts.perm

/-! ## Sorting sequences -/

/-- A list in order with the same elements; a stable sort keeps the order of
equivalent ones. -/
structure Arranged (test : Element → Element → Bool) (stable : Bool)
    (before after : List Element) : Prop where
  sorted : Sorted test after
  perm : after.Perm before
  sameOrder : stable = true → SameOrder test before after

/-- Sorting ends within the size of the sequence and arranges it, without an
access outside. -/
theorem sort_arranges {Sequence : Type}
    (sequences : SequenceClass Sequence Element) (stable : Bool) (bound : Nat) :
    (∀ vector : List Element, vector.length < bound →
      ∃ sorted, sortVector test bound stable vector = .ok sorted ∧
        Arranged test stable vector sorted) ∧
    ∀ sequence, (sequences.elements sequence).length < bound →
      ∃ sorted, sortSequence sequences test bound stable sequence = .ok sorted ∧
        Arranged test stable (sequences.elements sequence)
          (sequences.elements sorted) := by
  have vectors (vector : List Element) (enough : vector.length < bound) :
      ∃ sorted, sortVector test bound stable vector = .ok sorted ∧
        Arranged test stable vector sorted := by
    have whole : vector = [] ++ (vector ++ []) := by simp
    cases stable with
    | true =>
        obtain ⟨sorted, run, isSorted, same⟩ :=
          mergeSort_eq test whole rfl (Int.zero_add _).symm enough
        exact ⟨sorted, by simpa [sortVector] using run, isSorted, same.perm,
          fun _ => same⟩
    | false =>
        obtain ⟨sorted, run, isSorted, perm⟩ :=
          quickSort_eq test whole rfl (Int.zero_add _).symm enough enough
        exact ⟨sorted, by simpa [sortVector] using run, isSorted, perm, by simp⟩
  refine ⟨vectors, ?_⟩
  intro sequence enough
  obtain ⟨sorted, run, arranged⟩ := vectors (sequences.elements sequence) enough
  refine ⟨sequences.asTypeForCopy sequence sorted, ?_, ?_⟩
  · rw [sortVector] at run
    rw [sortSequence, sequences.asVector_eq]
    cases stable with
    | true =>
        rw [if_pos rfl] at run
        simp only [if_true, run, bind, Except.bind]
        rfl
    | false =>
        rw [if_neg (by simp)] at run
        simp only [Bool.false_eq_true, if_false, run, bind, Except.bind]
        rfl
  · rwa [sequences.elements_asTypeForCopy]

end StrictWeakOrder

/-- Pairs in the order of their first components. -/
def byFirst (one other : Nat × Nat) : Bool := one.1 < other.1

instance : IsStrictWeakOrder (Nat × Nat) fun one other => byFirst one other where
  irrefl := by simp [byFirst]
  trans := by
    simp only [byFirst, decide_eq_true_eq]
    omega
  incomp_trans := by
    simp only [byFirst, decide_eq_true_eq]
    omega

/-- Lists as a class of sequences. -/
def lists : SequenceClass (List (Nat × Nat)) (Nat × Nat) where
  elements := id
  asVector := id
  asTypeForCopy _ vector := vector
  asVector_eq _ := rfl
  elements_asTypeForCopy _ _ := rfl

theorem sort_arranges_pairs :
    ∃ sorted,
      sortSequence lists byFirst 5 true [(2, 0), (1, 1), (2, 2), (1, 3)] =
        .ok sorted ∧
      Arranged byFirst true [(2, 0), (1, 1), (2, 2), (1, 3)] sorted :=
  (sort_arranges lists true 5).2 [(2, 0), (1, 1), (2, 2), (1, 3)] (by decide)

end OpenDylan.Collections.VectorSorting
