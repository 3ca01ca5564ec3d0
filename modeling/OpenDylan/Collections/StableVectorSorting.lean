import OpenDylan.Collections.VectorSorting
import OpenDylan.Lib.StableOrder

/-!
# Insertion sort and merge sort

Both sorts are seen as operations on a range of the vector, which is split into
what is in front of the range, the range and what is behind it.  Insertion sort
inserts the elements of the range one after the other; merge sort arranges the
range stably.  The rest of the vector is left alone.
-/

namespace OpenDylan.Collections.VectorSorting

open OpenDylan.Lib.StableOrder

variable {Element : Type} {test : Element → Element → Bool}
  {vector front range back : List Element} {start middle finish : Int}

/-! ## Insertion sort -/

/-- The element goes after the last one that it is not below; the element at
the hole is overwritten. -/
theorem insertElement_eq {sorted back vector : List Element}
    {hole currentElement : Element} {insertKey : Int}
    (split : vector = front ++ (sorted ++ hole :: back))
    (startAt : start = front.length)
    (keyAt : insertKey + 1 = front.length + sorted.length) :
    insertElement test currentElement start insertKey vector =
      .ok (front ++ (insertLast test sorted currentElement ++ back)) := by
  induction sorted using List.reverseRecOn generalizing hole back vector
    insertKey with
  | nil =>
      rw [insertElement, if_pos (by simp at keyAt; omega),
        setElement_within split keyAt]
      rfl
  | append_singleton sorted last ih =>
      have atLast : vector = front ++ (sorted ++ last :: (hole :: back)) := by
        rw [split, List.append_assoc, List.singleton_append]
      have lastAt : insertKey = front.length + sorted.length := by
        rw [List.length_append, List.length_singleton] at keyAt
        omega
      rw [insertElement, if_neg (by omega), element_within atLast lastAt,
        insertLast_concat]
      simp only [bind, Except.bind, setElement_within split keyAt]
      split
      · have shifted : front ++ (sorted ++ [last] ++ last :: back) =
            front ++ (sorted ++ last :: (last :: back)) := by
          rw [List.append_assoc, List.singleton_append]
        rw [ih shifted (by omega), List.append_assoc, List.singleton_append]
      · rw [List.append_assoc, List.append_assoc]
        rfl

/-- The rest of the range is inserted element by element. -/
theorem insertionLoop_eq {sorted rest vector : List Element} {currentKey : Int}
    (split : vector = front ++ (sorted ++ (rest ++ back)))
    (startAt : start = front.length)
    (keyAt : currentKey = front.length + sorted.length)
    (finishAt : finish = currentKey + rest.length) :
    insertionLoop test start finish currentKey vector =
      .ok (front ++ (rest.foldl (insertLast test) sorted ++ back)) := by
  induction rest generalizing sorted vector currentKey with
  | nil =>
      rw [insertionLoop, if_neg (by simp [finishAt]), split]
      rfl
  | cons current rest ih =>
      have inserted : insertElement test current start (currentKey - 1) vector =
          .ok (front ++ (insertLast test sorted current ++ (rest ++ back))) :=
        insertElement_eq split startAt (by omega)
      rw [insertionLoop, if_pos (by simp [finishAt] <;> omega),
        element_within split keyAt]
      simp only [bind, Except.bind, inserted]
      exact ih rfl (by rw [length_insertLast]; omega)
        (by rw [finishAt, List.length_cons]; omega)

theorem sortRangeCheck_eq {size : Int} (low : 0 ≤ start) (ordered : start ≤ finish)
    (high : finish ≤ size) : sortRangeCheck size start finish = .ok () := by
  rw [sortRangeCheck, if_neg (by omega), if_neg (by omega)]

/-- A range of the vector is inside of it. -/
theorem sortRangeCheck_split (split : vector = front ++ (range ++ back))
    (startAt : start = front.length) (finishAt : finish = start + range.length) :
    sortRangeCheck vector.length start finish = .ok () := by
  apply sortRangeCheck_eq
  · omega
  · omega
  · rw [split, List.length_append, List.length_append]
    omega

theorem insertionSort_eq (split : vector = front ++ (range ++ back))
    (startAt : start = front.length) (finishAt : finish = start + range.length) :
    insertionSort test start finish vector =
      .ok (front ++ (insertAll test range ++ back)) := by
  rw [insertionSort, sortRangeCheck_split split startAt finishAt]
  simp only [bind, Except.bind]
  cases range with
  | nil =>
      rw [insertionLoop, if_neg (by simp [finishAt] <;> omega), split]
      rfl
  | cons first range =>
      have first' : insertLast test [] first = [first] := rfl
      rw [insertAll, List.foldl_cons, first']
      exact insertionLoop_eq split startAt (by simp [startAt])
        (by rw [finishAt, List.length_cons]; omega)

/-! ## Merging -/

/-- The next slot of the merge vector is filled. -/
theorem setElement_room {filled : List (Option Element)} {mergeKey : Int}
    {next : Option Element} {room : Nat} (keyAt : mergeKey = filled.length) :
    setElement (filled ++ List.replicate (room + 1) none) mergeKey next =
      .ok ((filled ++ [next]) ++ List.replicate room none) := by
  rw [setElement_split (by rw [List.replicate_succ]) keyAt, List.append_assoc,
    List.singleton_append]

theorem mergeLoop_eq {before left between right vector : List Element}
    {filled : List (Option Element)}
    {mergeSize mergeKey startKey middleKey : Int} {room : Nat}
    (split : vector = before ++ (left ++ (between ++ (right ++ back))))
    (roomAt : room = left.length + right.length)
    (startKeyAt : startKey = before.length)
    (middleAt : middle = startKey + left.length)
    (middleKeyAt : middleKey = middle + between.length)
    (finishAt : finish = middleKey + right.length)
    (mergeKeyAt : mergeKey = filled.length)
    (sizeAt : mergeSize = mergeKey + room) :
    mergeLoop test vector middle finish mergeSize mergeKey startKey middleKey
        (filled ++ List.replicate room none) =
      .ok (filled ++ (merge test left right).map some) := by
  induction room generalizing before left between right filled mergeKey startKey
    middleKey with
  | zero =>
      have noLeft : left = [] := List.eq_nil_of_length_eq_zero (by omega)
      have noRight : right = [] := List.eq_nil_of_length_eq_zero (by omega)
      rw [mergeLoop, if_neg (by omega), noLeft, noRight, merge, List.nil_merge]
      rfl
  | succ room ih =>
      -- What is left to do once the next element of a side is in its slot.
      have takeRight {next : Element} {rest : List Element}
          (isRight : right = next :: rest) :
          mergeLoop test vector middle finish mergeSize (mergeKey + 1) startKey
              (middleKey + 1)
              ((filled ++ [some next]) ++ List.replicate room none) =
            .ok ((filled ++ [some next]) ++ (merge test left rest).map some) := by
        subst isRight
        have resplit : vector =
            before ++ (left ++ ((between ++ [next]) ++ (rest ++ back))) := by
          rw [split, List.append_assoc between]
          rfl
        rw [List.length_cons] at roomAt finishAt
        exact ih resplit (by omega) startKeyAt middleAt (by simp; omega)
          (by omega) (by simp; omega) (by omega)
      have takeLeft {next : Element} {rest : List Element}
          (isLeft : left = next :: rest) :
          mergeLoop test vector middle finish mergeSize (mergeKey + 1)
              (startKey + 1) middleKey
              ((filled ++ [some next]) ++ List.replicate room none) =
            .ok ((filled ++ [some next]) ++ (merge test rest right).map some) := by
        subst isLeft
        have resplit : vector =
            (before ++ [next]) ++ (rest ++ (between ++ (right ++ back))) := by
          rw [split, List.append_assoc before]
          rfl
        rw [List.length_cons] at roomAt middleAt
        exact ih resplit (by omega) (by simp; omega) (by omega) middleKeyAt
          finishAt (by simp; omega) (by omega)
      have foundLeft {next : Element} {rest : List Element}
          (isLeft : left = next :: rest) : element vector startKey = .ok next :=
        element_split (by rw [split, isLeft]; rfl) startKeyAt
      have foundRight {next : Element} {rest : List Element}
          (isRight : right = next :: rest) :
          element vector middleKey = .ok next := by
        have resplit : vector =
            (before ++ (left ++ between)) ++ next :: (rest ++ back) := by
          rw [split, isRight]
          simp
        exact element_split resplit (by simp; omega)
      rw [mergeLoop, if_pos (by omega)]
      cases left with
      | nil =>
          cases right with
          | nil => simp at roomAt
          | cons next rest =>
              rw [if_pos (by simp [middleAt]), foundRight rfl]
              simp only [bind, Except.bind, setElement_room mergeKeyAt]
              rw [takeRight rfl, merge, List.nil_merge, merge, List.nil_merge]
              simp
      | cons one left =>
          rw [if_neg (by simp [middleAt] <;> omega)]
          cases right with
          | nil =>
              rw [if_pos (by simp [finishAt]), foundLeft rfl]
              simp only [bind, Except.bind, setElement_room mergeKeyAt]
              rw [takeLeft rfl, merge, List.merge_right, merge, List.merge_right]
              simp
          | cons other right =>
              rw [if_neg (by simp [finishAt] <;> omega), foundLeft rfl,
                foundRight rfl, merge, List.cons_merge_cons]
              simp only [bind, Except.bind, setElement_room mergeKeyAt]
              cases below : test other one with
              | true =>
                  rw [if_pos rfl, takeRight rfl]
                  simp [merge]
              | false =>
                  rw [if_neg (by simp), takeLeft rfl]
                  simp [merge]

/-- The merged elements take the place of the range. -/
theorem copyLoop_eq {done merged range vector : List Element}
    {mergeSize mergeKey copyKey : Int}
    (split : vector = front ++ (range ++ back))
    (lengths : range.length = merged.length)
    (mergeKeyAt : mergeKey = done.length)
    (sizeAt : mergeSize = mergeKey + merged.length)
    (copyKeyAt : copyKey = front.length) :
    copyLoop ((done ++ merged).map some) mergeSize mergeKey copyKey vector =
      .ok (front ++ (merged ++ back)) := by
  induction merged generalizing done range vector front mergeKey copyKey with
  | nil =>
      have empty : range = [] := List.eq_nil_of_length_eq_zero lengths
      rw [copyLoop, if_neg (by simp [sizeAt]), split, empty]
      rfl
  | cons next merged ih =>
      cases range with
      | nil => simp at lengths
      | cons old range =>
          have found : element ((done ++ next :: merged).map some) mergeKey =
              .ok (some next) :=
            element_split (by rw [List.map_append, List.map_cons])
              (by rw [mergeKeyAt, List.length_map])
          have resplit : done ++ next :: merged = (done ++ [next]) ++ merged := by
            simp
          have split' : vector = front ++ old :: (range ++ back) := split
          rw [copyLoop, if_pos (by rw [sizeAt, List.length_cons]; omega), found]
          rw [List.length_cons] at sizeAt
          simp only [bind, Except.bind, setElement_split split' copyKeyAt]
          rw [resplit, List.append_cons front, ih rfl (by simpa using lengths)
            (by simp; omega) (by omega) (by simp; omega)]
          simp

theorem mergeRanges_eq {left right : List Element}
    (split : vector = front ++ (left ++ (right ++ back)))
    (startAt : start = front.length) (middleAt : middle = start + left.length)
    (finishAt : finish = middle + right.length) :
    mergeRanges test start middle finish vector =
      .ok (front ++ (merge test left right ++ back)) := by
  have size : finish - start = 0 + ((left.length + right.length : Nat) : Int) := by
    omega
  have merged : mergeLoop test vector middle finish (finish - start) 0 start
      middle ([] ++ List.replicate (left.length + right.length) none) =
        .ok ([] ++ (merge test left right).map some) := by
    have resplit : vector = front ++ (left ++ ([] ++ (right ++ back))) := split
    exact mergeLoop_eq resplit rfl startAt middleAt (by simp) finishAt (by simp)
      size
  have count : (merge test left right).length = left.length + right.length := by
    rw [(merge_perm left right).length_eq, List.length_append]
  have copied : copyLoop (([] ++ merge test left right).map some)
      (finish - start) 0 start vector =
        .ok (front ++ (merge test left right ++ back)) := by
    have resplit : vector = front ++ ((left ++ right) ++ back) := by
      rw [split, List.append_assoc]
    have lengths : (left ++ right).length = (merge test left right).length := by
      rw [count, List.length_append]
    exact copyLoop_eq resplit lengths (by simp) (by rw [size, count]) startAt
  rw [mergeRanges, size, Int.zero_add, Int.toNat_natCast]
  rw [size, Int.zero_add] at merged copied
  simp only [bind, Except.bind]
  rw [List.nil_append] at merged copied
  rw [merged]
  exact copied

/-! ## Merge sort -/

variable (test) in
/-- Merge sort arranges a range stably, whenever the recursion may go as deep
as the range is long. -/
theorem mergeSort_eq [IsStrictWeakOrder Element fun one other => test one other]
    {depth : Nat} (split : vector = front ++ (range ++ back))
    (startAt : start = front.length) (finishAt : finish = start + range.length)
    (enough : range.length < depth) :
    ∃ sorted, mergeSort test depth start finish vector =
        .ok (front ++ (sorted ++ back)) ∧
      Sorted test sorted ∧ SameOrder test range sorted := by
  induction depth generalizing vector front range back start finish with
  | zero => omega
  | succ depth ih =>
      rw [mergeSort, sortRangeCheck_split split startAt finishAt]
      simp only [bind, Except.bind]
      split
      · rw [insertionSort_eq split startAt finishAt]
        exact ⟨_, rfl, sorted_insertAll range, sameOrder_insertAll range⟩
      · next large =>
          rw [smallSortSize] at large
          rw [if_pos (by omega)]
          -- The range is cut in the middle.
          have halves := List.take_append_drop (range.length / 2) range
          have leftLength : (range.take (range.length / 2)).length =
              range.length / 2 := by
            rw [List.length_take]
            omega
          have rightLength : (range.drop (range.length / 2)).length =
              range.length - range.length / 2 := List.length_drop
          generalize range.take (range.length / 2) = left at halves leftLength
          generalize range.drop (range.length / 2) = right at halves rightLength
          have middleAt : start + (finish - start).fdiv 2 =
              start + left.length := by
            rw [leftLength, finishAt, Int.fdiv_eq_ediv_of_nonneg _ (by omega)]
            omega
          rw [middleAt]
          have split' : vector = front ++ (left ++ (right ++ back)) := by
            rw [split, ← halves, List.append_assoc]
          obtain ⟨sortedLeft, leftRun, leftSorted, leftSame⟩ :=
            ih split' startAt rfl (by omega)
          have leftCount := leftSame.perm.length_eq
          have resplit : front ++ (sortedLeft ++ (right ++ back)) =
              (front ++ sortedLeft) ++ (right ++ back) := by
            rw [List.append_assoc]
          obtain ⟨sortedRight, rightRun, rightSorted, rightSame⟩ :=
            ih resplit (by rw [List.length_append, leftCount, startAt]; omega)
              (by omega : finish = start + left.length + right.length) (by omega)
          have rightCount := rightSame.perm.length_eq
          have merged : mergeRanges test start (start + left.length) finish
              ((front ++ sortedLeft) ++ (sortedRight ++ back)) =
                .ok (front ++ (merge test sortedLeft sortedRight ++ back)) :=
            mergeRanges_eq (by rw [List.append_assoc]) startAt (by rw [leftCount])
              (by omega)
          rw [leftRun]
          simp only
          rw [rightRun]
          refine ⟨_, merged, sorted_merge leftSorted rightSorted, ?_⟩
          rw [← halves]
          exact (leftSame.append rightSame).trans
            (sameOrder_merge leftSorted rightSorted)

end OpenDylan.Collections.VectorSorting
