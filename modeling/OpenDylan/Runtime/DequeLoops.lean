import Mathlib.Data.List.Induction
import OpenDylan.Runtime.Deque

/-!
# The loops of deques

The vector of a deque is a front, the contents and a back.  Each loop of the
operations takes a vector in parts to a vector in parts: elements move over a
gap, into a new vector or past each other, and removed elements are squeezed
out.
-/

namespace OpenDylan.Runtime.Deque

open Objects

variable {α : Type}

/-! ## Single slots -/

/-- The representation with other elements. -/
def IslandDeque.withElements (rep : IslandDeque α) (elements : List α) :
    IslandDeque α :=
  { rep with elements := elements }

@[simp]
theorem withElements_elements (rep : IslandDeque α) (elements : List α) :
    (rep.withElements elements).elements = elements := rfl

@[simp]
theorem withElements_firstIndex (rep : IslandDeque α) (elements : List α) :
    (rep.withElements elements).firstIndex = rep.firstIndex := rfl

@[simp]
theorem withElements_lastIndex (rep : IslandDeque α) (elements : List α) :
    (rep.withElements elements).lastIndex = rep.lastIndex := rfl

@[simp]
theorem withElements_withElements (rep : IslandDeque α)
    (elements others : List α) :
    (rep.withElements elements).withElements others =
      rep.withElements others := rfl

@[simp]
theorem withElements_self (rep : IslandDeque α) :
    rep.withElements rep.elements = rep := rfl

theorem element_at {rep : IslandDeque α} {front back : List α} {object : α}
    {index : Int} (elements : rep.elements = front ++ object :: back)
    (place : index = front.length) : rep.element index = .ok object := by
  subst place
  simp [IslandDeque.element, elements]

theorem setElement_at (rep : IslandDeque α) {front back : List α}
    {old : α} {index : Int} (elements : rep.elements = front ++ old :: back)
    (place : index = front.length) (object : α) :
    rep.setElement index object =
      .ok (rep.withElements (front ++ object :: back)) := by
  subst place
  have inside : (front.length : Int) < rep.vectorSize := by
    rw [IslandDeque.vectorSize, elements, List.length_append,
      List.length_cons]
    omega
  simp [IslandDeque.setElement, inside, elements, IslandDeque.withElements]

/-! ## Blocks -/

theorem fillElements_blocks {rep : IslandDeque α}
    {front middle back : List α} {index : Int}
    (elements : rep.elements = front ++ (middle ++ back))
    (place : index = front.length) (object : α) :
    fillElements object middle.length index rep =
      .ok (rep.withElements
        (front ++ (List.replicate middle.length object ++ back))) := by
  induction middle generalizing rep front index with
  | nil =>
      rw [List.nil_append] at elements
      simp [fillElements, ← elements, pure, Except.pure]
  | cons old middle ih =>
      rw [List.cons_append] at elements
      have written := setElement_at _ elements place object
      have rest : fillElements object middle.length (index + 1)
          (rep.withElements (front ++ object :: (middle ++ back))) =
            .ok (rep.withElements ((front ++ [object]) ++
              (List.replicate middle.length object ++ back))) :=
        ih (by simp) (by simp [place])
      simp only [List.length_cons, fillElements, bind, Except.bind, written,
        rest]
      simp [List.replicate_succ]

/-- Elements move to the right over a gap, the last one first. -/
theorem moveElements_right {rep : IslandDeque α}
    {front contents gap done : List α}
    (elements : rep.elements = front ++ (contents ++ (gap ++ done)))
    {destination source : Int}
    (target : destination =
      front.length + contents.length + gap.length - 1)
    (place : source = front.length + contents.length - 1) :
    ∃ gap' : List α, gap'.length = gap.length ∧
      moveElements (-1) contents.length destination source rep =
        .ok (rep.withElements (front ++ (gap' ++ (contents ++ done)))) := by
  induction contents using List.reverseRecOn generalizing rep gap done
    destination source with
  | nil =>
      refine ⟨gap, rfl, ?_⟩
      rw [List.nil_append] at elements
      simp [moveElements, ← elements, pure, Except.pure]
  | append_singleton contents object ih =>
      rw [List.length_append, List.length_singleton] at target place
      have split := List.dropLast_append_getLast
        (List.cons_ne_nil object gap)
      generalize (object :: gap).dropLast = gap' at split
      generalize (object :: gap).getLast _ = old at split
      have length := congrArg List.length split
      rw [List.length_cons, List.length_append, List.length_singleton]
        at length
      have atSource : rep.elements =
          (front ++ contents) ++ object :: (gap ++ done) := by
        simp [elements]
      have atDestination : rep.elements =
          (front ++ (contents ++ gap')) ++ old :: done := by
        have whole : object :: (gap ++ done) = gap' ++ old :: done := by
          rw [← List.cons_append, ← split]
          simp
        simp [atSource, whole]
      have read : rep.element source = .ok object :=
        element_at atSource (by simp [place]; omega)
      have written : rep.setElement destination object =
          .ok (rep.withElements
            ((front ++ (contents ++ gap')) ++ object :: done)) :=
        setElement_at _ atDestination (by simp [target]; omega) object
      have rest : ∃ gap'' : List α, gap''.length = gap'.length ∧
          moveElements (-1) contents.length (destination - 1) (source - 1)
              (rep.withElements
                ((front ++ (contents ++ gap')) ++ object :: done)) =
            .ok (rep.withElements
              (front ++ (gap'' ++ (contents ++ object :: done)))) :=
        ih (by simp) (by omega) (by omega)
      rcases rest with ⟨gap'', same, moved⟩
      refine ⟨gap'', by omega, ?_⟩
      rw [List.length_append, List.length_singleton]
      simp only [moveElements, bind, Except.bind, read, written]
      rw [Int.add_neg_one, Int.add_neg_one, moved]
      simp

/-- Elements move to the left over a gap, the first one first. -/
theorem moveElements_left {rep : IslandDeque α}
    {front gap contents back : List α}
    (elements : rep.elements = front ++ (gap ++ (contents ++ back)))
    {destination source : Int} (target : destination = front.length)
    (place : source = front.length + gap.length) :
    ∃ gap' : List α, gap'.length = gap.length ∧
      moveElements 1 contents.length destination source rep =
        .ok (rep.withElements (front ++ (contents ++ (gap' ++ back)))) := by
  induction contents generalizing rep front gap destination source with
  | nil =>
      refine ⟨gap, rfl, ?_⟩
      rw [List.nil_append] at elements
      simp [moveElements, ← elements, pure, Except.pure]
  | cons object contents ih =>
      have atSource : rep.elements =
          (front ++ gap) ++ object :: (contents ++ back) := by
        simp [elements]
      have read : rep.element source = .ok object :=
        element_at atSource (by simp [place])
      cases split : gap ++ [object] with
      | nil => simp at split
      | cons old gap' =>
          have length := congrArg List.length split
          rw [List.length_cons, List.length_append, List.length_singleton]
            at length
          have atDestination : rep.elements =
              front ++ old :: (gap' ++ (contents ++ back)) := by
            rw [elements, ← List.cons_append, ← split]
            simp
          have written := setElement_at _ atDestination target object
          have rest : ∃ gap'' : List α, gap''.length = gap'.length ∧
              moveElements 1 contents.length (destination + 1) (source + 1)
                  (rep.withElements
                    (front ++ object :: (gap' ++ (contents ++ back)))) =
                .ok (rep.withElements
                  ((front ++ [object]) ++ (contents ++ (gap'' ++ back)))) :=
            ih (by simp) (by simp [target]) (by simp [place]; omega)
          rcases rest with ⟨gap'', same, moved⟩
          refine ⟨gap'', by omega, ?_⟩
          rw [List.length_cons]
          simp only [moveElements, bind, Except.bind, read, written]
          rw [moved]
          simp

/-- Elements are copied into the space for them. -/
theorem copyElements_blocks {old rep : IslandDeque α}
    {before contents after front space back : List α}
    (oldElements : old.elements = before ++ (contents ++ after))
    (elements : rep.elements = front ++ (space ++ back))
    (same : space.length = contents.length) {source destination : Int}
    (place : source = before.length) (target : destination = front.length) :
    copyElements old contents.length source destination rep =
      .ok (rep.withElements (front ++ (contents ++ back))) := by
  induction contents generalizing rep before front space source destination
    with
  | nil =>
      rw [List.length_eq_zero_iff.mp same] at elements
      rw [List.nil_append] at elements
      simp [copyElements, ← elements, pure, Except.pure]
  | cons object contents ih =>
      cases space with
      | nil => simp at same
      | cons unused space =>
          have read : old.element source = .ok object :=
            element_at oldElements place
          have written : rep.setElement destination object =
              .ok (rep.withElements (front ++ object :: (space ++ back))) :=
            setElement_at _ elements target object
          have rest : copyElements old contents.length (source + 1)
              (destination + 1)
              (rep.withElements (front ++ object :: (space ++ back))) =
                .ok (rep.withElements
                  ((front ++ [object]) ++ (contents ++ back))) :=
            ih (by simp [oldElements] : old.elements =
                (before ++ [object]) ++ (contents ++ after))
              (by simp : front ++ object :: (space ++ back) =
                (front ++ [object]) ++ (space ++ back))
              (by simpa using same) (by simp [place]) (by simp [target])
          rw [List.length_cons]
          simp only [copyElements, bind, Except.bind, read, written, rest]
          simp

/-- Elements change places from the ends to the middle. -/
theorem swapElements_blocks {rep : IslandDeque α}
    {front contents back : List α}
    (elements : rep.elements = front ++ (contents ++ back)) {low high : Int}
    (first : low = front.length)
    (last : high = front.length + contents.length - 1) :
    swapElements (contents.length / 2) low high rep =
      .ok (rep.withElements (front ++ (contents.reverse ++ back))) := by
  induction contents using List.bidirectionalRec generalizing rep front back
    low high with
  | nil =>
      rw [List.nil_append] at elements
      simp [swapElements, ← elements, pure, Except.pure]
  | singleton object =>
      rw [List.reverse_singleton, ← elements]
      simp [swapElements, pure, Except.pure]
  | cons_append object contents other ih =>
      have half : (object :: (contents ++ [other])).length / 2 =
          contents.length / 2 + 1 := by
        rw [List.length_cons, List.length_append, List.length_singleton]
        omega
      have atLow : rep.elements =
          front ++ object :: (contents ++ other :: back) := by
        simp [elements]
      have atHigh : rep.elements =
          (front ++ object :: contents) ++ other :: back := by
        simp [elements]
      have place : high = (front ++ object :: contents).length := by
        simp [last]
        omega
      have place' : high = (front ++ other :: contents).length := by
        simp [last]
        omega
      have readLow : rep.element low = .ok object := element_at atLow first
      have readHigh : rep.element high = .ok other := element_at atHigh place
      have writeLow : rep.setElement low other =
          .ok (rep.withElements
            (front ++ other :: (contents ++ other :: back))) :=
        setElement_at _ atLow first other
      have writeHigh : (rep.withElements
            (front ++ other :: (contents ++ other :: back))).setElement high
              object =
          .ok (rep.withElements
            ((front ++ other :: contents) ++ object :: back)) :=
        setElement_at _
          (by simp : front ++ other :: (contents ++ other :: back) =
            (front ++ other :: contents) ++ other :: back) place' object
      have rest : swapElements (contents.length / 2) (low + 1) (high - 1)
            (rep.withElements
              ((front ++ other :: contents) ++ object :: back)) =
          .ok (rep.withElements
            ((front ++ [other]) ++ (contents.reverse ++ object :: back))) :=
        ih (by simp) (by simp [first]) (by simp [last]; omega)
      rw [half]
      simp only [swapElements, bind, Except.bind, readLow, readHigh, writeLow,
        writeHigh, rest]
      simp

/-- What is left when the first objects that meet the test are removed. -/
def removeFirst (target : α) (test : α → α → Bool) : Int → List α → List α
  | _, [] => []
  | count, object :: objects =>
      if 0 < count ∧ test object target then
        removeFirst target test (count - 1) objects
      else
        object :: removeFirst target test count objects

/-- Elements that stay move over those that were removed, and the slots that
fall free are cleared. -/
theorem grovel_blocks [Objects α] {rep : IslandDeque α}
    {front kept gap unseen back : List α}
    (elements : rep.elements = front ++ (kept ++ (gap ++ (unseen ++ back))))
    (target : α) (test : α → α → Bool) (count : Int)
    {source destination : Int}
    (from' : source = front.length + kept.length + gap.length)
    (into : destination = front.length + kept.length) :
    ∃ free : List α,
      free.length + (removeFirst target test count unseen).length =
        gap.length + unseen.length ∧
      grovel target test unseen.length count source destination rep =
        .ok { rep with
          lastIndex := front.length + kept.length +
            (removeFirst target test count unseen).length - 1
          elements := front ++ (kept ++
            (removeFirst target test count unseen ++ (free ++ back))) } := by
  induction unseen generalizing rep kept gap count source destination with
  | nil =>
      have spaces : (source - destination).toNat = gap.length := by omega
      have blocks : rep.elements = (front ++ kept) ++ (gap ++ back) := by
        simp [elements]
      have place : destination = (front ++ kept).length := by simp [into]
      have filled := fillElements_blocks blocks place (no : α)
      refine ⟨List.replicate gap.length no, by simp [removeFirst], ?_⟩
      rw [List.length_nil, grovel, spaces]
      simp only [bind, Except.bind, filled]
      simp [removeFirst, into, pure, Except.pure, IslandDeque.withElements]
  | cons object unseen ih =>
      have atSource : rep.elements =
          (front ++ (kept ++ gap)) ++ object :: (unseen ++ back) := by
        simp [elements]
      have read : rep.element source = .ok object :=
        element_at atSource (by simp [from']; omega)
      simp only [List.length_cons, grovel, bind, Except.bind, read,
        removeFirst]
      by_cases removed : 0 < count ∧ test object target
      · rw [if_pos removed, if_pos removed]
        have place : source + 1 = front.length + kept.length +
            (gap ++ [object]).length := by
          simp [from']
          omega
        rcases ih (by simp [elements] : rep.elements =
            front ++ (kept ++ ((gap ++ [object]) ++ (unseen ++ back))))
          (count - 1) place into with ⟨free, same, moved⟩
        refine ⟨free, ?_, moved⟩
        rw [same, List.length_append, List.length_singleton]
        omega
      · rw [if_neg removed, if_neg removed]
        cases split : gap ++ [object] with
        | nil => simp at split
        | cons old gap' =>
            have length := congrArg List.length split
            rw [List.length_cons, List.length_append, List.length_singleton]
              at length
            have atDestination : rep.elements =
                (front ++ kept) ++ old :: (gap' ++ (unseen ++ back)) := by
              rw [← List.cons_append, ← split]
              simp [elements]
            have written : rep.setElement destination object =
                .ok (rep.withElements
                  ((front ++ kept) ++ object :: (gap' ++ (unseen ++ back)))) :=
              setElement_at _ atDestination (by simp [into]) object
            have place : source + 1 = front.length +
                (kept ++ [object]).length + gap'.length := by
              simp [from']
              omega
            have into' : destination + 1 =
                front.length + (kept ++ [object]).length := by
              simp [into]
              omega
            rcases ih (by simp :
                (rep.withElements ((front ++ kept) ++
                  object :: (gap' ++ (unseen ++ back)))).elements =
                front ++ ((kept ++ [object]) ++
                  (gap' ++ (unseen ++ back)))) count place into' with
              ⟨free, same, moved⟩
            refine ⟨free, by simp only [List.length_cons]; omega, ?_⟩
            simp only [written]
            rw [moved]
            simp [IslandDeque.withElements]
            omega

end OpenDylan.Runtime.Deque
