import Mathlib.Data.List.DropRight
import Mathlib.Data.List.Perm.Basic

/-!
# Stable arrangements

A list is sorted by a strict weak order if no element is below an earlier one.
Two lists arrange the same elements stably if, for every element, those that
are equivalent to it come in the same order in both.  Insertion from the right
and merging keep both, and two sorted lists can be joined at a pivot.
-/

namespace OpenDylan.Lib.StableOrder

variable {Element : Type*}

/-- No element is below an earlier one. -/
def Sorted (test : Element → Element → Bool) (list : List Element) : Prop :=
  list.Pairwise fun earlier later => test later earlier = false

/-- Neither element is below the other one. -/
def equivalent (test : Element → Element → Bool) (one other : Element) : Bool :=
  !test one other && !test other one

/-- The equivalents of every element come in the same order. -/
def SameOrder (test : Element → Element → Bool) (before after : List Element) :
    Prop :=
  ∀ element, after.filter (equivalent test element) =
    before.filter (equivalent test element)

/-- Insert an element after the last one that it is not below. -/
def insertLast (test : Element → Element → Bool) (list : List Element)
    (element : Element) : List Element :=
  list.rdropWhile (test element) ++ element :: list.rtakeWhile (test element)

/-- Merge two lists; of equivalent elements those on the left come first. -/
def merge (test : Element → Element → Bool) (left right : List Element) :
    List Element :=
  List.merge left right fun one other => !test other one

/-- Insert the elements of a list one after the other. -/
def insertAll (test : Element → Element → Bool) (list : List Element) :
    List Element :=
  list.foldl (insertLast test) []

variable {test : Element → Element → Bool} {before between after : List Element}

theorem insertLast_concat (list : List Element) (last element : Element) :
    insertLast test (list ++ [last]) element =
      if test element last then insertLast test list element ++ [last]
      else list ++ [last, element] := by
  rw [insertLast, List.rdropWhile_concat, List.rtakeWhile_concat]
  split
  · rw [insertLast, List.append_assoc, List.cons_append]
  · rw [List.append_assoc, List.singleton_append]

/-! ## Keeping the order of equivalents -/

namespace SameOrder

theorem refl (list : List Element) : SameOrder test list list :=
  fun _ => rfl

theorem trans (first : SameOrder test before between)
    (second : SameOrder test between after) : SameOrder test before after :=
  fun element => (second element).trans (first element)

theorem append {before' after' : List Element}
    (left : SameOrder test before after)
    (right : SameOrder test before' after') :
    SameOrder test (before ++ before') (after ++ after') := by
  intro element
  rw [List.filter_append, List.filter_append, left, right]

end SameOrder

theorem length_insertLast (list : List Element) (element : Element) :
    (insertLast test list element).length = list.length + 1 := by
  rw [insertLast, List.length_append, List.length_cons, ← Nat.add_assoc,
    ← List.length_append, List.rdropWhile_append_rtakeWhile]

theorem merge_perm (left right : List Element) :
    (merge test left right).Perm (left ++ right) :=
  List.merge_perm_append _

/-! ## Strict weak orders -/

section StrictWeakOrder

variable [order : IsStrictWeakOrder Element fun one other => test one other]
  {one two three : Element}

include order

theorem not_below_self (element : Element) : test element element = false := by
  simpa using order.irrefl element

theorem below_trans (first : test one two) (second : test two three) :
    test one three :=
  order.trans one two three first second

theorem not_below_of_below (below : test one two) : test two one = false := by
  by_contra above
  have cycle : test one one := below_trans below (by simpa using above)
  have never : test one one = false := not_below_self one
  rw [never] at cycle
  contradiction

/-- Not being above is transitive. -/
theorem not_below_trans (first : test two one = false)
    (second : test three two = false) : test three one = false := by
  by_contra above
  have below : test three one := by simpa using above
  have notAbove : test two three = false := by
    by_contra next
    have cycle := below_trans (by simpa using next : test two three) below
    rw [first] at cycle
    contradiction
  have notBelow : test one two = false := by
    by_contra next
    have cycle := below_trans below (by simpa using next : test one two)
    rw [second] at cycle
    contradiction
  have apart := order.incomp_trans one two three
    ⟨by simp [notBelow], by simp [first]⟩ ⟨by simp [notAbove], by simp [second]⟩
  exact apart.2 below

theorem below_of_below_of_not_above (first : test one two)
    (second : test three two = false) : test one three := by
  by_contra notBelow
  have apart := not_below_trans second (by simpa using notBelow)
  rw [first] at apart
  contradiction

theorem equivalent_self (element : Element) :
    equivalent test element element = true := by
  simp [equivalent, not_below_self]

/-- An element below another one is not equivalent to what is not below that
one. -/
theorem not_equivalent_of_below {element : Element}
    (isSame : equivalent test element one = true) (below : test one two) :
    equivalent test element two = false := by
  simp only [equivalent, Bool.and_eq_true, Bool.not_eq_true'] at isSame
  have above : test element two := by
    by_contra notBelow
    have apart : test one two = false :=
      not_below_trans (by simpa using notBelow) isSame.2
    rw [below] at apart
    contradiction
  simp [equivalent, above]

/-- The elements come in both lists equally often. -/
theorem SameOrder.perm (same : SameOrder test before after) :
    after.Perm before := by
  classical
  rw [List.perm_iff_count]
  intro element
  rw [← List.count_filter (p := equivalent test element)
    (equivalent_self element), same, List.count_filter (equivalent_self element)]

/-! ## Sorting -/

/-- Sorted lists can be joined at a pivot. -/
theorem sorted_append {pivot : Element} {left right : List Element}
    (leftSorted : Sorted test left) (rightSorted : Sorted test right)
    (notAbove : ∀ element ∈ left, test pivot element = false)
    (notBelow : ∀ element ∈ right, test element pivot = false) :
    Sorted test (left ++ right) :=
  List.pairwise_append.mpr ⟨leftSorted, rightSorted,
    fun one member other member' =>
      not_below_trans (notAbove one member) (notBelow other member')⟩

/-- What is left of the place of insertion is not above the element. -/
theorem not_above_of_mem_rdropWhile {list : List Element} {element : Element}
    (sorted : Sorted test list) :
    ∀ other ∈ list.rdropWhile (test element), test element other = false := by
  induction list using List.reverseRecOn with
  | nil => simp
  | append_singleton list last ih =>
      have parts := List.pairwise_append.mp sorted
      rw [List.rdropWhile_concat]
      split
      · exact ih parts.1
      · next notBelow =>
          intro other member
          rcases List.mem_append.mp member with earlier | isLast
          · exact not_below_trans (parts.2.2 other earlier last
              List.mem_cons_self) (by simpa using notBelow)
          · rw [List.mem_singleton.mp isLast]
            simpa using notBelow

theorem sorted_insertLast {list : List Element} (sorted : Sorted test list)
    (element : Element) : Sorted test (insertLast test list element) := by
  have whole := List.rdropWhile_append_rtakeWhile
    (p := test element) (l := list)
  rw [Sorted, ← whole, List.pairwise_append] at sorted
  refine List.pairwise_append.mpr ⟨sorted.1, ?_, ?_⟩
  · refine List.pairwise_cons.mpr ⟨?_, sorted.2.1⟩
    intro later member
    exact not_below_of_below (List.mem_rtakeWhile_imp member)
  · intro earlier member later member'
    rcases List.mem_cons.mp member' with rfl | isLater
    · refine not_above_of_mem_rdropWhile ?_ earlier member
      rw [Sorted, ← whole]
      exact List.pairwise_append.mpr sorted
    · exact sorted.2.2 earlier member later isLater

theorem sameOrder_insertLast (list : List Element) (element : Element) :
    SameOrder test (list ++ [element]) (insertLast test list element) := by
  intro other
  have whole := List.rdropWhile_append_rtakeWhile
    (p := test element) (l := list)
  rw [insertLast, ← whole, List.append_assoc, List.filter_append,
    List.filter_append, List.filter_append, whole, List.filter_cons]
  congr 1
  split
  · next isSame =>
      have none : (list.rtakeWhile (test element)).filter
          (equivalent test other) = [] := by
        rw [List.filter_eq_nil_iff]
        intro passed member
        have below := List.mem_rtakeWhile_imp member
        simp [not_equivalent_of_below isSame below]
      rw [none, List.filter_cons, if_pos isSame]
      rfl
  · next notSame =>
      rw [List.filter_cons, if_neg notSame, List.filter_nil, List.append_nil]

theorem sorted_foldl_insertLast {list : List Element}
    (sorted : Sorted test list) (elements : List Element) :
    Sorted test (elements.foldl (insertLast test) list) := by
  induction elements generalizing list with
  | nil => exact sorted
  | cons element elements ih => exact ih (sorted_insertLast sorted element)

theorem sameOrder_foldl_insertLast (list elements : List Element) :
    SameOrder test (list ++ elements)
      (elements.foldl (insertLast test) list) := by
  induction elements generalizing list with
  | nil =>
      rw [List.append_nil]
      exact SameOrder.refl list
  | cons element elements ih =>
      rw [List.append_cons]
      exact (sameOrder_insertLast list element).append
        (SameOrder.refl elements) |>.trans (ih (insertLast test list element))

theorem sorted_insertAll (list : List Element) :
    Sorted test (insertAll test list) :=
  sorted_foldl_insertLast List.Pairwise.nil list

theorem sameOrder_insertAll (list : List Element) :
    SameOrder test list (insertAll test list) :=
  sameOrder_foldl_insertLast [] list

theorem sorted_merge {left right : List Element}
    (leftSorted : Sorted test left) (rightSorted : Sorted test right) :
    Sorted test (merge test left right) := by
  have ordered : (merge test left right).Pairwise
      fun one other => !test other one := by
    refine List.pairwise_merge ?_ ?_ left right
      (leftSorted.imp (by simp)) (rightSorted.imp (by simp))
    · intro one two three first second
      simp only [Bool.not_eq_true'] at first second ⊢
      exact not_below_trans first second
    · intro one two
      by_cases below : test one two
      · simp [below, not_below_of_below below]
      · simp [below]
  exact ordered.imp (by simp)

theorem sameOrder_merge {left right : List Element}
    (leftSorted : Sorted test left) (rightSorted : Sorted test right) :
    SameOrder test (left ++ right) (merge test left right) := by
  intro element
  rw [merge, List.filter_append]
  induction left generalizing right with
  | nil => simp
  | cons one left ih =>
      induction right with
      | nil => simp
      | cons other right ih' =>
          rw [List.cons_merge_cons]
          split
          · rw [List.filter_cons, ih leftSorted.tail rightSorted]
            simp only [List.filter_cons]
            split <;> rfl
          · next isBelow =>
              -- Nothing on the left is equivalent to what is merged next.
              have below : test other one := by simpa using isBelow
              rw [List.filter_cons, ih' rightSorted.tail,
                List.filter_cons (x := other)]
              split
              · next isSame =>
                  have none : (one :: left).filter
                      (equivalent test element) = [] := by
                    rw [List.filter_eq_nil_iff]
                    intro passed member
                    have above : test other passed := by
                      rcases List.mem_cons.mp member with rfl | later
                      · exact below
                      · exact below_of_below_of_not_above below
                          (List.rel_of_pairwise_cons leftSorted later)
                    simp [not_equivalent_of_below isSame above]
                  rw [none]
                  rfl
              · rfl

end StrictWeakOrder

end OpenDylan.Lib.StableOrder
