import Mathlib

/-!
# Merging lists into one order

A merge repeatedly selects the head of one of some lists and removes it from
the front of all of them.  When every selected element is in no tail, the
elements come out once each and every list keeps its order.  Such elements can
be found as long as there is any order that all the lists agree with.
-/

namespace OpenDylan.Lib.Merging

variable {Element : Type} [DecidableEq Element]

/-! ## The algorithm -/

/-- Drop an element from the front of a list. -/
def removeNext (next : Element) : List Element → List Element
  | [] => []
  | head :: tail => if head = next then tail else head :: tail

/-- Drop an element from the front of all lists. -/
def advance (next : Element) (remaining : List (List Element)) :
    List (List Element) :=
  remaining.map (removeNext next)

/-- How the next element is selected from what was selected before, the most
recent first, and the remaining lists; it is the head of one of them. -/
structure Selection (Element : Type) where
  next : List Element → List (List Element) → Option Element
  head : ∀ {selected remaining element},
    next selected remaining = some element →
      ∃ list ∈ remaining, list.head? = some element

theorem removeNext_length_le (next : Element) (list : List Element) :
    (removeNext next list).length ≤ list.length := by
  cases list with
  | nil => exact Nat.le_refl _
  | cons head tail =>
      rw [removeNext]
      split
      · exact Nat.le_succ _
      · exact Nat.le_refl _

theorem removeNext_length_sum_le (next : Element)
    (remaining : List (List Element)) :
    ((advance next remaining).map List.length).sum ≤
      (remaining.map List.length).sum := by
  induction remaining with
  | nil => exact Nat.le_refl _
  | cons list remaining ih =>
      simp only [advance, List.map_cons, List.sum_cons]
      exact Nat.add_le_add (removeNext_length_le next list) ih

/-- Removing the head of one of the lists makes them shorter. -/
theorem removeNext_length_sum_lt {next : Element}
    {remaining : List (List Element)}
    (head : ∃ list ∈ remaining, list.head? = some next) :
    ((advance next remaining).map List.length).sum <
      (remaining.map List.length).sum := by
  induction remaining with
  | nil => simp at head
  | cons list remaining ih =>
      simp only [advance, List.map_cons, List.sum_cons]
      obtain ⟨found, member, first⟩ := head
      rcases List.mem_cons.mp member with rfl | later
      · have shorter : (removeNext next found).length < found.length := by
          cases found with
          | nil => simp at first
          | cons top tail =>
              have same : top = next := by simpa using first
              rw [removeNext, if_pos same]
              exact Nat.lt_succ_self _
        exact Nat.add_lt_add_of_lt_of_le shorter
          (removeNext_length_sum_le next remaining)
      · exact Nat.add_lt_add_of_le_of_lt (removeNext_length_le next list)
          (ih ⟨found, later, first⟩)

/-- Select elements until the lists are empty; `none` when nothing can be
selected. -/
def mergeLists (selection : Selection Element) (selected : List Element)
    (remaining : List (List Element)) : Option (List Element) :=
  if remaining.all List.isEmpty then
    some selected.reverse
  else
    match _found : selection.next selected remaining with
    | none => none
    | some next =>
        mergeLists selection (next :: selected) (advance next remaining)
termination_by (remaining.map List.length).sum
decreasing_by exact removeNext_length_sum_lt (selection.head _found)

section Equations

variable {selection : Selection Element} {selected : List Element}
variable {remaining : List (List Element)}

theorem mergeLists_of_empty (empty : remaining.all List.isEmpty = true) :
    mergeLists selection selected remaining = some selected.reverse := by
  rw [mergeLists, if_pos empty]

theorem mergeLists_of_none (notEmpty : ¬remaining.all List.isEmpty = true)
    (failed : selection.next selected remaining = none) :
    mergeLists selection selected remaining = none := by
  rw [mergeLists, if_neg notEmpty]
  split
  · rfl
  · next found => exact absurd (failed.symm.trans found) (by simp)

theorem mergeLists_of_some {next : Element}
    (notEmpty : ¬remaining.all List.isEmpty = true)
    (found : selection.next selected remaining = some next) :
    mergeLists selection selected remaining =
      mergeLists selection (next :: selected) (advance next remaining) := by
  rw [mergeLists, if_neg notEmpty]
  split
  · next failed => exact absurd (failed.symm.trans found) (by simp)
  · next other same => rw [Option.some.inj (found.symm.trans same)]

end Equations

/-! ## Candidates -/

/-- An element that may come next: the head of a list and in no tail. -/
structure Candidate (remaining : List (List Element)) (element : Element) :
    Prop where
  head : ∃ list ∈ remaining, list.head? = some element
  free : ∀ list ∈ remaining, element ∉ list.tail

/-- Every head is in the tail of a list, and there is a head. -/
def Stuck (remaining : List (List Element)) : Prop :=
  (∃ list ∈ remaining, list ≠ []) ∧
    ∀ list ∈ remaining, ∀ element, list.head? = some element →
      ∃ other ∈ remaining, element ∈ other.tail

/-- Removing candidates one after the other. -/
abbrev Leads : List (List Element) → List (List Element) → Prop :=
  Relation.ReflTransGen fun remaining later =>
    ∃ next, Candidate remaining next ∧ later = advance next remaining

omit [DecidableEq Element] in
theorem Stuck.not_candidate {remaining : List (List Element)}
    {element : Element} (stuck : Stuck remaining) :
    ¬Candidate remaining element := by
  intro candidate
  obtain ⟨list, member, head⟩ := candidate.head
  obtain ⟨other, there, blocked⟩ := stuck.2 list member element head
  exact candidate.free other there blocked

/-- After its removal, a candidate is in none of the lists. -/
theorem Candidate.removed {remaining : List (List Element)} {next : Element}
    (candidate : Candidate remaining next) {list : List Element}
    (member : list ∈ remaining) : next ∉ removeNext next list := by
  have free := candidate.free list member
  cases list with
  | nil => simp [removeNext]
  | cons head tail =>
      rw [removeNext]
      split
      case isTrue same => exact free
      case isFalse different =>
        intro there
        rcases List.mem_cons.mp there with same | inside
        · exact different same.symm
        · exact free inside

theorem mem_removeNext {next element : Element} {list : List Element}
    (different : element ≠ next) :
    element ∈ removeNext next list ↔ element ∈ list := by
  cases list with
  | nil => simp [removeNext]
  | cons head tail =>
      rw [removeNext]
      split
      case isTrue same =>
        rw [List.mem_cons]
        exact ⟨Or.inr, fun there => there.resolve_left fun equal =>
          different (equal.trans same)⟩
      case isFalse => exact Iff.rfl

/-- What is left of a list comes after the removed element. -/
theorem sublist_cons_of_removeNext {next : Element}
    {list order : List Element}
    (sublist : (removeNext next list).Sublist order) :
    list.Sublist (next :: order) := by
  cases list with
  | nil => exact List.nil_sublist _
  | cons head tail =>
      rw [removeNext] at sublist
      split at sublist
      case isTrue same =>
        rw [same]
        exact sublist.cons_cons next
      case isFalse => exact sublist.cons next

theorem removeNext_sublist (next : Element) (list : List Element) :
    (removeNext next list).Sublist list := by
  cases list with
  | nil => exact List.Sublist.refl _
  | cons head tail =>
      rw [removeNext]
      split
      · exact List.sublist_cons_self ..
      · exact List.Sublist.refl _

/-! ## The result of a merge -/

/-- A merge that selects candidates puts every element once into the result,
and every list keeps its order. -/
structure Merged (remaining : List (List Element)) (order : List Element) :
    Prop where
  nodup : order.Nodup
  mem : ∀ element, element ∈ order ↔ ∃ list ∈ remaining, element ∈ list
  sublist : ∀ list ∈ remaining, list.Sublist order

omit [DecidableEq Element] in
theorem Merged.of_empty {remaining : List (List Element)}
    (empty : remaining.all List.isEmpty = true) : Merged remaining [] := by
  have nil : ∀ list ∈ remaining, list = [] := by
    intro list member
    exact List.isEmpty_iff.mp (List.all_eq_true.mp empty list member)
  constructor
  · exact List.nodup_nil
  · intro element
    constructor
    · intro member
      simp at member
    · rintro ⟨list, member, inside⟩
      rw [nil list member] at inside
      exact inside
  · intro list member
    rw [nil list member]

/-- Putting a candidate before the order of the shorter lists. -/
theorem Merged.cons {remaining : List (List Element)} {next : Element}
    {order : List Element} (candidate : Candidate remaining next)
    (merged : Merged (advance next remaining) order) :
    Merged remaining (next :: order) := by
  constructor
  · rw [List.nodup_cons]
    refine ⟨fun member => ?_, merged.nodup⟩
    obtain ⟨list, there, inside⟩ := (merged.mem next).mp member
    obtain ⟨source, original, rfl⟩ := List.mem_map.mp there
    exact candidate.removed original inside
  · intro element
    rw [List.mem_cons, merged.mem]
    by_cases same : element = next
    · obtain ⟨list, member, head⟩ := candidate.head
      refine ⟨fun _ => ⟨list, member, ?_⟩, fun _ => Or.inl same⟩
      rw [same]
      exact List.mem_of_head? head
    · constructor
      · rintro (equal | ⟨list, there, inside⟩)
        · exact absurd equal same
        · obtain ⟨source, original, rfl⟩ := List.mem_map.mp there
          exact ⟨source, original, (mem_removeNext same).mp inside⟩
      · rintro ⟨list, member, inside⟩
        exact Or.inr ⟨_, List.mem_map_of_mem member,
          (mem_removeNext same).mpr inside⟩
  · intro list member
    apply sublist_cons_of_removeNext
    exact merged.sublist _ (List.mem_map_of_mem member)

/-- What a successful merge yields. -/
theorem mergeLists_merged {selection : Selection Element}
    (candidates : ∀ selected remaining next,
      selection.next selected remaining = some next →
        Candidate remaining next)
    {selected : List Element} {remaining : List (List Element)}
    {result : List Element}
    (merged : mergeLists selection selected remaining = some result) :
    ∃ order, result = selected.reverse ++ order ∧
      Merged remaining order := by
  induction selected, remaining using mergeLists.induct selection with
  | case1 selected remaining empty =>
      rw [mergeLists_of_empty empty] at merged
      exact ⟨[], by simpa using (Option.some.inj merged).symm,
        Merged.of_empty empty⟩
  | case2 selected remaining notEmpty failed =>
      rw [mergeLists_of_none notEmpty failed] at merged
      cases merged
  | case3 selected remaining notEmpty next found ih =>
      rw [mergeLists_of_some notEmpty found] at merged
      obtain ⟨order, shape, below⟩ := ih merged
      refine ⟨next :: order, ?_, below.cons (candidates _ _ _ found)⟩
      simpa using shape

/-! ## When a merge succeeds -/

omit [DecidableEq Element] in
/-- Lists that agree with some order have a candidate: the first element of
the order that is in any of them. -/
theorem exists_candidate {remaining : List (List Element)}
    {order : List Element} (nodup : order.Nodup)
    (sublists : ∀ list ∈ remaining, list.Sublist order)
    (nonempty : ∃ list ∈ remaining, list ≠ []) :
    ∃ next, Candidate remaining next := by
  induction order with
  | nil =>
      obtain ⟨list, member, notNil⟩ := nonempty
      exact absurd (List.sublist_nil.mp (sublists list member)) notNil
  | cons first order ih =>
      rw [List.nodup_cons] at nodup
      by_cases used : ∃ list ∈ remaining, first ∈ list
      · -- Wherever the first element of the order is, it is the head.
        have shape : ∀ list ∈ remaining,
            list.Sublist order ∨ ∃ tail, list = first :: tail ∧
              tail.Sublist order := by
          intro list member
          rcases List.sublist_cons_iff.mp (sublists list member) with
            below | ⟨tail, same, below⟩
          · exact Or.inl below
          · exact Or.inr ⟨tail, same, below⟩
        refine ⟨first, ?_, ?_⟩
        · obtain ⟨list, member, inside⟩ := used
          rcases shape list member with below | ⟨tail, rfl, -⟩
          · exact absurd (below.subset inside) nodup.1
          · exact ⟨_, member, rfl⟩
        · intro list member inside
          rcases shape list member with below | ⟨tail, rfl, below⟩
          · exact nodup.1 (below.subset (List.mem_of_mem_tail inside))
          · exact nodup.1 (below.subset inside)
      · apply ih nodup.2
        intro list member
        rcases List.sublist_cons_iff.mp (sublists list member) with
          below | ⟨tail, rfl, -⟩
        · exact below
        · exact absurd ⟨_, member, List.mem_cons_self ..⟩ used

omit [DecidableEq Element] in
theorem exists_ne_nil {remaining : List (List Element)}
    (notEmpty : ¬remaining.all List.isEmpty = true) :
    ∃ list ∈ remaining, list ≠ [] := by
  rw [List.all_eq_true] at notEmpty
  push Not at notEmpty
  obtain ⟨list, member, filled⟩ := notEmpty
  exact ⟨list, member, fun empty => filled (List.isEmpty_iff.mpr empty)⟩

theorem advance_sublist {remaining : List (List Element)}
    {order : List Element} (next : Element)
    (sublists : ∀ list ∈ remaining, list.Sublist order) :
    ∀ list ∈ advance next remaining, list.Sublist order := by
  intro list member
  obtain ⟨source, original, rfl⟩ := List.mem_map.mp member
  exact (removeNext_sublist next source).trans (sublists source original)

/-- A merge of lists that agree with some order succeeds, when its selection
finds something as long as there is a candidate and an invariant holds. -/
theorem mergeLists_isSome {selection : Selection Element}
    (invariant : List Element → List (List Element) → Prop)
    (progress : ∀ selected remaining, invariant selected remaining →
      (∃ next, Candidate remaining next) →
        ∃ next, selection.next selected remaining = some next)
    (step : ∀ selected remaining next, invariant selected remaining →
      selection.next selected remaining = some next →
        invariant (next :: selected) (advance next remaining))
    {selected : List Element} {remaining : List (List Element)}
    (start : invariant selected remaining) {order : List Element}
    (nodup : order.Nodup)
    (sublists : ∀ list ∈ remaining, list.Sublist order) :
    ∃ result, mergeLists selection selected remaining = some result := by
  induction selected, remaining using mergeLists.induct selection with
  | case1 selected remaining empty => exact ⟨_, mergeLists_of_empty empty⟩
  | case2 selected remaining notEmpty failed =>
      obtain ⟨next, found⟩ := progress selected remaining start
        (exists_candidate nodup sublists (exists_ne_nil notEmpty))
      exact absurd (failed.symm.trans found) (by simp)
  | case3 selected remaining notEmpty next found ih =>
      rw [mergeLists_of_some notEmpty found]
      exact ih (step selected remaining next start found)
        (advance_sublist next sublists)

/-- A merge that fails has reached lists that it is stuck with. -/
theorem mergeLists_eq_none {selection : Selection Element}
    (candidates : ∀ selected remaining next,
      selection.next selected remaining = some next →
        Candidate remaining next)
    (blocked : ∀ selected remaining, ¬remaining.all List.isEmpty = true →
      selection.next selected remaining = none → Stuck remaining)
    {selected : List Element} {remaining : List (List Element)}
    (failed : mergeLists selection selected remaining = none) :
    ∃ later, Leads remaining later ∧ Stuck later := by
  induction selected, remaining using mergeLists.induct selection with
  | case1 selected remaining empty =>
      rw [mergeLists_of_empty empty] at failed
      cases failed
  | case2 selected remaining notEmpty nothing =>
      exact ⟨remaining, Relation.ReflTransGen.refl,
        blocked selected remaining notEmpty nothing⟩
  | case3 selected remaining notEmpty next found ih =>
      rw [mergeLists_of_some notEmpty found] at failed
      obtain ⟨later, leads, stuck⟩ := ih failed
      exact ⟨later, leads.head ⟨next, candidates _ _ _ found, rfl⟩, stuck⟩

/-- Lists that lead to where a merge is stuck agree with no order. -/
theorem Stuck.no_order {remaining later : List (List Element)}
    (stuck : Stuck later) (leads : Leads remaining later)
    {order : List Element} (nodup : order.Nodup) :
    ¬∀ list ∈ remaining, list.Sublist order := by
  induction leads using Relation.ReflTransGen.head_induction_on with
  | refl =>
      intro sublists
      obtain ⟨next, candidate⟩ :=
        exists_candidate nodup sublists stuck.1
      exact stuck.not_candidate candidate
  | head moved _ ih =>
      obtain ⟨next, -, rfl⟩ := moved
      exact fun sublists => ih (advance_sublist next sublists)

end OpenDylan.Lib.Merging
