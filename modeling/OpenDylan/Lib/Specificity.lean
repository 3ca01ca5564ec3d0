import Mathlib.Data.List.Perm.Basic
import Mathlib.Data.List.Nodup

/-!
# Sorting by a partial comparison

Elements are inserted one by one into an ordered list; what cannot be ordered
is moved, with everything after it, to a set of ambiguous elements.  The
comparison need not be transitive.  When it is antisymmetric and never finds
two elements equal, the result does not depend on the order of insertion: the
ordered part is the longest sequence of elements each of which precedes all
that are left.
-/

namespace OpenDylan.Lib.Specificity

/-! ## The algorithm -/

/-- The outcome of a comparison. -/
inductive Order where
  | less
  | greater
  | equal
  | unordered
deriving DecidableEq

/-- The outcome with the operands exchanged. -/
def Order.swap : Order → Order
  | .less => .greater
  | .greater => .less
  | .equal => .equal
  | .unordered => .unordered

variable {Element : Type} (compare : Element → Element → Option Order)

/-- Whether an element comes before all of a list; `none` when a comparison
fails. -/
def precedesAll (element : Element) : List Element → Option Bool
  | [] => some true
  | other :: others =>
      match compare element other with
      | none => none
      | some .less => precedesAll element others
      | some _ => some false

/-- An element and all that follow its place become ambiguous. -/
def makeAmbiguous (element : Element) (following ambiguous : List Element) :
    List Element × List Element :=
  ([], element :: (following.reverse ++ ambiguous))

/-- Put an element in front of the rest if it comes before all of that. -/
def checkSubsequentAmbiguities (element : Element)
    (following ambiguous : List Element) :
    Option (List Element × List Element) :=
  match precedesAll compare element following with
  | none => none
  | some false => some (makeAmbiguous element following ambiguous)
  | some true =>
      match precedesAll compare element ambiguous with
      | none => none
      | some false => some (makeAmbiguous element following ambiguous)
      | some true => some (element :: following, ambiguous)

/-- Insert an element into the ordered part; a duplicate is dropped. -/
def insert (element : Element) (ambiguous : List Element) :
    List Element → Option (List Element × List Element)
  | [] => checkSubsequentAmbiguities compare element [] ambiguous
  | other :: others =>
      match compare element other with
      | none => none
      | some .less =>
          checkSubsequentAmbiguities compare element (other :: others)
            ambiguous
      | some .greater =>
          (insert element ambiguous others).map
            fun result => (other :: result.1, result.2)
      | some .equal => some (other :: others, ambiguous)
      | some .unordered =>
          some (makeAmbiguous element (other :: others) ambiguous)

/-- Insert the elements of a list one by one. -/
def sortFrom : List Element → List Element × List Element →
    Option (List Element × List Element)
  | [], parts => some parts
  | element :: elements, parts =>
      match insert compare element parts.2 parts.1 with
      | none => none
      | some parts => sortFrom elements parts

/-- The ordered and the ambiguous elements of a list. -/
def sort (elements : List Element) : Option (List Element × List Element) :=
  sortFrom compare elements ([], [])

/-! ## The comparisons that are made -/

/-- The comparison of distinct elements answers, is antisymmetric and finds
no two of them equal. -/
structure Comparable (elements : List Element) : Prop where
  answers : ∀ left ∈ elements, ∀ right ∈ elements, left ≠ right →
    ∃ order, compare left right = some order ∧ order ≠ .equal
  swap : ∀ left ∈ elements, ∀ right ∈ elements,
    compare right left = (compare left right).map Order.swap

variable {compare}

theorem Comparable.mono {elements fewer : List Element}
    (comparable : Comparable compare elements)
    (subset : ∀ element ∈ fewer, element ∈ elements) :
    Comparable compare fewer := by
  constructor
  · exact fun left first right second =>
      comparable.answers left (subset left first) right (subset right second)
  · exact fun left first right second =>
      comparable.swap left (subset left first) right (subset right second)

/-- One element comes before another. -/
def Precedes (compare : Element → Element → Option Order)
    (left right : Element) : Prop :=
  compare left right = some .less

theorem Comparable.asymm {elements : List Element}
    (comparable : Comparable compare elements) {left right : Element}
    (first : left ∈ elements) (second : right ∈ elements)
    (before : Precedes compare left right) :
    ¬Precedes compare right left := by
  intro after
  have swapped := comparable.swap left first right second
  rw [before, after] at swapped
  simp [Order.swap] at swapped

theorem Comparable.precedes_of_greater {elements : List Element}
    (comparable : Comparable compare elements) {left right : Element}
    (first : left ∈ elements) (second : right ∈ elements)
    (after : compare left right = some .greater) :
    Precedes compare right left := by
  rw [Precedes, comparable.swap left first right second, after]
  rfl

theorem Comparable.precedesAll_eq {elements : List Element}
    (comparable : Comparable compare elements) {element : Element}
    {others : List Element} (member : element ∈ elements)
    (subset : ∀ other ∈ others, other ∈ elements)
    (distinct : ∀ other ∈ others, element ≠ other) :
    ∃ answer, precedesAll compare element others = some answer ∧
      (answer = true ↔ ∀ other ∈ others, Precedes compare element other) := by
  induction others with
  | nil => exact ⟨true, rfl, by simp⟩
  | cons other others ih =>
      obtain ⟨order, compared, -⟩ := comparable.answers element member other
        (subset other (List.mem_cons_self ..))
        (distinct other (List.mem_cons_self ..))
      obtain ⟨answer, rest, meaning⟩ := ih
        (fun later inside => subset later (List.mem_cons_of_mem _ inside))
        (fun later inside => distinct later (List.mem_cons_of_mem _ inside))
      rw [precedesAll, compared]
      cases order with
      | less =>
          refine ⟨answer, rest, ?_⟩
          rw [List.forall_mem_cons, meaning]
          exact ⟨fun all => ⟨compared, all⟩, fun all => all.2⟩
      | greater =>
          refine ⟨false, rfl, by simp, ?_⟩
          intro all
          have first := all other (List.mem_cons_self ..)
          simp [Precedes, compared] at first
      | equal =>
          refine ⟨false, rfl, by simp, ?_⟩
          intro all
          have first := all other (List.mem_cons_self ..)
          simp [Precedes, compared] at first
      | unordered =>
          refine ⟨false, rfl, by simp, ?_⟩
          intro all
          have first := all other (List.mem_cons_self ..)
          simp [Precedes, compared] at first

/-! ## What the result is -/

/-- Every ordered element comes before all that follow it and all ambiguous
ones; no ambiguous element comes before all the others. -/
structure Ranked (compare : Element → Element → Option Order)
    (ordered ambiguous : List Element) : Prop where
  chain : ordered.Pairwise (Precedes compare)
  first : ∀ element ∈ ordered, ∀ other ∈ ambiguous,
    Precedes compare element other
  blocked : ∀ element ∈ ambiguous, ∃ other ∈ ambiguous,
    other ≠ element ∧ ¬Precedes compare element other

theorem Ranked.tail {head : Element} {ordered ambiguous : List Element}
    (ranked : Ranked compare (head :: ordered) ambiguous) :
    Ranked compare ordered ambiguous := by
  constructor
  · exact (List.pairwise_cons.mp ranked.chain).2
  · exact fun element member =>
      ranked.first element (List.mem_cons_of_mem _ member)
  · exact ranked.blocked

/-- An element at the head of the ordered part comes before all others. -/
theorem Ranked.head_precedes {head : Element}
    {ordered ambiguous : List Element}
    (ranked : Ranked compare (head :: ordered) ambiguous) :
    ∀ other ∈ ordered ++ ambiguous, Precedes compare head other := by
  intro other member
  rcases List.mem_append.mp member with later | unordered
  · exact (List.pairwise_cons.mp ranked.chain).1 other later
  · exact ranked.first head (List.mem_cons_self ..) other unordered

/-- The result is determined by the elements. -/
theorem Ranked.unique {ordered ambiguous ordered' ambiguous' : List Element}
    (ranked : Ranked compare ordered ambiguous)
    (ranked' : Ranked compare ordered' ambiguous')
    (perm : (ordered ++ ambiguous).Perm (ordered' ++ ambiguous'))
    (comparable : Comparable compare (ordered ++ ambiguous)) :
    ordered = ordered' ∧ ambiguous.Perm ambiguous' := by
  induction ordered generalizing ordered' with
  | nil =>
      cases ordered' with
      | nil => exact ⟨rfl, perm⟩
      | cons head' tail' =>
          -- The head of the other result would have to be blocked.
          exfalso
          have inside : head' ∈ ambiguous :=
            perm.symm.subset (List.mem_cons_self ..)
          obtain ⟨other, member, different, blocked⟩ :=
            ranked.blocked head' inside
          have there := perm.subset member
          rcases List.mem_cons.mp there with same | later
          · exact different same
          · exact blocked (ranked'.head_precedes other later)
  | cons head tail ih =>
      cases ordered' with
      | nil =>
          exfalso
          have inside : head ∈ ambiguous' :=
            perm.subset (List.mem_cons_self ..)
          obtain ⟨other, member, different, blocked⟩ :=
            ranked'.blocked head inside
          have there := perm.symm.subset member
          rcases List.mem_cons.mp there with same | later
          · exact different same
          · exact blocked (ranked.head_precedes other later)
      | cons head' tail' =>
          have same : head = head' := by
            by_contra different
            have there : head' ∈ head :: (tail ++ ambiguous) :=
              perm.symm.subset (List.mem_cons_self ..)
            have here : head ∈ head' :: (tail' ++ ambiguous') :=
              perm.subset (List.mem_cons_self ..)
            have before := ranked.head_precedes head'
              ((List.mem_cons.mp there).resolve_left (Ne.symm different))
            have after := ranked'.head_precedes head
              ((List.mem_cons.mp here).resolve_left different)
            exact comparable.asymm (List.mem_cons_self ..) there before after
          subst same
          have rest := ih ranked.tail ranked'.tail
            (List.Perm.cons_inv perm)
            (comparable.mono fun element member =>
              List.mem_cons_of_mem _ member)
          exact ⟨by rw [rest.1], rest.2⟩

/-- Moving everything from some place on to the ambiguous elements: the new
element does not come before all of it and the element at the place does not
come before the new one. -/
theorem Ranked.makeAmbiguous {element : Element}
    {following ambiguous : List Element}
    (ranked : Ranked compare following ambiguous)
    (comparable : Comparable compare (following ++ ambiguous))
    (fresh : element ∉ following ++ ambiguous)
    (notFirst : ∃ other ∈ following ++ ambiguous,
      ¬Precedes compare element other)
    (head : ∀ other, following.head? = some other →
      ¬Precedes compare other element) :
    Ranked compare (makeAmbiguous element following ambiguous).1
      (Specificity.makeAmbiguous element following ambiguous).2 := by
  have inside : ∀ other, other ∈ following ++ ambiguous →
      other ∈ element :: (following.reverse ++ ambiguous) := by
    intro other member
    simp only [List.mem_append, List.mem_cons, List.mem_reverse] at member ⊢
    exact Or.inr member
  refine ⟨List.Pairwise.nil, by simp [Specificity.makeAmbiguous], ?_⟩
  intro blocked member
  simp only [Specificity.makeAmbiguous, List.mem_cons, List.mem_append,
    List.mem_reverse] at member
  rcases member with rfl | later | unordered
  · obtain ⟨other, there, stays⟩ := notFirst
    refine ⟨other, inside other there, ?_, stays⟩
    rintro rfl
    exact fresh there
  · cases following with
    | nil => simp at later
    | cons first rest =>
        rcases List.mem_cons.mp later with rfl | later
        · refine ⟨element, List.mem_cons_self .., ?_, head _ rfl⟩
          rintro rfl
          exact fresh (List.mem_cons_self ..)
        · have before := (List.pairwise_cons.mp ranked.chain).1 blocked later
          have blockedIn : blocked ∈ (first :: rest) ++ ambiguous :=
            List.mem_cons_of_mem _ (List.mem_append_left _ later)
          have asymm := comparable.asymm (List.mem_cons_self ..) blockedIn
            before
          refine ⟨first, inside first (List.mem_cons_self ..), ?_, asymm⟩
          rintro rfl
          exact asymm before
  · obtain ⟨other, there, different, stays⟩ :=
      ranked.blocked blocked unordered
    exact ⟨other, inside other (List.mem_append_right _ there), different,
      stays⟩

theorem makeAmbiguous_perm (element : Element)
    (following ambiguous : List Element) :
    ((makeAmbiguous element following ambiguous).1 ++
      (makeAmbiguous element following ambiguous).2).Perm
        (element :: (following ++ ambiguous)) := by
  apply List.Perm.cons
  exact List.Perm.append_right _ (List.reverse_perm following)

/-- Putting an element in front of the rest, or giving up on the rest. -/
theorem Ranked.checkSubsequentAmbiguities {element : Element}
    {following ambiguous : List Element}
    (ranked : Ranked compare following ambiguous)
    (comparable : Comparable compare (element :: (following ++ ambiguous)))
    (fresh : element ∉ following ++ ambiguous)
    (head : ∀ other, following.head? = some other →
      ¬Precedes compare other element) :
    ∃ parts, checkSubsequentAmbiguities compare element following ambiguous =
        some parts ∧ Ranked compare parts.1 parts.2 ∧
      (parts.1 ++ parts.2).Perm (element :: (following ++ ambiguous)) := by
  have inner := comparable.mono fun other member =>
    List.mem_cons_of_mem element member
  obtain ⟨afterAnswer, afterEq, afterMeaning⟩ := comparable.precedesAll_eq
    (List.mem_cons_self ..)
    (fun other (member : other ∈ following) =>
      List.mem_cons_of_mem _ (List.mem_append_left _ member))
    (fun other member same =>
      fresh (same ▸ List.mem_append_left _ member))
  obtain ⟨setAnswer, setEq, setMeaning⟩ := comparable.precedesAll_eq
    (List.mem_cons_self ..)
    (fun other (member : other ∈ ambiguous) =>
      List.mem_cons_of_mem _ (List.mem_append_right _ member))
    (fun other member same =>
      fresh (same ▸ List.mem_append_right _ member))
  rw [Specificity.checkSubsequentAmbiguities, afterEq]
  cases afterAnswer with
  | false =>
      refine ⟨_, rfl, ranked.makeAmbiguous inner fresh ?_ head,
        makeAmbiguous_perm _ _ _⟩
      have notAll : ¬∀ other ∈ following, Precedes compare element other :=
        fun all => by simpa using afterMeaning.mpr all
      simp only [not_forall] at notAll
      obtain ⟨other, member, stays⟩ := notAll
      exact ⟨other, List.mem_append_left _ member, stays⟩
  | true =>
      rw [setEq]
      cases setAnswer with
      | false =>
          refine ⟨_, rfl, ranked.makeAmbiguous inner fresh ?_ head,
            makeAmbiguous_perm _ _ _⟩
          have notAll :
              ¬∀ other ∈ ambiguous, Precedes compare element other :=
            fun all => by simpa using setMeaning.mpr all
          simp only [not_forall] at notAll
          obtain ⟨other, member, stays⟩ := notAll
          exact ⟨other, List.mem_append_right _ member, stays⟩
      | true =>
          refine ⟨_, rfl, ⟨?_, ?_, ranked.blocked⟩, List.Perm.refl _⟩
          · exact List.pairwise_cons.mpr
              ⟨afterMeaning.mp rfl, ranked.chain⟩
          · intro other member
            rcases List.mem_cons.mp member with rfl | member
            · exact setMeaning.mp rfl
            · exact ranked.first other member

/-- Insertion keeps the result ranked. -/
theorem Ranked.insert {element : Element} {ordered ambiguous : List Element}
    (ranked : Ranked compare ordered ambiguous)
    (comparable : Comparable compare (element :: (ordered ++ ambiguous)))
    (fresh : element ∉ ordered ++ ambiguous) :
    ∃ parts, insert compare element ambiguous ordered = some parts ∧
      Ranked compare parts.1 parts.2 ∧
        (parts.1 ++ parts.2).Perm (element :: (ordered ++ ambiguous)) := by
  induction ordered with
  | nil => exact ranked.checkSubsequentAmbiguities comparable fresh (by simp)
  | cons first rest ih =>
      have firstIn : first ∈ element :: ((first :: rest) ++ ambiguous) :=
        List.mem_cons_of_mem _ (List.mem_cons_self ..)
      have different : element ≠ first := by
        rintro rfl
        exact fresh (List.mem_cons_self ..)
      obtain ⟨order, compared, unequal⟩ := comparable.answers element
        (List.mem_cons_self ..) first firstIn different
      have inner := comparable.mono fun other member =>
        List.mem_cons_of_mem element member
      rw [Specificity.insert, compared]
      cases order with
      | less =>
          refine ranked.checkSubsequentAmbiguities comparable fresh ?_
          rintro other ⟨⟩
          exact comparable.asymm (List.mem_cons_self ..) firstIn compared
      | greater =>
          obtain ⟨parts, inserted, restRanked, perm⟩ := ih ranked.tail
            (comparable.mono (by
              intro other member
              rcases List.mem_cons.mp member with rfl | member
              · exact List.mem_cons_self ..
              · exact List.mem_cons_of_mem _ (List.mem_cons_of_mem _ member)))
            (fun member => fresh (List.mem_cons_of_mem _ member))
          refine ⟨_, by rw [inserted, Option.map_some], ?_, ?_⟩
          · have before : ∀ other ∈ parts.1 ++ parts.2,
                Precedes compare first other := by
              intro other member
              rcases List.mem_cons.mp (perm.subset member) with rfl | member
              · exact comparable.precedes_of_greater (List.mem_cons_self ..)
                  firstIn compared
              · exact ranked.head_precedes other member
            refine ⟨?_, ?_, restRanked.blocked⟩
            · exact List.pairwise_cons.mpr ⟨fun other member =>
                before other (List.mem_append_left _ member),
                restRanked.chain⟩
            · intro other member
              rcases List.mem_cons.mp member with rfl | member
              · exact fun later there =>
                  before later (List.mem_append_right _ there)
              · exact restRanked.first other member
          · exact (List.Perm.cons first perm).trans
              (List.Perm.swap element first _)
      | equal => exact absurd rfl unequal
      | unordered =>
          refine ⟨_, rfl, ranked.makeAmbiguous inner fresh ?_ ?_,
            makeAmbiguous_perm _ _ _⟩
          · refine ⟨first, List.mem_cons_self .., ?_⟩
            simp [Precedes, compared]
          · rintro other ⟨⟩
            have swapped := comparable.swap element (List.mem_cons_self ..)
              first firstIn
            rw [compared] at swapped
            simp [Precedes, swapped, Order.swap]

theorem Ranked.sortFrom {elements ordered ambiguous : List Element}
    (ranked : Ranked compare ordered ambiguous)
    (comparable : Comparable compare
      (elements ++ (ordered ++ ambiguous)))
    (distinct : (elements ++ (ordered ++ ambiguous)).Nodup) :
    ∃ parts, sortFrom compare elements (ordered, ambiguous) = some parts ∧
      Ranked compare parts.1 parts.2 ∧
        (parts.1 ++ parts.2).Perm (elements ++ (ordered ++ ambiguous)) := by
  induction elements generalizing ordered ambiguous with
  | nil => exact ⟨_, rfl, ranked, List.Perm.refl _⟩
  | cons element elements ih =>
      have fresh : element ∉ ordered ++ ambiguous := fun member =>
        (List.nodup_cons.mp distinct).1 (List.mem_append_right _ member)
      obtain ⟨parts, inserted, partsRanked, perm⟩ := ranked.insert
        (comparable.mono (by
          intro other member
          rcases List.mem_cons.mp member with rfl | member
          · exact List.mem_cons_self ..
          · exact List.mem_cons_of_mem _ (List.mem_append_right _ member)))
        fresh
      have moved : (elements ++ (parts.1 ++ parts.2)).Perm
          ((element :: elements) ++ (ordered ++ ambiguous)) :=
        (List.Perm.append_left elements perm).trans List.perm_middle
      obtain ⟨result, sorted, resultRanked, resultPerm⟩ := ih partsRanked
        (comparable.mono fun other member => moved.subset member)
        (moved.nodup_iff.mpr distinct)
      refine ⟨result, ?_, resultRanked, resultPerm.trans moved⟩
      rw [Specificity.sortFrom, inserted]
      exact sorted

/-- Sorting ranks the elements. -/
theorem sort_ranked {elements : List Element}
    (comparable : Comparable compare elements) (distinct : elements.Nodup) :
    ∃ parts, sort compare elements = some parts ∧
      Ranked compare parts.1 parts.2 ∧ (parts.1 ++ parts.2).Perm elements := by
  have empty : Ranked compare ([] : List Element) [] :=
    ⟨List.Pairwise.nil, by simp, by simp⟩
  have all : Comparable compare (elements ++ ([] ++ [])) := by
    simpa using comparable
  have sorted := empty.sortFrom all (by simpa using distinct)
  simpa [sort] using sorted

/-- The result does not depend on the order of insertion. -/
theorem sort_perm {elements others : List Element}
    (comparable : Comparable compare elements) (distinct : elements.Nodup)
    (perm : elements.Perm others) :
    ∃ parts parts', sort compare elements = some parts ∧
      sort compare others = some parts' ∧ parts.1 = parts'.1 ∧
        parts.2.Perm parts'.2 := by
  obtain ⟨parts, sorted, ranked, all⟩ := sort_ranked comparable distinct
  obtain ⟨parts', sorted', ranked', all'⟩ := sort_ranked
    (comparable.mono fun element member => perm.symm.subset member)
    (perm.nodup_iff.mp distinct)
  have same := ranked.unique ranked'
    (all.trans (perm.trans all'.symm))
    (comparable.mono fun element member => all.subset member)
  exact ⟨parts, parts', sorted, sorted', same.1, same.2⟩

/-! ## When sorting succeeds -/

/-- Sorting answers with the ranked elements, whatever order they come in. -/
structure Sorts (compare : Element → Element → Option Order)
    (elements ordered ambiguous : List Element) : Prop where
  answer : sort compare elements = some (ordered, ambiguous)
  perm : (ordered ++ ambiguous).Perm elements
  chain : ordered.Pairwise (Precedes compare)
  first : ∀ element ∈ ordered, ∀ other ∈ ambiguous,
    Precedes compare element other
  unordered : ∀ element ∈ ambiguous,
    ¬∀ other ∈ ambiguous, other ≠ element → Precedes compare element other
  invariant : ∀ others : List Element, others.Perm elements →
    ∃ ambiguous', sort compare others = some (ordered, ambiguous') ∧
      ambiguous'.Perm ambiguous

theorem Comparable.sorts {elements : List Element}
    (comparable : Comparable compare elements) (distinct : elements.Nodup) :
    ∃ ordered ambiguous, Sorts compare elements ordered ambiguous := by
  obtain ⟨⟨ordered, ambiguous⟩, sorted, ranked, perm⟩ :=
    sort_ranked comparable distinct
  refine ⟨ordered, ambiguous, sorted, perm, ranked.chain, ranked.first,
    ?_, ?_⟩
  · intro element member all
    obtain ⟨other, there, different, blocked⟩ := ranked.blocked element member
    exact blocked (all other there different)
  · intro others reordered
    obtain ⟨parts, parts', first, second, same, set⟩ :=
      sort_perm comparable distinct reordered.symm
    have equal : (ordered, ambiguous) = parts :=
      Option.some.inj (sorted.symm.trans first)
    subst equal
    refine ⟨parts'.2, ?_, set.symm⟩
    rw [second, show ordered = parts'.1 from same]

/-- The second element is compared with the first. -/
theorem sort_compares {first second : Element} {rest : List Element}
    {parts : List Element × List Element}
    (sorted : sort compare (first :: second :: rest) = some parts) :
    (compare second first).isSome := by
  cases compared : compare second first with
  | none =>
      simp [sort, sortFrom, insert, checkSubsequentAmbiguities, precedesAll,
        compared] at sorted
  | some order => rfl

/-- Sorting succeeds in every order of insertion just when all elements can
be compared. -/
theorem sorts_iff {elements : List Element}
    (swap : ∀ left ∈ elements, ∀ right ∈ elements,
      compare right left = (compare left right).map Order.swap)
    (refl : ∀ element ∈ elements, compare element element = some .equal)
    (unequal : elements.Pairwise fun left right =>
      compare left right ≠ some .equal) :
    (∃ ordered ambiguous, Sorts compare elements ordered ambiguous) ↔
      ∀ left ∈ elements, ∀ right ∈ elements,
        (compare left right).isSome := by
  have distinct : elements.Nodup := by
    apply List.Pairwise.imp_of_mem _ unequal
    rintro left right member - different rfl
    exact different (refl left member)
  have apart : ∀ left ∈ elements, ∀ right ∈ elements, left ≠ right →
      compare left right ≠ some .equal := by
    intro left first right second
    apply List.Pairwise.forall_of_forall_of_flip
      (R := fun left right => left ≠ right →
        compare left right ≠ some .equal) _ _ _ first second
    · exact fun _ _ different => absurd rfl different
    · apply List.Pairwise.imp _ unequal
      intro left right unequal _
      exact unequal
    · apply List.Pairwise.imp_of_mem _ unequal
      intro left right first second unequal _ equal
      have swapped := swap right second left first
      rw [equal] at swapped
      exact unequal swapped
  constructor
  · rintro ⟨ordered, ambiguous, sorts⟩ left first right second
    by_cases same : left = right
    · subst same
      rw [refl left first]
      rfl
    · -- Insert these two before the others.
      classical
      have later : left ∈ elements.erase right :=
        (List.mem_erase_of_ne same).mpr first
      have front : (right :: left :: (elements.erase right).erase left).Perm
          elements :=
        ((List.perm_cons_erase later).symm.cons right).trans
          (List.perm_cons_erase second).symm
      obtain ⟨ambiguous', sorted, -⟩ := sorts.invariant _ front
      exact sort_compares sorted
  · intro answers
    apply Comparable.sorts _ distinct
    constructor
    · intro left first right second different
      obtain ⟨order, compared⟩ := Option.isSome_iff_exists.mp
        (answers left first right second)
      refine ⟨order, compared, ?_⟩
      rintro rfl
      exact apart left first right second different compared
    · exact swap

end OpenDylan.Lib.Specificity
