import OpenDylan.Lib.Merging

/-!
# Class precedence lists

`compute-implementation-class-precedence-list` merges the precedence lists of
the direct superclasses of a class and the list of these themselves, by the C3
rule.  It then merges the same lists by the older rule of the language as well
and warns when the results differ.

Implementation classes are identified with their classes.
-/

namespace OpenDylan.Runtime.ClassPrecedence

open OpenDylan.Lib.Merging

variable {Class : Type} [DecidableEq Class]

/-! ## Selecting the next class -/

/-- The local method `candidate` -/
def candidate (remaining : List (List Class)) (s : Class) : Option Class :=
  if remaining.any fun l => s ∈ l.tail then none else some s

/-- The local method `candidate-at-head` -/
def candidateAtHead (remaining : List (List Class)) :
    List Class → Option Class
  | [] => none
  | head :: _ => candidate remaining head

theorem candidateAtHead_eq_some {remaining : List (List Class)}
    {l : List Class} {s : Class}
    (found : candidateAtHead remaining l = some s) :
    l.head? = some s ∧ ∀ other ∈ remaining, s ∉ other.tail := by
  cases l with
  | nil => cases found
  | cons head tail =>
      rw [candidateAtHead, candidate] at found
      split at found
      · cases found
      · next free =>
          cases found
          refine ⟨rfl, fun other member inside => free ?_⟩
          rw [List.any_eq_true]
          exact ⟨other, member, by simpa using inside⟩

/-- The C3 rule: the first head that is in no tail. -/
def c3Selection : Selection Class where
  next _ remaining := remaining.findSome? (candidateAtHead remaining)
  head found := by
    obtain ⟨l, member, isHead⟩ := List.exists_of_findSome?_eq_some found
    exact ⟨l, member, (candidateAtHead_eq_some isHead).1⟩

/-- The local method `unconstrained-class` -/
def unconstrainedClass (remaining : List (List Class)) (s : Class) :
    Option Class :=
  if (remaining.any fun l => l.head? = some s) &&
      remaining.all fun l => l.head? = some s || s ∉ l.tail then
    some s
  else
    none

/-- The older rule: a direct superclass of the most recently selected class
that has any which is unconstrained. -/
def oldSelection (directSuperclasses : Class → List Class) :
    Selection Class where
  next selected remaining := selected.findSome? fun c =>
    (directSuperclasses c).findSome? (unconstrainedClass remaining)
  head found := by
    obtain ⟨c, -, inner⟩ := List.exists_of_findSome?_eq_some found
    obtain ⟨s, -, unconstrained⟩ := List.exists_of_findSome?_eq_some inner
    rw [unconstrainedClass] at unconstrained
    split at unconstrained
    · next free =>
        cases unconstrained
        rw [Bool.and_eq_true, List.any_eq_true] at free
        obtain ⟨l, member, head⟩ := free.1
        exact ⟨l, member, by simpa using head⟩
    · cases unconstrained

/-! ## The class table -/

/-- The classes created so far with their direct superclasses and their
precedence lists. -/
structure ClassTable (Class : Type) where
  created : List Class
  directSuperclasses : Class → List Class
  allSuperclasses : Class → List Class

/-- The lists that are merged for a class with some direct superclasses. -/
def ClassTable.lists (table : ClassTable Class)
    (supers : List Class) : List (List Class) :=
  supers.map table.allSuperclasses ++ [supers]

/-- The format string of `<inconsistent-precedence-class-error>`. -/
def inconsistentPrecedenceGraph : String :=
  "Inconsistent precedence graph"

/-- A precedence list, and whether a warning says that the older rule yields
another one. -/
structure Linearization (Class : Type) where
  precedenceList : List Class
  differs : Bool
deriving DecidableEq

/-- `compute-implementation-class-precedence-list` of a class with some direct
superclasses. -/
def computeImplementationClassPrecedenceList (table : ClassTable Class)
    (c : Class) (supers : List Class) :
    Except String (Linearization Class) :=
  match mergeLists c3Selection [c] (table.lists supers) with
  | none => .error inconsistentPrecedenceGraph
  | some c3 =>
      match mergeLists
          (oldSelection (Function.update table.directSuperclasses c supers))
          [c] (supers :: supers.map table.allSuperclasses) with
      | none => .error inconsistentPrecedenceGraph
      | some old =>
          .ok { precedenceList := c3
                differs := !(c3.zip old).all fun pair => pair.1 = pair.2 }

/-- The table with a new class. -/
def ClassTable.create (table : ClassTable Class) (c : Class)
    (supers precedenceList : List Class) : ClassTable Class where
  created := c :: table.created
  directSuperclasses := Function.update table.directSuperclasses c supers
  allSuperclasses := Function.update table.allSuperclasses c precedenceList

/-- The tables that creating classes one after the other leads to. -/
inductive Hierarchy : ClassTable Class → Prop where
  | empty : Hierarchy
      { created := []
        directSuperclasses := fun _ => []
        allSuperclasses := fun _ => [] }
  | create {table : ClassTable Class} {c : Class} {supers : List Class}
      {linearization : Linearization Class} (earlier : Hierarchy table)
      (fresh : c ∉ table.created)
      (known : ∀ s ∈ supers, s ∈ table.created)
      (computed : computeImplementationClassPrecedenceList table c supers =
        .ok linearization) :
      Hierarchy (table.create c supers linearization.precedenceList)

/-- A class is another one, or inherits from it. -/
abbrev ClassTable.Inherits (table : ClassTable Class) :
    Class → Class → Prop :=
  Relation.ReflTransGen fun c s => s ∈ table.directSuperclasses c

/-! ## The invariant of the table -/

/-- The precedence lists are linearizations of the superclasses. -/
structure Linearized (table : ClassTable Class) : Prop where
  closed : ∀ c ∈ table.created, ∀ s ∈ table.directSuperclasses c,
    s ∈ table.created
  irreflexive : ∀ c ∈ table.created, c ∉ table.directSuperclasses c
  head : ∀ c ∈ table.created, ∃ rest, table.allSuperclasses c = c :: rest
  nodup : ∀ c ∈ table.created, (table.allSuperclasses c).Nodup
  mem : ∀ c ∈ table.created, ∀ s,
    s ∈ table.allSuperclasses c ↔ table.Inherits c s
  localOrder : ∀ c ∈ table.created,
    (table.directSuperclasses c).Sublist (table.allSuperclasses c)
  monotonic : ∀ c ∈ table.created, ∀ s ∈ table.allSuperclasses c,
    (table.allSuperclasses s).Sublist (table.allSuperclasses c)

section Invariant

variable {table : ClassTable Class}

omit [DecidableEq Class] in
theorem Linearized.created_of_inherits (linearized : Linearized table)
    {c s : Class} (member : c ∈ table.created) (inherits : table.Inherits c s) :
    s ∈ table.created := by
  induction inherits with
  | refl => exact member
  | tail _ direct ih => exact linearized.closed _ ih _ direct

omit [DecidableEq Class] in
theorem Linearized.created_of_mem (linearized : Linearized table)
    {c s : Class} (member : c ∈ table.created)
    (superclass : s ∈ table.allSuperclasses c) : s ∈ table.created :=
  linearized.created_of_inherits member
    ((linearized.mem c member s).mp superclass)

/-- A new class changes nothing for the others. -/
theorem Linearized.inherits_create (linearized : Linearized table)
    {c : Class} (fresh : c ∉ table.created) (supers precedenceList : List Class)
    {d s : Class} (member : d ∈ table.created) :
    (table.create c supers precedenceList).Inherits d s ↔
      table.Inherits d s := by
  have same : ∀ {d : Class}, d ∈ table.created →
      (table.create c supers precedenceList).directSuperclasses d =
        table.directSuperclasses d := by
    intro d there
    apply Function.update_of_ne
    rintro rfl
    exact fresh there
  constructor
  · intro inherits
    induction inherits with
    | refl => exact Relation.ReflTransGen.refl
    | tail _ direct ih =>
        rw [same (linearized.created_of_inherits member ih)] at direct
        exact ih.tail direct
  · intro inherits
    induction inherits with
    | refl => exact Relation.ReflTransGen.refl
    | tail before direct ih =>
        apply ih.tail
        rwa [same (linearized.created_of_inherits member before)]

/-- A new class inherits from itself and from what its direct superclasses
inherit from. -/
theorem Linearized.inherits_new (linearized : Linearized table)
    {c : Class} (fresh : c ∉ table.created) {supers : List Class}
    (precedenceList : List Class) (known : ∀ s ∈ supers, s ∈ table.created)
    {s : Class} :
    (table.create c supers precedenceList).Inherits c s ↔
      s = c ∨ ∃ super ∈ supers, s ∈ table.allSuperclasses super := by
  have direct : (table.create c supers precedenceList).directSuperclasses c =
      supers := Function.update_self ..
  constructor
  · intro inherits
    rcases Relation.ReflTransGen.cases_head inherits with
      same | ⟨super, isDirect, above⟩
    · exact Or.inl same.symm
    · rw [direct] at isDirect
      refine Or.inr ⟨super, isDirect, ?_⟩
      rw [linearized.mem super (known super isDirect)]
      exact (linearized.inherits_create fresh supers precedenceList
        (known super isDirect)).mp above
  · rintro (rfl | ⟨super, isDirect, above⟩)
    · exact Relation.ReflTransGen.refl
    · rw [linearized.mem super (known super isDirect)] at above
      refine Relation.ReflTransGen.head (direct ▸ isDirect) ?_
      exact (linearized.inherits_create fresh supers precedenceList
        (known super isDirect)).mpr above

end Invariant

/-! ## The C3 rule -/

theorem c3Selection_candidate {selected : List Class}
    {remaining : List (List Class)} {next : Class}
    (found : c3Selection.next selected remaining = some next) :
    Candidate remaining next := by
  obtain ⟨l, member, isHead⟩ := List.exists_of_findSome?_eq_some found
  obtain ⟨head, free⟩ := candidateAtHead_eq_some isHead
  exact ⟨⟨l, member, head⟩, free⟩

/-- The C3 rule finds nothing only where every head is in a tail. -/
theorem c3Selection_stuck {selected : List Class}
    {remaining : List (List Class)}
    (notEmpty : ¬remaining.all List.isEmpty = true)
    (failed : c3Selection.next selected remaining = none) :
    Stuck remaining := by
  refine ⟨exists_ne_nil notEmpty, ?_⟩
  intro l member s head
  have nothing := List.findSome?_eq_none_iff.mp failed l member
  cases l with
  | nil => cases head
  | cons first tail =>
      cases head
      rw [candidateAtHead, candidate] at nothing
      split at nothing
      · next blocked =>
          rw [List.any_eq_true] at blocked
          obtain ⟨other, there, inside⟩ := blocked
          exact ⟨other, there, by simpa using inside⟩
      · cases nothing

/-- The C3 merge fails exactly where it gets stuck. -/
theorem c3_eq_none_iff {selected : List Class}
    {remaining : List (List Class)} :
    mergeLists c3Selection selected remaining = none ↔
      ∃ later, Leads remaining later ∧ Stuck later := by
  constructor
  · exact mergeLists_eq_none (fun _ _ _ => c3Selection_candidate)
      (fun _ _ => c3Selection_stuck)
  · rintro ⟨later, leads, stuck⟩
    cases merged : mergeLists c3Selection selected remaining with
    | none => rfl
    | some result =>
        obtain ⟨order, -, agrees⟩ :=
          mergeLists_merged (fun _ _ _ => c3Selection_candidate) merged
        exact absurd agrees.sublist (stuck.no_order leads agrees.nodup)

/-- The C3 merge fails exactly when the lists agree with no order. -/
theorem c3_eq_none_iff_no_order {selected : List Class}
    {remaining : List (List Class)} :
    mergeLists c3Selection selected remaining = none ↔
      ¬∃ order : List Class, order.Nodup ∧
        ∀ list ∈ remaining, list.Sublist order := by
  constructor
  · rintro failed ⟨order, nodup, sublists⟩
    obtain ⟨later, leads, stuck⟩ := c3_eq_none_iff.mp failed
    exact stuck.no_order leads nodup sublists
  · intro noOrder
    cases merged : mergeLists c3Selection selected remaining with
    | none => rfl
    | some result =>
        obtain ⟨order, -, agrees⟩ :=
          mergeLists_merged (fun _ _ _ => c3Selection_candidate) merged
        exact absurd ⟨order, agrees.nodup, agrees.sublist⟩ noOrder

/-! ## The older rule -/

/-- Every class in the lists is a direct superclass of one that was selected
or that comes before it in a list. -/
def Supported (directSuperclasses : Class → List Class)
    (selected : List Class) (remaining : List (List Class)) : Prop :=
  ∀ list ∈ remaining, ∀ s ∈ list, ∃ d, s ∈ directSuperclasses d ∧
    (d ∈ selected ∨ ∃ other ∈ remaining, [d, s].Sublist other)

theorem removeNext_pair (next : Class) {d s : Class} {list : List Class}
    (before : [d, s].Sublist list) :
    d = next ∨ [d, s].Sublist (removeNext next list) := by
  by_cases same : d = next
  · exact Or.inl same
  · right
    cases list with
    | nil => exact before
    | cons head tail =>
        rw [removeNext]
        split
        · next isNext =>
            rcases List.sublist_cons_iff.mp before with
              below | ⟨rest, shape, -⟩
            · exact below
            · cases shape
              exact absurd isNext same
        · exact before

theorem Supported.advance {directSuperclasses : Class → List Class}
    {selected : List Class} {remaining : List (List Class)}
    (supported : Supported directSuperclasses selected remaining)
    (next : Class) :
    Supported directSuperclasses (next :: selected)
      (advance next remaining) := by
  intro list member s inside
  obtain ⟨source, original, rfl⟩ := List.mem_map.mp member
  obtain ⟨d, direct, place⟩ := supported source original s
    ((removeNext_sublist next source).subset inside)
  refine ⟨d, direct, ?_⟩
  rcases place with already | ⟨other, there, before⟩
  · exact Or.inl (List.mem_cons_of_mem _ already)
  · rcases removeNext_pair next before with rfl | later
    · exact Or.inl (List.mem_cons_self ..)
    · exact Or.inr ⟨_, List.mem_map_of_mem there, later⟩

/-- The older rule finds something where there is a candidate. -/
theorem oldSelection_progress {directSuperclasses : Class → List Class}
    {selected : List Class} {remaining : List (List Class)}
    (supported : Supported directSuperclasses selected remaining)
    {s : Class} (isCandidate : Candidate remaining s) :
    ∃ next, (oldSelection directSuperclasses).next selected remaining =
      some next := by
  obtain ⟨list, member, head⟩ := isCandidate.head
  obtain ⟨d, direct, place⟩ :=
    supported list member s (List.mem_of_head? head)
  have chosen : d ∈ selected := by
    refine place.resolve_right ?_
    rintro ⟨other, there, before⟩
    have tail := before.tail
    exact isCandidate.free other there (tail.subset (by simp))
  have unconstrained : unconstrainedClass remaining s = some s := by
    rw [unconstrainedClass, if_pos]
    rw [Bool.and_eq_true, List.any_eq_true, List.all_eq_true]
    refine ⟨⟨list, member, by simpa using head⟩, fun other there => ?_⟩
    have free := isCandidate.free other there
    simp [free]
  apply Option.isSome_iff_exists.mp
  show (selected.findSome? _).isSome
  rw [List.findSome?_isSome_iff]
  refine ⟨d, chosen, ?_⟩
  rw [List.findSome?_isSome_iff]
  exact ⟨s, direct, by rw [unconstrained]; rfl⟩

section Computing

variable {table : ClassTable Class} {c : Class} {supers : List Class}

/-- The classes in the lists of a new class are supported. -/
theorem Linearized.supported (linearized : Linearized table)
    (fresh : c ∉ table.created) (known : ∀ s ∈ supers, s ∈ table.created) :
    Supported (Function.update table.directSuperclasses c supers) [c]
      (supers :: supers.map table.allSuperclasses) := by
  have direct : ∀ s ∈ supers, ∃ d,
      s ∈ Function.update table.directSuperclasses c supers d ∧
        (d ∈ [c] ∨ ∃ other ∈ supers :: supers.map table.allSuperclasses,
          [d, s].Sublist other) := by
    intro s isDirect
    exact ⟨c, by rwa [Function.update_self], Or.inl (by simp)⟩
  intro list member s inside
  rcases List.mem_cons.mp member with rfl | mapped
  · exact direct s inside
  · obtain ⟨super, isDirect, rfl⟩ := List.mem_map.mp mapped
    have created := known super isDirect
    rcases Relation.ReflTransGen.cases_tail
        ((linearized.mem super created s).mp inside) with
      same | ⟨d, above, below⟩
    · exact direct s (same ▸ isDirect)
    · have madeD := linearized.created_of_inherits created above
      have inD : d ∈ table.allSuperclasses super :=
        (linearized.mem super created d).mpr above
      refine ⟨d, ?_, Or.inr ⟨table.allSuperclasses super,
        List.mem_cons_of_mem _ mapped, ?_⟩⟩
      · rw [Function.update_of_ne]
        · exact below
        · rintro rfl
          exact fresh madeD
      · -- The precedence list of the subclass begins with it.
        refine List.Sublist.trans ?_
          (linearized.monotonic super created d inD)
        obtain ⟨rest, shape⟩ := linearized.head d madeD
        have inherited : s ∈ table.allSuperclasses d :=
          (linearized.localOrder d madeD).subset below
        have different : s ≠ d := by
          rintro rfl
          exact linearized.irreflexive s madeD below
        rw [shape] at inherited ⊢
        apply List.Sublist.cons_cons
        rw [List.singleton_sublist]
        exact (List.mem_cons.mp inherited).resolve_left different

/-- The older rule succeeds where the C3 rule does. -/
theorem Linearized.old_isSome (linearized : Linearized table)
    (fresh : c ∉ table.created) (known : ∀ s ∈ supers, s ∈ table.created)
    {order : List Class} (merged : Merged (table.lists supers) order) :
    ∃ old, mergeLists
      (oldSelection (Function.update table.directSuperclasses c supers)) [c]
      (supers :: supers.map table.allSuperclasses) = some old := by
  apply mergeLists_isSome
    (Supported (Function.update table.directSuperclasses c supers))
  · rintro selected remaining supported ⟨s, isCandidate⟩
    exact oldSelection_progress supported isCandidate
  · exact fun selected remaining next supported _ => supported.advance next
  · exact linearized.supported fresh known
  · exact merged.nodup
  · intro list member
    apply merged.sublist list
    rw [ClassTable.lists, List.mem_append, List.mem_singleton]
    exact (List.mem_cons.mp member).symm

/-- The result of the computation is that of the C3 merge. -/
theorem Linearized.compute_eq (linearized : Linearized table)
    (fresh : c ∉ table.created) (known : ∀ s ∈ supers, s ∈ table.created) :
    (mergeLists c3Selection [c] (table.lists supers) = none ∧
      computeImplementationClassPrecedenceList table c supers =
        .error inconsistentPrecedenceGraph) ∨
    ∃ order differs, Merged (table.lists supers) order ∧
      mergeLists c3Selection [c] (table.lists supers) = some (c :: order) ∧
      computeImplementationClassPrecedenceList table c supers =
        .ok { precedenceList := c :: order
              differs := differs } := by
  rw [computeImplementationClassPrecedenceList]
  cases merged : mergeLists c3Selection [c] (table.lists supers) with
  | none => exact Or.inl ⟨rfl, rfl⟩
  | some c3 =>
      right
      obtain ⟨order, shape, agrees⟩ :=
        mergeLists_merged (fun _ _ _ => c3Selection_candidate) merged
      obtain ⟨old, mergedOld⟩ := linearized.old_isSome fresh known agrees
      have same : c3 = c :: order := by simpa using shape
      subst same
      exact ⟨order, !((c :: order).zip old).all fun pair => pair.1 = pair.2,
        agrees, rfl, by simp only [mergedOld]⟩

/-- What a successful computation says about the new class. -/
theorem Linearized.compute_ok (linearized : Linearized table)
    (fresh : c ∉ table.created) (known : ∀ s ∈ supers, s ∈ table.created)
    {linearization : Linearization Class}
    (computed : computeImplementationClassPrecedenceList table c supers =
      .ok linearization) :
    ∃ order, linearization.precedenceList = c :: order ∧
      Merged (table.lists supers) order := by
  rcases linearized.compute_eq fresh known with
    ⟨-, failed⟩ | ⟨order, differs, merged, -, result⟩
  · rw [failed] at computed
    cases computed
  · rw [result] at computed
    cases computed
    exact ⟨order, rfl, merged⟩

omit [DecidableEq Class] in
/-- The classes of the lists of a new class. -/
theorem Linearized.mem_lists (linearized : Linearized table)
    (known : ∀ s ∈ supers, s ∈ table.created) {s : Class} :
    (∃ list ∈ table.lists supers, s ∈ list) ↔
      ∃ super ∈ supers, s ∈ table.allSuperclasses super := by
  constructor
  · rintro ⟨list, member, inside⟩
    rcases List.mem_append.mp member with mapped | own
    · obtain ⟨super, isDirect, rfl⟩ := List.mem_map.mp mapped
      exact ⟨super, isDirect, inside⟩
    · rw [List.mem_singleton.mp own] at inside
      obtain ⟨rest, shape⟩ := linearized.head s (known s inside)
      exact ⟨s, inside, by rw [shape]; exact List.mem_cons_self ..⟩
  · rintro ⟨super, isDirect, inside⟩
    exact ⟨_, List.mem_append_left _ (List.mem_map_of_mem isDirect), inside⟩

/-- A new class keeps the invariant. -/
theorem Linearized.create (linearized : Linearized table)
    (fresh : c ∉ table.created) (known : ∀ s ∈ supers, s ∈ table.created)
    {order : List Class} (merged : Merged (table.lists supers) order) :
    Linearized (table.create c supers (c :: order)) := by
  have inOrder : ∀ s, s ∈ order ↔
      ∃ super ∈ supers, s ∈ table.allSuperclasses super := fun s =>
    (merged.mem s).trans (linearized.mem_lists known)
  have notInOrder : c ∉ order := by
    intro member
    obtain ⟨super, isDirect, inside⟩ := (inOrder c).mp member
    exact fresh (linearized.created_of_mem (known super isDirect) inside)
  have newDirect : (table.create c supers (c :: order)).directSuperclasses c =
      supers := Function.update_self ..
  have newAll : (table.create c supers (c :: order)).allSuperclasses c =
      c :: order := Function.update_self ..
  have old : ∀ {d : Class}, d ∈ table.created → d ≠ c := by
    rintro d there rfl
    exact fresh there
  have oldDirect : ∀ {d : Class}, d ∈ table.created →
      (table.create c supers (c :: order)).directSuperclasses d =
        table.directSuperclasses d := fun there =>
    Function.update_of_ne (old there) ..
  have oldAll : ∀ {d : Class}, d ∈ table.created →
      (table.create c supers (c :: order)).allSuperclasses d =
        table.allSuperclasses d := fun there =>
    Function.update_of_ne (old there) ..
  constructor
  · intro d member s direct
    rcases List.mem_cons.mp member with rfl | there
    · rw [newDirect] at direct
      exact List.mem_cons_of_mem _ (known s direct)
    · rw [oldDirect there] at direct
      exact List.mem_cons_of_mem _ (linearized.closed d there s direct)
  · intro d member
    rcases List.mem_cons.mp member with rfl | there
    · rw [newDirect]
      exact fun direct => fresh (known d direct)
    · rw [oldDirect there]
      exact linearized.irreflexive d there
  · intro d member
    rcases List.mem_cons.mp member with rfl | there
    · exact ⟨order, newAll⟩
    · rw [oldAll there]
      exact linearized.head d there
  · intro d member
    rcases List.mem_cons.mp member with rfl | there
    · rw [newAll, List.nodup_cons]
      exact ⟨notInOrder, merged.nodup⟩
    · rw [oldAll there]
      exact linearized.nodup d there
  · intro d member s
    rcases List.mem_cons.mp member with rfl | there
    · rw [newAll, List.mem_cons, inOrder]
      exact (linearized.inherits_new fresh _ known).symm
    · rw [oldAll there, linearized.mem d there]
      exact (linearized.inherits_create fresh supers _ there).symm
  · intro d member
    rcases List.mem_cons.mp member with rfl | there
    · rw [newDirect, newAll]
      apply List.Sublist.cons
      exact merged.sublist supers (List.mem_append_right _ (by simp))
    · rw [oldDirect there, oldAll there]
      exact linearized.localOrder d there
  · intro d member s superclass
    rcases List.mem_cons.mp member with rfl | there
    · rw [newAll] at superclass
      rcases List.mem_cons.mp superclass with rfl | above
      · exact List.Sublist.refl _
      · obtain ⟨super, isDirect, inside⟩ := (inOrder s).mp above
        have made := known super isDirect
        rw [newAll, oldAll (linearized.created_of_mem made inside)]
        apply List.Sublist.cons
        apply (linearized.monotonic super made s inside).trans
        exact merged.sublist _
          (List.mem_append_left _ (List.mem_map_of_mem isDirect))
    · rw [oldAll there] at superclass ⊢
      rw [oldAll (linearized.created_of_mem there superclass)]
      exact linearized.monotonic d there s superclass

end Computing

/-- The precedence lists of all classes are linearizations, in whatever order
the classes were created. -/
theorem Hierarchy.linearized {table : ClassTable Class}
    (hierarchy : Hierarchy table) : Linearized table := by
  induction hierarchy with
  | empty => constructor <;> simp
  | create earlier fresh known computed ih =>
      obtain ⟨order, shape, merged⟩ := ih.compute_ok fresh known computed
      rw [shape]
      exact ih.create fresh known merged

/-! ## The precedence list of a class -/

/-- The C3 linearization of a class: what it contains and in which order, when
it fails, and that it is monotonic. -/
theorem classPrecedenceList_c3 {table : ClassTable Class}
    (hierarchy : Hierarchy table) :
    (∀ c supers, c ∉ table.created → (∀ s ∈ supers, s ∈ table.created) →
      (∀ linearization,
        computeImplementationClassPrecedenceList table c supers =
            .ok linearization →
          linearization.precedenceList.head? = some c ∧
          linearization.precedenceList.Nodup ∧
          (∀ s, s ∈ linearization.precedenceList ↔
            (table.create c supers linearization.precedenceList).Inherits
              c s) ∧
          (∀ s ∈ supers, (table.allSuperclasses s).Sublist
            linearization.precedenceList) ∧
          supers.Sublist linearization.precedenceList) ∧
      (computeImplementationClassPrecedenceList table c supers =
          .error "Inconsistent precedence graph" ↔
        ∃ later, Leads (table.lists supers) later ∧ Stuck later) ∧
      (computeImplementationClassPrecedenceList table c supers =
          .error "Inconsistent precedence graph" ↔
        ¬∃ order : List Class, order.Nodup ∧
          (∀ s ∈ supers, (table.allSuperclasses s).Sublist order) ∧
            supers.Sublist order)) ∧
    ∀ c ∈ table.created, ∀ s, table.Inherits c s →
      (table.allSuperclasses s).Sublist (table.allSuperclasses c) := by
  have linearized := hierarchy.linearized
  constructor
  · intro c supers fresh known
    have fails : computeImplementationClassPrecedenceList table c supers =
        .error "Inconsistent precedence graph" ↔
          mergeLists c3Selection [c] (table.lists supers) = none := by
      rcases linearized.compute_eq fresh known with
        ⟨failed, result⟩ | ⟨order, differs, -, found, result⟩
      · exact ⟨fun _ => failed, fun _ => result⟩
      · rw [result, found]
        simp
    refine ⟨?_, fails.trans c3_eq_none_iff, ?_⟩
    · intro linearization computed
      have next := (Hierarchy.create hierarchy fresh known computed).linearized
      have here : c ∈ (table.create c supers
          linearization.precedenceList).created := List.mem_cons_self ..
      have own : (table.create c supers
          linearization.precedenceList).allSuperclasses c =
            linearization.precedenceList := Function.update_self ..
      have direct : (table.create c supers
          linearization.precedenceList).directSuperclasses c = supers :=
        Function.update_self ..
      obtain ⟨rest, shape⟩ := next.head c here
      rw [own] at shape
      refine ⟨by rw [shape]; rfl, ?_, ?_, ?_, ?_⟩
      · have nodup := next.nodup c here
        rwa [own] at nodup
      · intro s
        have mem := next.mem c here s
        rwa [own] at mem
      · intro s isDirect
        obtain ⟨order, listed, merged⟩ :=
          linearized.compute_ok fresh known computed
        rw [listed]
        apply List.Sublist.cons
        exact merged.sublist _
          (List.mem_append_left _ (List.mem_map_of_mem isDirect))
      · have localOrder := next.localOrder c here
        rwa [own, direct] at localOrder
    · rw [fails, c3_eq_none_iff_no_order, not_iff_not]
      constructor
      · rintro ⟨order, nodup, sublists⟩
        refine ⟨order, nodup, fun s isDirect => ?_, ?_⟩
        · exact sublists _
            (List.mem_append_left _ (List.mem_map_of_mem isDirect))
        · exact sublists _ (List.mem_append_right _ (by simp))
      · rintro ⟨order, nodup, lists, own⟩
        refine ⟨order, nodup, fun list member => ?_⟩
        rcases List.mem_append.mp member with mapped | last
        · obtain ⟨s, isDirect, rfl⟩ := List.mem_map.mp mapped
          exact lists s isDirect
        · rw [List.mem_singleton.mp last]
          exact own
  · intro c member s inherits
    exact linearized.monotonic c member s
      ((linearized.mem c member s).mpr inherits)

section Samples

/-- The class 0 without superclasses. -/
def rootTable : ClassTable Nat where
  created := [0]
  directSuperclasses := Function.update (fun _ => []) 0 []
  allSuperclasses := Function.update (fun _ => []) 0 [0]

theorem rootTable_hierarchy : Hierarchy rootTable := by
  have computed : computeImplementationClassPrecedenceList
      { created := []
        directSuperclasses := fun _ => []
        allSuperclasses := fun _ => [] } 0 [] =
      .ok { precedenceList := [0]
            differs := false } := by
    simp [computeImplementationClassPrecedenceList, ClassTable.lists,
      mergeLists]
  exact Hierarchy.create Hierarchy.empty (by simp) (by simp) computed

/-- A class below the root. -/
theorem classPrecedenceList_c3_root :
    computeImplementationClassPrecedenceList rootTable 1 [0] =
        .ok { precedenceList := [1, 0]
              differs := false } ∧
      [1, 0].Nodup ∧ [0].Sublist [1, 0] := by
  have computed : computeImplementationClassPrecedenceList rootTable 1 [0] =
      .ok { precedenceList := [1, 0]
            differs := false } := by
    have c3 : mergeLists c3Selection [1] (rootTable.lists [0]) =
        some [1, 0] := by
      have found : c3Selection.next [1] (rootTable.lists [0]) = some 0 := by
        decide
      rw [mergeLists_of_some (by decide) found,
        mergeLists_of_empty (by decide)]
      rfl
    have old : mergeLists (oldSelection
        (Function.update rootTable.directSuperclasses 1 [0])) [1]
        ([0] :: [0].map rootTable.allSuperclasses) = some [1, 0] := by
      have found : (oldSelection
          (Function.update rootTable.directSuperclasses 1 [0])).next [1]
          ([0] :: [0].map rootTable.allSuperclasses) = some 0 := by
        decide
      rw [mergeLists_of_some (by decide) found,
        mergeLists_of_empty (by decide)]
      rfl
    rw [computeImplementationClassPrecedenceList, c3]
    simp only [old]
    rfl
  obtain ⟨-, nodup, -, -, own⟩ :=
    ((classPrecedenceList_c3 rootTable_hierarchy).1 1 [0] (by decide)
      (by decide)).1 _ computed
  exact ⟨computed, nodup, own⟩

/-- A class that names a superclass twice: the error has another text, and
the head of the class's own list is in no tail but that of its own list. -/
theorem classPrecedenceList_other_error :
    computeImplementationClassPrecedenceList rootTable 1 [0, 0] ≠
        .error "Inconsistent precedence order" ∧
      computeImplementationClassPrecedenceList rootTable 1 [0, 0] =
        .error "Inconsistent precedence graph" ∧
      rootTable.lists [0, 0] = [[0], [0], [0, 0]] := by
  have computed : computeImplementationClassPrecedenceList rootTable 1
      [0, 0] = .error "Inconsistent precedence graph" := by
    have failed : c3Selection.next [1] (rootTable.lists [0, 0]) = none := by
      decide
    rw [computeImplementationClassPrecedenceList,
      mergeLists_of_none (by decide) failed]
    rfl
  refine ⟨?_, computed, rfl⟩
  rw [computed]
  simp

end Samples

end OpenDylan.Runtime.ClassPrecedence
