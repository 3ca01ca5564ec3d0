import OpenDylan.Runtime.SubtypeOrder

/-!
# Disjoint types

`disjoint-types?` answers whether two types can have no instance in common.  For
classes the answer depends on the classes that there are: unrelated classes are
joint once another class inherits from both.  The code for a class definition
records which superclasses it makes joint; making a class at run time does not.

Unrelated primary classes are never joint.
-/

namespace OpenDylan.Runtime.Disjointness

open OpenDylan.Runtime.Types OpenDylan.Runtime.TypeTerms
open OpenDylan.Runtime.SubtypeOrder

/-! ## Classes -/

/-- A universe with the primary classes; a class comes before its
superclasses. -/
structure ClassGraph (wordSize : Nat) (Class Object : Type) extends
    CollectionUniverse wordSize Class Object where
  /-- `class-primary?` -/
  isPrimary : Class → Bool
  head : ∀ class_, (allSuperclasses class_).head? = some class_
  ordered : ∀ class_, (allSuperclasses class_).Pairwise
    fun earlier later => earlier ∉ allSuperclasses later
  /-- `<integer>` is sealed and has no subclasses. -/
  integers : ∀ object, integerRoot ∈ allSuperclasses (objectClass object) →
    objectClass object = integerRoot

/-- The classes that there are, and `class-known-joint`. -/
structure ClassState (Class : Type) where
  classes : List Class
  knownJoint : Class → List Class

/-- How classes come about; a definition knows which classes are in its
library. -/
inductive ClassEvent (Class : Type) where
  | define (isLocal : Class → Bool) (class_ : Class)
  | make (class_ : Class)

section Classes

variable {wordSize : Nat} {Class Object : Type}
variable [DecidableEq Class]

/-- The loop over primary superclasses in `compute-cpl-rcpl-stuff`. -/
def ClassGraph.primariesRelated (graph : ClassGraph wordSize Class Object) :
    List Class → Option Class → Bool
  | [], _ => true
  | sup :: others, firstPrimary =>
      if graph.isPrimary sup then
        match firstPrimary with
        | some first =>
            (graph.isSubclass first sup || graph.isSubclass sup first) &&
              graph.primariesRelated others (some first)
        | none => graph.primariesRelated others (some sup)
      else
        graph.primariesRelated others firstPrimary

/-- One more class in the entry of a class. -/
def record (knownJoint : Class → List Class) (c1 c2 class_ : Class) :
    List Class :=
  if class_ = c1 then c2 :: knownJoint c1 else knownJoint class_

/-- Record that two classes are joint, in one of them. -/
def ClassGraph.noteJoint (graph : ClassGraph wordSize Class Object)
    (isLocal : Class → Bool) (knownJoint : Class → List Class) (c1 c2 : Class) :
    Class → List Class :=
  if c2 ∈ (graph.allSuperclasses c1).tail then
    knownJoint
  else if c2 ∈ knownJoint c1 then
    knownJoint
  else if c1 ∈ knownJoint c2 then
    knownJoint
  else if isLocal c1 || !isLocal c2 then
    record knownJoint c1 c2
  else
    record knownJoint c2 c1

/-- Record which of the superclasses are joint. -/
def ClassGraph.noteAllJoint (graph : ClassGraph wordSize Class Object)
    (isLocal : Class → Bool) :
    List Class → (Class → List Class) → Class → List Class
  | [], knownJoint => knownJoint
  | c1 :: others, knownJoint =>
      graph.noteAllJoint isLocal others
        (others.foldl (fun knownJoint c2 =>
          graph.noteJoint isLocal knownJoint c1 c2) knownJoint)

/-- The checks on a new class. -/
def ClassGraph.accepts (graph : ClassGraph wordSize Class Object)
    (state : ClassState Class) (class_ : Class) : Bool :=
  class_ ∉ state.classes &&
    (graph.allSuperclasses class_).tail.all (fun sup => sup ∈ state.classes) &&
    graph.primariesRelated (graph.allSuperclasses class_).tail none

/-- A new class. -/
def ClassGraph.step (graph : ClassGraph wordSize Class Object)
    (state : ClassState Class) : ClassEvent Class → Option (ClassState Class)
  | .define isLocal class_ =>
      if graph.accepts state class_ then
        some
          { classes := class_ :: state.classes
            knownJoint := graph.noteAllJoint isLocal
              (graph.allSuperclasses class_).tail state.knownJoint }
      else
        none
  | .make class_ =>
      if graph.accepts state class_ then
        some { state with classes := class_ :: state.classes }
      else
        none

/-- Some events, in order. -/
def ClassGraph.run (graph : ClassGraph wordSize Class Object) :
    List (ClassEvent Class) → ClassState Class → Option (ClassState Class)
  | [], state => some state
  | event :: events, state => (graph.step state event).bind (graph.run events)

/-- `disjoint-types-1?` on classes -/
def ClassGraph.disjointClasses (graph : ClassGraph wordSize Class Object)
    (state : ClassState Class) (c1 c2 : Class) : Bool :=
  !graph.isSubclass c1 c2 && !graph.isSubclass c2 c1 &&
    ((graph.isPrimary c1 && graph.isPrimary c2) ||
      (c1 ∉ state.knownJoint c2 && c2 ∉ state.knownJoint c1))

/-! ## Types -/

variable [DecidableEq Object]

/-- `has-instances?`, its first value, for types that are neither classes nor
unions nor subclass types. -/
def ClassGraph.hasInstances (graph : ClassGraph wordSize Class Object)
    (class_ : Class) : RuntimeType wordSize Class Object → Bool
  | .singleton value => graph.isSubclass (graph.classOf value) class_
  | .limitedInteger _ _ =>
      graph.isSubclass graph.integerRoot class_ ||
        graph.isSubclass class_ graph.integerRoot
  | .limitedCollection collectionClass _ _ =>
      graph.isSubclass class_ graph.limitedCollectionRoot &&
        graph.isSubclass class_ collectionClass
  | _ => false

/-- `disjoint-types-1?` on types in general -/
def ClassGraph.disjointByDefault (graph : ClassGraph wordSize Class Object)
    (type1 type2 : RuntimeType wordSize Class Object) : Option Bool :=
  bothOf ((graph.subtype type1 type2).map not)
    ((graph.subtype type2 type1).map not)

/-- One limited integer type lies entirely below another. -/
def liesBelow : Option (Fixnum wordSize) → Option (Fixnum wordSize) → Bool
  | some maximum, some minimum => maximum.value < minimum.value
  | _, _ => false

/-- `disjoint-types-1?` on limited integer types -/
def disjointBounds (minimum1 maximum1 minimum2 maximum2 :
    Option (Fixnum wordSize)) : Bool :=
  liesBelow maximum1 minimum2 || liesBelow maximum2 minimum1

/-- `disjoint-types-1?` -/
def ClassGraph.disjointTypes1 (graph : ClassGraph wordSize Class Object)
    (state : ClassState Class) :
    RuntimeType wordSize Class Object → RuntimeType wordSize Class Object →
      Option Bool
  | .class c1, .class c2 => some (graph.disjointClasses state c1 c2)
  | .subclass c1, .subclass c2 => some (graph.disjointClasses state c1 c2)
  | .subclass _, .class class_ =>
      some (graph.disjointClasses state graph.classRoot class_)
  | .class class_, .subclass _ =>
      some (graph.disjointClasses state graph.classRoot class_)
  | .class class_, .singleton value =>
      some (!graph.hasInstances class_ (.singleton value))
  | .class class_, .limitedInteger minimum maximum =>
      some (!graph.hasInstances class_ (.limitedInteger minimum maximum))
  | .class class_, .limitedCollection other elementType extent =>
      some (!graph.hasInstances class_
        (.limitedCollection other elementType extent))
  | .singleton value, .class class_ =>
      some (!graph.hasInstances class_ (.singleton value))
  | .limitedInteger minimum maximum, .class class_ =>
      some (!graph.hasInstances class_ (.limitedInteger minimum maximum))
  | .limitedCollection other elementType extent, .class class_ =>
      some (!graph.hasInstances class_
        (.limitedCollection other elementType extent))
  | .singleton value1, .singleton value2 => some (value1 ≠ value2)
  | .limitedInteger minimum1 maximum1, .limitedInteger minimum2 maximum2 =>
      some (disjointBounds minimum1 maximum1 minimum2 maximum2)
  | type1, type2 => graph.disjointByDefault type1 type2

/-- `disjoint-types?` -/
def ClassGraph.disjointTypes (graph : ClassGraph wordSize Class Object)
    (state : ClassState Class) :
    RuntimeType wordSize Class Object → RuntimeType wordSize Class Object →
      Option Bool
  | .union left1 right1, .union left2 right2 =>
      bothOf (graph.disjointTypes state left1 left2)
        (bothOf (graph.disjointTypes state left1 right2)
          (bothOf (graph.disjointTypes state right1 left2)
            (graph.disjointTypes state right1 right2)))
  | .union left right, type2 =>
      bothOf (graph.disjointTypes state left type2)
        (graph.disjointTypes state right type2)
  | type1, .union left right =>
      bothOf (graph.disjointTypes state type1 left)
        (graph.disjointTypes state type1 right)
  | type1, type2 => graph.disjointTypes1 state type1 type2
termination_by type1 type2 => sizeOf type1 + sizeOf type2

end Classes

/-! ## Joint classes -/

section Joint

variable {wordSize : Nat} {Class Object : Type}
  {graph : ClassGraph wordSize Class Object} {state : ClassState Class}

/-- Two classes are recorded to be joint. -/
def Known (knownJoint : Class → List Class) (c1 c2 : Class) : Prop :=
  c1 ∈ knownJoint c2 ∨ c2 ∈ knownJoint c1

theorem Known.symm {knownJoint : Class → List Class} {c1 c2 : Class}
    (known : Known knownJoint c1 c2) : Known knownJoint c2 c1 :=
  Or.symm known

theorem ClassGraph.superclasses (graph : ClassGraph wordSize Class Object)
    (class_ : Class) :
    graph.allSuperclasses class_ =
      class_ :: (graph.allSuperclasses class_).tail := by
  have head := graph.head class_
  cases superclasses : graph.allSuperclasses class_ with
  | nil => simp [superclasses] at head
  | cons first others =>
      rw [superclasses, List.head?_cons, Option.some_inj] at head
      rw [head, List.tail_cons]

/-- A class is related to its superclasses; other pairs are pairs of them. -/
theorem forall_superclasses {relation : Class → Class → Prop} {class_ : Class}
    (symm : ∀ {c1 c2}, relation c1 c2 → relation c2 c1)
    (own : ∀ c2 ∈ graph.allSuperclasses class_, relation class_ c2)
    (others : ∀ c1 ∈ (graph.allSuperclasses class_).tail,
      ∀ c2 ∈ (graph.allSuperclasses class_).tail, relation c1 c2) :
    ∀ c1 ∈ graph.allSuperclasses class_, ∀ c2 ∈ graph.allSuperclasses class_,
      relation c1 c2 := by
  intro c1 member1 c2 member2
  have member1' := member1
  have member2' := member2
  rw [graph.superclasses class_, List.mem_cons] at member1' member2'
  rcases member1' with rfl | inTail1
  · exact own c2 member2
  · rcases member2' with rfl | inTail2
    · exact symm (own c1 member1)
    · exact others c1 inTail1 c2 inTail2

variable [DecidableEq Class]

/-- One of two classes is a subclass of the other. -/
def ClassGraph.Related (graph : ClassGraph wordSize Class Object)
    (c1 c2 : Class) : Prop :=
  graph.isSubclass c1 c2 = true ∨ graph.isSubclass c2 c1 = true

/-- A class made at run time does not make any superclasses joint that are not
known to be joint. -/
def Allowed (graph : ClassGraph wordSize Class Object)
    (state : ClassState Class) : ClassEvent Class → Prop
  | .define _ _ => True
  | .make class_ =>
      ∀ c1 ∈ graph.allSuperclasses class_, ∀ c2 ∈ graph.allSuperclasses class_,
        graph.Related c1 c2 ∨ Known state.knownJoint c1 c2

/-- The states after allowed events. -/
inductive Reached (graph : ClassGraph wordSize Class Object) :
    ClassState Class → Prop where
  | empty : Reached graph { classes := [], knownJoint := fun _ => [] }
  | step {state later : ClassState Class} {event : ClassEvent Class}
      (earlier : Reached graph state) (allowed : Allowed graph state event)
      (accepted : graph.step state event = some later) : Reached graph later

/-- What is right about the classes that there are. -/
structure ClassState.Sound (graph : ClassGraph wordSize Class Object)
    (state : ClassState Class) : Prop where
  joint : ∀ class_ ∈ state.classes, ∀ c1 ∈ graph.allSuperclasses class_,
    ∀ c2 ∈ graph.allSuperclasses class_,
      graph.Related c1 c2 ∨ Known state.knownJoint c1 c2
  primaries : ∀ class_ ∈ state.classes, ∀ c1 ∈ graph.allSuperclasses class_,
    ∀ c2 ∈ graph.allSuperclasses class_, graph.isPrimary c1 = true →
      graph.isPrimary c2 = true → graph.Related c1 c2

theorem ClassGraph.Related.symm {c1 c2 : Class} (related : graph.Related c1 c2) :
    graph.Related c2 c1 :=
  Or.symm related

theorem related_of_mem {c1 c2 : Class} (member : c2 ∈ graph.allSuperclasses c1) :
    graph.Related c1 c2 := by
  apply Or.inl
  rw [Universe.isSubclass, decide_eq_true_eq]
  exact member

theorem record_mono {knownJoint : Class → List Class} {c1 c2 d1 d2 : Class}
    (known : Known knownJoint d1 d2) :
    Known (record knownJoint c1 c2) d1 d2 := by
  have mono : ∀ class_ member, member ∈ knownJoint class_ →
      member ∈ record knownJoint c1 c2 class_ := by
    intro class_ member isMember
    rw [record]
    split
    · next same =>
        rw [← same]
        exact List.mem_cons_of_mem _ isMember
    · exact isMember
  exact known.imp (mono d2 d1) (mono d1 d2)

theorem noteJoint_mono {isLocal : Class → Bool}
    {knownJoint : Class → List Class} {c1 c2 d1 d2 : Class}
    (known : Known knownJoint d1 d2) :
    Known (graph.noteJoint isLocal knownJoint c1 c2) d1 d2 := by
  rw [ClassGraph.noteJoint]
  split_ifs
  · exact known
  · exact known
  · exact known
  · exact record_mono known
  · exact record_mono known

theorem noteJoint_notes {isLocal : Class → Bool}
    {knownJoint : Class → List Class} (c1 c2 : Class) :
    graph.Related c1 c2 ∨
      Known (graph.noteJoint isLocal knownJoint c1 c2) c1 c2 := by
  rw [ClassGraph.noteJoint]
  split_ifs with below knows knowsToo here
  · exact .inl (related_of_mem (List.mem_of_mem_tail below))
  · exact .inr (.inr knows)
  · exact .inr (.inl knowsToo)
  · exact .inr (.inr (by simp [record]))
  · exact .inr (.inl (by simp [record]))

theorem foldl_noteJoint_mono {isLocal : Class → Bool} {c1 d1 d2 : Class}
    (others : List Class) {knownJoint : Class → List Class}
    (known : Known knownJoint d1 d2) :
    Known (others.foldl (fun knownJoint c2 =>
      graph.noteJoint isLocal knownJoint c1 c2) knownJoint) d1 d2 := by
  induction others generalizing knownJoint with
  | nil => exact known
  | cons c2 others ih => exact ih (noteJoint_mono known)

theorem foldl_noteJoint_notes {isLocal : Class → Bool} {c1 c2 : Class}
    {others : List Class} {knownJoint : Class → List Class}
    (member : c2 ∈ others) :
    graph.Related c1 c2 ∨ Known (others.foldl (fun knownJoint c2 =>
      graph.noteJoint isLocal knownJoint c1 c2) knownJoint) c1 c2 := by
  induction others generalizing knownJoint with
  | nil => cases member
  | cons other others ih =>
      rcases List.mem_cons.mp member with rfl | member
      · exact (noteJoint_notes c1 c2).imp id (foldl_noteJoint_mono others)
      · exact ih member

theorem noteAllJoint_mono {isLocal : Class → Bool} {d1 d2 : Class}
    (superclasses : List Class) {knownJoint : Class → List Class}
    (known : Known knownJoint d1 d2) :
    Known (graph.noteAllJoint isLocal superclasses knownJoint) d1 d2 := by
  induction superclasses generalizing knownJoint with
  | nil => exact known
  | cons c1 others ih => exact ih (foldl_noteJoint_mono others known)

theorem noteAllJoint_notes {isLocal : Class → Bool}
    (superclasses : List Class) {knownJoint : Class → List Class} :
    superclasses.Pairwise fun c1 c2 => graph.Related c1 c2 ∨
      Known (graph.noteAllJoint isLocal superclasses knownJoint) c1 c2 := by
  induction superclasses generalizing knownJoint with
  | nil => exact List.Pairwise.nil
  | cons c1 others ih =>
      apply List.Pairwise.cons
      · intro c2 member
        exact (foldl_noteJoint_notes member).imp id (noteAllJoint_mono others)
      · exact ih

theorem primariesRelated_some {superclasses : List Class} {first : Class}
    (accepted : graph.primariesRelated superclasses (some first) = true) :
    ∀ sup ∈ superclasses, graph.isPrimary sup = true →
      graph.Related first sup := by
  induction superclasses with
  | nil => simp
  | cons other others ih =>
      rw [ClassGraph.primariesRelated] at accepted
      intro sup member isPrimary
      split at accepted
      · rw [Bool.and_eq_true, Bool.or_eq_true] at accepted
        rcases List.mem_cons.mp member with rfl | member
        · exact accepted.1
        · exact ih accepted.2 sup member isPrimary
      · next notPrimary =>
          rcases List.mem_cons.mp member with rfl | member
          · exact absurd isPrimary notPrimary
          · exact ih accepted sup member isPrimary

/-- Primary superclasses are superclasses of the first one of them. -/
theorem primariesRelated_none {superclasses : List Class}
    (ordered : superclasses.Pairwise
      fun earlier later => earlier ∉ graph.allSuperclasses later)
    (accepted : graph.primariesRelated superclasses none = true) :
    (∀ sup ∈ superclasses, graph.isPrimary sup = false) ∨
      ∃ first ∈ superclasses, ∀ sup ∈ superclasses,
        graph.isPrimary sup = true → sup ∈ graph.allSuperclasses first := by
  induction superclasses with
  | nil => exact .inl (by simp)
  | cons other others ih =>
      rw [List.pairwise_cons] at ordered
      rw [ClassGraph.primariesRelated] at accepted
      split at accepted
      · apply Or.inr
        refine ⟨other, List.mem_cons_self, fun sup member isPrimary => ?_⟩
        rcases List.mem_cons.mp member with rfl | member
        · exact graph.self_mem sup
        · have related := primariesRelated_some accepted sup member isPrimary
          simp only [ClassGraph.Related, Universe.isSubclass,
            decide_eq_true_eq] at related
          exact related.resolve_right (ordered.1 sup member)
      · next notPrimary =>
          rw [Bool.not_eq_true] at notPrimary
          rcases ih ordered.2 accepted with none | ⟨first, isFirst, above⟩
          · apply Or.inl
            intro sup member
            rcases List.mem_cons.mp member with rfl | member
            · exact notPrimary
            · exact none sup member
          · apply Or.inr
            refine ⟨first, List.mem_cons_of_mem _ isFirst, ?_⟩
            intro sup member isPrimary
            rcases List.mem_cons.mp member with rfl | member
            · rw [notPrimary] at isPrimary
              cases isPrimary
            · exact above sup member isPrimary

theorem ClassState.Sound.accepts_primaries (sound : state.Sound graph)
    {class_ : Class} (accepted : graph.accepts state class_ = true) :
    ∀ c1 ∈ graph.allSuperclasses class_, ∀ c2 ∈ graph.allSuperclasses class_,
      graph.isPrimary c1 = true → graph.isPrimary c2 = true →
        graph.Related c1 c2 := by
  rw [ClassGraph.accepts, Bool.and_eq_true, Bool.and_eq_true,
    List.all_eq_true] at accepted
  have ordered := graph.ordered class_
  rw [graph.superclasses class_, List.pairwise_cons] at ordered
  apply forall_superclasses
  · intro c1 c2 related isPrimary isPrimaryToo
    exact (related isPrimaryToo isPrimary).symm
  · intro c2 member _ _
    exact related_of_mem member
  · intro c1 member1 c2 member2 isPrimary1 isPrimary2
    rcases primariesRelated_none ordered.2 accepted.2 with
      none | ⟨first, isFirst, above⟩
    · rw [none c1 member1] at isPrimary1
      cases isPrimary1
    · have isClass := accepted.1.2 first isFirst
      rw [decide_eq_true_eq] at isClass
      exact sound.primaries first isClass c1 (above c1 member1 isPrimary1) c2
        (above c2 member2 isPrimary2) isPrimary1 isPrimary2

theorem ClassState.Sound.step (sound : state.Sound graph)
    {event : ClassEvent Class} {later : ClassState Class}
    (allowed : Allowed graph state event)
    (accepted : graph.step state event = some later) : later.Sound graph := by
  cases event with
  | define isLocal class_ =>
      rw [ClassGraph.step, Option.ite_none_right_eq_some] at accepted
      obtain ⟨accepts, isLater⟩ := accepted
      cases isLater
      have noted := @noteAllJoint_notes wordSize Class Object graph _ isLocal
        (graph.allSuperclasses class_).tail state.knownJoint
      constructor
      · intro other member
        rcases List.mem_cons.mp member with rfl | member
        · apply forall_superclasses
          · intro c1 c2 either
            exact either.imp ClassGraph.Related.symm Known.symm
          · intro c2 member
            exact .inl (related_of_mem member)
          · intro c1 member1 c2 member2
            apply List.Pairwise.forall_of_forall_of_flip _ noted _ member1
              member2
            · intro c1 _
              exact .inl (related_of_mem (graph.self_mem c1))
            · apply noted.imp
              intro c1 c2 either
              exact either.imp ClassGraph.Related.symm Known.symm
        · intro c1 member1 c2 member2
          exact (sound.joint other member c1 member1 c2 member2).imp id
            (noteAllJoint_mono _)
      · intro other member
        rcases List.mem_cons.mp member with rfl | member
        · exact sound.accepts_primaries accepts
        · exact sound.primaries other member
  | make class_ =>
      rw [ClassGraph.step, Option.ite_none_right_eq_some] at accepted
      obtain ⟨accepts, isLater⟩ := accepted
      cases isLater
      constructor
      · intro other member
        rcases List.mem_cons.mp member with rfl | member
        · exact allowed
        · exact sound.joint other member
      · intro other member
        rcases List.mem_cons.mp member with rfl | member
        · exact sound.accepts_primaries accepts
        · exact sound.primaries other member

theorem Reached.run_definitions (isLocal : Class → Bool) (classes : List Class)
    {state later : ClassState Class} (reached : Reached graph state)
    (accepted : graph.run (classes.map (.define isLocal)) state = some later) :
    Reached graph later := by
  induction classes generalizing state with
  | nil =>
      rw [List.map_nil, ClassGraph.run, Option.some_inj] at accepted
      rw [← accepted]
      exact reached
  | cons class_ classes ih =>
      rw [List.map_cons, ClassGraph.run, Option.bind_eq_some_iff] at accepted
      obtain ⟨next, isNext, accepted⟩ := accepted
      have allowed : Allowed graph state (.define isLocal class_) := trivial
      exact ih (reached.step allowed isNext) accepted

theorem Reached.sound (reached : Reached graph state) : state.Sound graph := by
  induction reached with
  | empty => exact ⟨by simp, by simp⟩
  | step _ allowed accepted ih => exact ih.step allowed accepted

/-- Classes with a common subclass are not disjoint. -/
theorem ClassState.Sound.not_disjointClasses (sound : state.Sound graph)
    {class_ c1 c2 : Class} (isClass : class_ ∈ state.classes)
    (below1 : graph.isSubclass class_ c1 = true)
    (below2 : graph.isSubclass class_ c2 = true) :
    graph.disjointClasses state c1 c2 = false := by
  rw [Universe.isSubclass, decide_eq_true_eq] at below1 below2
  have joint := sound.joint class_ isClass c1 below1 c2 below2
  have primaries := sound.primaries class_ isClass c1 below1 c2 below2
  rw [ClassGraph.disjointClasses]
  rw [ClassGraph.Related] at joint primaries
  rw [Known] at joint
  by_cases lower : graph.isSubclass c1 c2 = true
  · simp [lower]
  · by_cases upper : graph.isSubclass c2 c1 = true
    · simp [upper]
    · have known := joint.resolve_left (by simp [lower, upper])
      have notBoth : ¬(graph.isPrimary c1 = true ∧
          graph.isPrimary c2 = true) := by
        intro both
        exact (primaries both.1 both.2).elim lower upper
      simp only [Bool.and_eq_false_iff, Bool.or_eq_false_iff,
        decide_eq_false_iff_not]
      right
      constructor
      · by_contra both
        simp_all
      · rcases known with known | known
        · exact .inl (by simp [known])
        · exact .inr (by simp [known])

/-- The class of an integer is `<integer>`. -/
theorem classOf_integer {value : Value wordSize Class Object}
    {integer : Fixnum wordSize}
    (isInteger : graph.integerValue value = some integer) :
    graph.classOf value = graph.integerRoot := by
  cases value with
  | object object =>
      have below := integerValue_below isInteger
      rw [Universe.isSubclass, decide_eq_true_eq] at below
      exact graph.integers object below
  | collection => cases isInteger

theorem disjointClasses_symm (c1 c2 : Class) :
    graph.disjointClasses state c1 c2 = graph.disjointClasses state c2 c1 := by
  rw [ClassGraph.disjointClasses, ClassGraph.disjointClasses,
    Bool.and_comm (!graph.isSubclass c1 c2), Bool.and_comm (graph.isPrimary c1),
    Bool.and_comm (decide (c1 ∉ state.knownJoint c2))]

/-- No class of limited collections is below two classes. -/
def ClassGraph.Separate (graph : ClassGraph wordSize Class Object)
    (state : ClassState Class) (c1 c2 : Class) : Prop :=
  ∀ class_ ∈ state.classes, graph.isCollectionClass class_ = true →
    graph.isSubclass class_ c1 = true → graph.isSubclass class_ c2 = false

theorem not_separate {c1 c2 : Class}
    (notSeparate : ¬graph.Separate state c1 c2) :
    ∃ own ∈ state.classes, graph.isCollectionClass own = true ∧
      graph.isSubclass own c1 = true ∧ graph.isSubclass own c2 = true := by
  simpa [ClassGraph.Separate] using notSeparate

end Joint

/-! ## Disjoint types -/

section Disjoint

variable {wordSize : Nat} {Class Object : Type}
  {graph : ClassGraph wordSize Class Object} {state : ClassState Class}
  {regime : Regime}

/-- The members of a union. -/
def parts : RuntimeType wordSize Class Object →
    List (RuntimeType wordSize Class Object)
  | .union type1 type2 => parts type1 ++ parts type2
  | type => [type]

theorem parts_admitted {type part : RuntimeType wordSize Class Object}
    (admitted : RuntimeType.Admitted graph.classRoot regime type)
    (member : part ∈ parts type) :
    isPart part = true ∧
      RuntimeType.Admitted graph.classRoot regime part := by
  induction type using RuntimeType.rec (motive_2 := fun _ => True) with
  | union type1 type2 ih1 ih2 =>
      rw [RuntimeType.Admitted] at admitted
      rw [parts, List.mem_append] at member
      exact member.elim (ih1 admitted.1) (ih2 admitted.2)
  | object => trivial
  | collection => trivial
  | _ =>
      simp only [parts, List.mem_singleton] at member
      rw [member]
      exact ⟨rfl, admitted⟩

variable [DecidableEq Class] [DecidableEq Object]

/-- The pairs for which a positive answer does not mislead.  A limited
collection type and a class are judged by whether all collections of the class
are of that type; two limited collection types by whether one is a subtype of
the other. -/
def ClassGraph.Told (graph : ClassGraph wordSize Class Object)
    (state : ClassState Class) :
    RuntimeType wordSize Class Object → RuntimeType wordSize Class Object →
      Prop
  | .class class_, .limitedCollection other _ _ =>
      graph.Separate state class_ other
  | .limitedCollection other _ _, .class class_ =>
      graph.Separate state other class_
  | .limitedCollection c1 elementType1 extent1,
      .limitedCollection c2 elementType2 extent2 =>
      graph.Separate state c1 c2 ∨
        graph.typeEquivalent elementType1 elementType2 = some false ∨
        ∃ size1 size2, extent1 = .size size1 ∧ extent2 = .size size2 ∧
          size1 ≠ size2
  | _, _ => True

/-- A value whose class, and the class that it is, are there. -/
def Present (graph : ClassGraph wordSize Class Object)
    (state : ClassState Class) (value : Value wordSize Class Object) : Prop :=
  graph.classOf value ∈ state.classes ∧
    ∀ self, graph.classValue value = some self → self ∈ state.classes

theorem disjointTypes_iff (type1 type2 : RuntimeType wordSize Class Object) :
    graph.disjointTypes state type1 type2 = some true ↔
      ∀ part1 ∈ parts type1, ∀ part2 ∈ parts type2,
        graph.disjointTypes1 state part1 part2 = some true := by
  induction type1, type2 using ClassGraph.disjointTypes.induct with
  | case1 left1 right1 left2 right2 ih1 ih2 ih3 ih4 =>
      rw [ClassGraph.disjointTypes, bothOf_eq_true, bothOf_eq_true,
        bothOf_eq_true, ih1, ih2, ih3, ih4]
      simp only [parts, List.mem_append]
      grind
  | case2 left right type2 notUnion ih1 ih2 =>
      rw [ClassGraph.disjointTypes, bothOf_eq_true, ih1, ih2]
      · simp only [parts, List.mem_append]
        grind
      · exact notUnion
  | case3 type1 left right notUnion ih1 ih2 =>
      rw [ClassGraph.disjointTypes, bothOf_eq_true, ih1, ih2]
      · simp only [parts, List.mem_append]
        grind
      · exact notUnion
  | case4 type1 type2 notBoth notUnion1 notUnion2 =>
      have part1 : parts type1 = [type1] := by
        cases type1 <;> simp_all [parts]
      have part2 : parts type2 = [type2] := by
        cases type2 <;> simp_all [parts]
      rw [part1, part2]
      cases type1 <;> cases type2 <;> simp_all [ClassGraph.disjointTypes]

theorem isInstance_parts {value : Value wordSize Class Object}
    {type : RuntimeType wordSize Class Object}
    (isInstance : graph.isInstance value type = some true) :
    ∃ part ∈ parts type, graph.isInstance value part = some true := by
  induction type using RuntimeType.rec (motive_2 := fun _ => True) with
  | union type1 type2 ih1 ih2 =>
      rw [CollectionUniverse.isInstance] at isInstance
      have either : graph.isInstance value type1 = some true ∨
          graph.isInstance value type2 = some true := by
        cases first : graph.isInstance value type1 with
        | none => simp [first, eitherOf] at isInstance
        | some answer =>
            cases answer <;> simp_all [eitherOf]
      rcases either with here | there
      · obtain ⟨part, member, holds⟩ := ih1 here
        exact ⟨part, List.mem_append_left _ member, holds⟩
      · obtain ⟨part, member, holds⟩ := ih2 there
        exact ⟨part, List.mem_append_right _ member, holds⟩
  | object => trivial
  | collection => trivial
  | _ => exact ⟨_, List.mem_singleton_self _, isInstance⟩

theorem isInstance_singleton {value other : Value wordSize Class Object} :
    graph.isInstance value (.singleton other) = some true ↔ value = other := by
  rw [CollectionUniverse.isInstance, Option.some_inj, decide_eq_true_eq]

theorem isInstance_subclass {value : Value wordSize Class Object}
    {class_ : Class} :
    graph.isInstance value (.subclass class_) = some true ↔
      ∃ self, graph.classValue value = some self ∧
        graph.isSubclass self class_ = true := by
  rw [CollectionUniverse.isInstance, Option.some_inj, Option.any_eq_true]

theorem isInstance_limitedInteger {value : Value wordSize Class Object}
    {minimum maximum : Option (Fixnum wordSize)} :
    graph.isInstance value (.limitedInteger minimum maximum) = some true ↔
      ∃ integer, graph.integerValue value = some integer ∧
        limitedIntegerInstance minimum maximum integer = true := by
  rw [CollectionUniverse.isInstance, Option.some_inj, Option.any_eq_true]

theorem typeEquivalent_answers {type1 type2 : RuntimeType wordSize Class Object}
    (admitted1 : RuntimeType.Admitted graph.classRoot regime type1)
    (admitted2 : RuntimeType.Admitted graph.classRoot regime type2) :
    graph.typeEquivalent type1 type2 ≠ none := by
  have answers : AnswersTo graph.toCollectionUniverse regime
      (sizeOf type1 + sizeOf type2) := subtype_ne_none _
  exact answers.typeEquivalent (Nat.le_refl _) admitted1 admitted2

/-- The answer for a singleton by the rule for types in general. -/
theorem disjointByDefault_singleton {value : Value wordSize Class Object}
    {type : RuntimeType wordSize Class Object}
    (disjoint : graph.disjointByDefault (.singleton value) type = some true) :
    graph.isInstance value type ≠ some true := by
  rw [ClassGraph.disjointByDefault, bothOf_eq_true, subtype_singleton,
    Option.map_eq_some_iff] at disjoint
  obtain ⟨⟨answer, isAnswer, isFalse⟩, -⟩ := disjoint
  rw [isAnswer]
  cases answer with
  | true => cases isFalse
  | false => simp

theorem disjointByDefault_symm {type1 type2 : RuntimeType wordSize Class Object}
    (disjoint : graph.disjointByDefault type1 type2 = some true) :
    graph.disjointByDefault type2 type1 = some true := by
  rw [ClassGraph.disjointByDefault, bothOf_eq_true] at disjoint ⊢
  exact disjoint.symm

theorem disjointBounds_symm
    (minimum1 maximum1 minimum2 maximum2 : Option (Fixnum wordSize)) :
    disjointBounds minimum1 maximum1 minimum2 maximum2 =
      disjointBounds minimum2 maximum2 minimum1 maximum1 := by
  rw [disjointBounds, disjointBounds, Bool.or_comm]

theorem disjointTypes1_symm {type1 type2 : RuntimeType wordSize Class Object}
    (disjoint : graph.disjointTypes1 state type1 type2 = some true) :
    graph.disjointTypes1 state type2 type1 = some true := by
  cases type1 <;> cases type2 <;>
    first
    | exact disjoint
    | exact disjointByDefault_symm disjoint
    | (rw [ClassGraph.disjointTypes1] at disjoint ⊢
       rw [disjointClasses_symm]
       exact disjoint)
    | (rw [ClassGraph.disjointTypes1] at disjoint ⊢
       rw [disjointBounds_symm]
       exact disjoint)
    | (simp only [ClassGraph.disjointTypes1, ne_eq, Option.some_inj,
         decide_eq_true_eq] at disjoint ⊢
       exact Ne.symm disjoint)

theorem liesBelow_apart {minimum1 maximum1 minimum2 maximum2 :
      Option (Fixnum wordSize)} {integer : Fixnum wordSize}
    (below : liesBelow maximum1 minimum2 = true)
    (inside1 : (∀ low ∈ minimum1, low.value ≤ integer.value) ∧
      ∀ high ∈ maximum1, integer.value ≤ high.value)
    (inside2 : (∀ low ∈ minimum2, low.value ≤ integer.value) ∧
      ∀ high ∈ maximum2, integer.value ≤ high.value) : False := by
  cases maximum1 with
  | none => simp [liesBelow] at below
  | some maximum =>
      cases minimum2 with
      | none => simp [liesBelow] at below
      | some minimum =>
          rw [liesBelow, decide_eq_true_eq] at below
          have most := inside1.2 maximum rfl
          have least := inside2.1 minimum rfl
          omega

/-- No common instance of two parts of types, in one order. -/
theorem ClassState.Sound.not_common (words : 3 ≤ wordSize)
    (sound : state.Sound graph) {value : Value wordSize Class Object}
    (present : Present graph state value)
    (admitted : Value.Admitted graph.classRoot regime value)
    {type1 type2 : RuntimeType wordSize Class Object}
    (part1 : isPart type1 = true) (part2 : isPart type2 = true)
    (admitted1 : RuntimeType.Admitted graph.classRoot regime type1)
    (admitted2 : RuntimeType.Admitted graph.classRoot regime type2)
    (told : graph.Told state type1 type2)
    (disjoint : graph.disjointTypes1 state type1 type2 = some true)
    (isInstance1 : graph.isInstance value type1 = some true)
    (isInstance2 : graph.isInstance value type2 = some true) : False := by
  have apart : ∀ {c1 c2 : Class}, graph.disjointClasses state c1 c2 = true →
      graph.isSubclass (graph.classOf value) c1 = true →
      graph.isSubclass (graph.classOf value) c2 = true → False := by
    intro c1 c2 answer below1 below2
    rw [sound.not_disjointClasses present.1 below1 below2] at answer
    cases answer
  have metaApart : ∀ {class_ lower : Class},
      graph.disjointClasses state graph.classRoot class_ = true →
      graph.isInstance value (.subclass lower) = some true →
      graph.isSubclass (graph.classOf value) class_ = true → False := by
    intro class_ lower answer isInstance below
    obtain ⟨self, isClass, -⟩ := isInstance_subclass.mp isInstance
    exact apart answer (classValue_below isClass) below
  cases type1 with
  | union _ _ => simp [isPart] at part1
  | «class» c1 =>
      rw [isInstance_class] at isInstance1
      cases type2 with
      | union _ _ => simp [isPart] at part2
      | «class» c2 =>
          rw [isInstance_class] at isInstance2
          rw [ClassGraph.disjointTypes1, Option.some_inj] at disjoint
          exact apart disjoint isInstance1 isInstance2
      | singleton other =>
          rw [isInstance_singleton] at isInstance2
          rw [isInstance2] at isInstance1
          simp [ClassGraph.disjointTypes1, ClassGraph.hasInstances,
            isInstance1] at disjoint
      | subclass lower =>
          rw [ClassGraph.disjointTypes1, Option.some_inj] at disjoint
          exact metaApart disjoint isInstance2 isInstance1
      | limitedInteger minimum maximum =>
          obtain ⟨integer, isInteger, -⟩ :=
            isInstance_limitedInteger.mp isInstance2
          rw [classOf_integer isInteger] at isInstance1
          simp [ClassGraph.disjointTypes1, ClassGraph.hasInstances,
            isInstance1] at disjoint
      | limitedCollection other elementType extent =>
          obtain ⟨identity, own, ownType, dimensions, rfl, isCollection, below,
            -⟩ := isInstance_limitedCollection.mp isInstance2
          rw [told own present.1 isCollection isInstance1] at below
          cases below
  | singleton other =>
      rw [isInstance_singleton] at isInstance1
      cases type2 with
      | union _ _ => simp [isPart] at part2
      | «class» c2 =>
          rw [isInstance_class, isInstance1] at isInstance2
          simp [ClassGraph.disjointTypes1, ClassGraph.hasInstances,
            isInstance2] at disjoint
      | singleton another =>
          rw [isInstance_singleton, isInstance1] at isInstance2
          simp [ClassGraph.disjointTypes1, isInstance2] at disjoint
      | _ =>
          rw [isInstance1] at isInstance2
          exact disjointByDefault_singleton disjoint isInstance2
  | subclass lower =>
      cases type2 with
      | union _ _ => simp [isPart] at part2
      | «class» c2 =>
          rw [isInstance_class] at isInstance2
          rw [ClassGraph.disjointTypes1, Option.some_inj] at disjoint
          exact metaApart disjoint isInstance1 isInstance2
      | singleton other =>
          rw [isInstance_singleton] at isInstance2
          rw [isInstance2] at isInstance1
          exact disjointByDefault_singleton (disjointByDefault_symm disjoint)
            isInstance1
      | subclass upper =>
          obtain ⟨self, isClass, below⟩ := isInstance_subclass.mp isInstance1
          obtain ⟨same, isClassToo, belowToo⟩ :=
            isInstance_subclass.mp isInstance2
          rw [isClass, Option.some_inj] at isClassToo
          rw [← isClassToo] at belowToo
          rw [ClassGraph.disjointTypes1, Option.some_inj,
            sound.not_disjointClasses (present.2 self isClass) below belowToo]
            at disjoint
          cases disjoint
      | limitedInteger minimum maximum =>
          simp only [RuntimeType.Admitted] at admitted1 admitted2
          rw [admitted1.1] at admitted2
          cases admitted2.1
      | limitedCollection other elementType extent =>
          obtain ⟨identity, own, ownType, dimensions, rfl, -⟩ :=
            isInstance_limitedCollection.mp isInstance2
          obtain ⟨self, isClass, -⟩ := isInstance_subclass.mp isInstance1
          cases isClass
  | limitedInteger minimum maximum =>
      obtain ⟨integer, isInteger, inside⟩ :=
        isInstance_limitedInteger.mp isInstance1
      cases type2 with
      | union _ _ => simp [isPart] at part2
      | «class» c2 =>
          rw [isInstance_class, classOf_integer isInteger] at isInstance2
          simp [ClassGraph.disjointTypes1, ClassGraph.hasInstances,
            isInstance2] at disjoint
      | singleton other =>
          rw [isInstance_singleton] at isInstance2
          rw [isInstance2] at isInstance1
          exact disjointByDefault_singleton (disjointByDefault_symm disjoint)
            isInstance1
      | subclass upper =>
          simp only [RuntimeType.Admitted] at admitted1 admitted2
          rw [admitted2.1] at admitted1
          cases admitted1.1
      | limitedInteger minimum2 maximum2 =>
          obtain ⟨same, isIntegerToo, insideToo⟩ :=
            isInstance_limitedInteger.mp isInstance2
          rw [isInteger, Option.some_inj] at isIntegerToo
          rw [← isIntegerToo] at insideToo
          simp only [RuntimeType.Admitted] at admitted1 admitted2
          rw [limitedIntegerInstance_iff words admitted1.2] at inside
          rw [limitedIntegerInstance_iff words admitted2.2] at insideToo
          rw [ClassGraph.disjointTypes1, Option.some_inj, disjointBounds,
            Bool.or_eq_true] at disjoint
          rcases disjoint with below | below
          · exact liesBelow_apart below inside insideToo
          · exact liesBelow_apart below insideToo inside
      | limitedCollection other elementType extent =>
          obtain ⟨identity, own, ownType, dimensions, rfl, -⟩ :=
            isInstance_limitedCollection.mp isInstance2
          cases isInteger
  | limitedCollection c1 elementType1 extent1 =>
      obtain ⟨identity, own, ownType, dimensions, rfl, isCollection, below1,
        same1, allows1⟩ := isInstance_limitedCollection.mp isInstance1
      cases type2 with
      | union _ _ => simp [isPart] at part2
      | «class» c2 =>
          rw [isInstance_class] at isInstance2
          have notBelow : graph.isSubclass own c2 = false :=
            told own present.1 isCollection below1
          rw [CollectionUniverse.classOf, notBelow] at isInstance2
          cases isInstance2
      | singleton other =>
          rw [isInstance_singleton] at isInstance2
          rw [isInstance2] at isInstance1
          exact disjointByDefault_singleton (disjointByDefault_symm disjoint)
            isInstance1
      | subclass upper =>
          obtain ⟨self, isClass, -⟩ := isInstance_subclass.mp isInstance2
          cases isClass
      | limitedInteger minimum2 maximum2 =>
          obtain ⟨integer, isInteger, -⟩ :=
            isInstance_limitedInteger.mp isInstance2
          cases isInteger
      | limitedCollection c2 elementType2 extent2 =>
          obtain ⟨_, _, _, _, equal, -, below2, same2, allows2⟩ :=
            isInstance_limitedCollection.mp isInstance2
          cases equal
          rw [ClassGraph.Told] at told
          rcases told with separate | different |
            ⟨size1, size2, rfl, rfl, differ⟩
          · rw [separate own present.1 isCollection below1] at below2
            cases below2
          · rw [Value.Admitted] at admitted
            simp only [RuntimeType.Admitted] at admitted1 admitted2
            have equivalent := (subtype_transitive words _).typeEquivalent
              (Nat.le_refl _) admitted1.1 admitted admitted2.1
              ((typeEquivalent_iff admitted1.1).mpr
                ((typeEquivalent_iff admitted).mp same1).symm) same2
            rw [different] at equivalent
            cases equivalent
          · simp only [Extent.allows, decide_eq_true_eq] at allows1 allows2
            exact differ (allows1.symm.trans allows2)

theorem disjointTypes1_ne_none {type1 type2 : RuntimeType wordSize Class Object}
    (admitted1 : RuntimeType.Admitted graph.classRoot regime type1)
    (admitted2 : RuntimeType.Admitted graph.classRoot regime type2) :
    graph.disjointTypes1 state type1 type2 ≠ none := by
  have byDefault : graph.disjointByDefault type1 type2 ≠ none := by
    apply bothOf_ne_none
    · rw [ne_eq, Option.map_eq_none_iff]
      exact subtype_answers admitted1 admitted2
    · rw [ne_eq, Option.map_eq_none_iff]
      exact subtype_answers admitted2 admitted1
  cases type1 <;> cases type2 <;>
    first
    | exact byDefault
    | exact Option.some_ne_none _

theorem disjointTypes_ne_none (type1 type2 : RuntimeType wordSize Class Object)
    (admitted1 : RuntimeType.Admitted graph.classRoot regime type1)
    (admitted2 : RuntimeType.Admitted graph.classRoot regime type2) :
    graph.disjointTypes state type1 type2 ≠ none := by
  induction type1, type2 using ClassGraph.disjointTypes.induct with
  | case1 left1 right1 left2 right2 ih1 ih2 ih3 ih4 =>
      simp only [RuntimeType.Admitted] at admitted1 admitted2
      rw [ClassGraph.disjointTypes]
      apply bothOf_ne_none (ih1 admitted1.1 admitted2.1)
      apply bothOf_ne_none (ih2 admitted1.1 admitted2.2)
      exact bothOf_ne_none (ih3 admitted1.2 admitted2.1)
        (ih4 admitted1.2 admitted2.2)
  | case2 left right type2 notUnion ih1 ih2 =>
      rw [RuntimeType.Admitted] at admitted1
      rw [ClassGraph.disjointTypes]
      · exact bothOf_ne_none (ih1 admitted1.1 admitted2)
          (ih2 admitted1.2 admitted2)
      · exact notUnion
  | case3 type1 left right notUnion ih1 ih2 =>
      rw [RuntimeType.Admitted] at admitted2
      rw [ClassGraph.disjointTypes]
      · exact bothOf_ne_none (ih1 admitted1 admitted2.1)
          (ih2 admitted1 admitted2.2)
      · exact notUnion
  | case4 type1 type2 notBoth notUnion1 notUnion2 =>
      rw [ClassGraph.disjointTypes]
      · exact disjointTypes1_ne_none admitted1 admitted2
      · exact notUnion1
      · exact notUnion2
      · exact notBoth

theorem disjointTypes_symm {type1 type2 : RuntimeType wordSize Class Object}
    (admitted1 : RuntimeType.Admitted graph.classRoot regime type1)
    (admitted2 : RuntimeType.Admitted graph.classRoot regime type2) :
    graph.disjointTypes state type1 type2 =
      graph.disjointTypes state type2 type1 := by
  have answers := @disjointTypes_ne_none wordSize Class Object graph state
    regime _ _
  have same : graph.disjointTypes state type1 type2 = some true ↔
      graph.disjointTypes state type2 type1 = some true := by
    rw [disjointTypes_iff, disjointTypes_iff]
    constructor
    · intro disjoint part2 member2 part1 member1
      exact disjointTypes1_symm (disjoint part1 member1 part2 member2)
    · intro disjoint part1 member1 part2 member2
      exact disjointTypes1_symm (disjoint part2 member2 part1 member1)
  cases first : graph.disjointTypes state type1 type2 with
  | none => exact absurd first (answers type1 type2 admitted1 admitted2)
  | some answer =>
      cases second : graph.disjointTypes state type2 type1 with
      | none => exact absurd second (answers type2 type1 admitted2 admitted1)
      | some other =>
          rw [first, second] at same
          cases answer <;> cases other <;> simp_all

/-! ## Pairs for which the answer misleads -/

theorem isInstance_of_part {value : Value wordSize Class Object}
    {type part : RuntimeType wordSize Class Object}
    (valueAdmitted : Value.Admitted graph.classRoot regime value)
    (admitted : RuntimeType.Admitted graph.classRoot regime type)
    (member : part ∈ parts type)
    (isInstance : graph.isInstance value part = some true) :
    graph.isInstance value type = some true := by
  induction type using RuntimeType.rec (motive_2 := fun _ => True) with
  | union type1 type2 ih1 ih2 =>
      rw [RuntimeType.Admitted] at admitted
      rw [parts, List.mem_append] at member
      have answers : graph.isInstance value type1 ≠ none := by
        rw [← subtype_singleton]
        apply subtype_answers _ admitted.1
        rw [RuntimeType.Admitted]
        exact valueAdmitted
      rw [CollectionUniverse.isInstance, eitherOf_eq_true answers]
      exact member.imp (ih1 admitted.1) (ih2 admitted.2)
  | object => trivial
  | collection => trivial
  | _ =>
      rw [List.mem_singleton.mp member] at isInstance
      exact isInstance

/-- Limits that are not two sizes allow common dimensions. -/
theorem Extent.common {extent1 extent2 : Extent}
    (admitted1 : Extent.Admitted regime extent1)
    (admitted2 : Extent.Admitted regime extent2)
    (same : ¬∃ size1 size2, extent1 = .size size1 ∧ extent2 = .size size2 ∧
      size1 ≠ size2) :
    ∃ dimensions, extent1.allows dimensions = true ∧
      extent2.allows dimensions = true := by
  cases extent1 with
  | unlimited =>
      cases extent2 with
      | unlimited => exact ⟨[], rfl, rfl⟩
      | size size2 => exact ⟨[size2], rfl, by simp [Extent.allows]⟩
      | dimensions _ => exact ⟨[], rfl, rfl⟩
  | size size1 =>
      cases extent2 with
      | unlimited => exact ⟨[size1], by simp [Extent.allows], rfl⟩
      | size size2 =>
          have equal : size1 = size2 := by
            by_contra differ
            exact same ⟨size1, size2, rfl, rfl, differ⟩
          rw [equal]
          exact ⟨[size2], by simp [Extent.allows], by simp [Extent.allows]⟩
      | dimensions _ =>
          simp only [Extent.Admitted] at admitted1 admitted2
          rw [admitted1] at admitted2
          cases admitted2
  | dimensions _ =>
      cases extent2 with
      | unlimited => exact ⟨[], rfl, rfl⟩
      | size _ =>
          simp only [Extent.Admitted] at admitted1 admitted2
          rw [admitted1] at admitted2
          cases admitted2
      | dimensions _ => exact ⟨[], rfl, rfl⟩

/-- A class of limited collections has a collection with any element type. -/
theorem isInstance_collection {identity : Nat} {own class_ : Class}
    {ownType elementType : RuntimeType wordSize Class Object}
    {dimensions : List Nat} {extent : Extent}
    (isCollection : graph.isCollectionClass own = true)
    (below : graph.isSubclass own class_ = true)
    (same : graph.typeEquivalent ownType elementType = some true)
    (allows : extent.allows dimensions = true) :
    graph.isInstance (.collection identity own ownType dimensions)
      (.limitedCollection class_ elementType extent) = some true :=
  isInstance_limitedCollection.mpr ⟨identity, own, ownType, dimensions, rfl,
    isCollection, below, same, allows⟩

theorem typeEquivalent_self (type : RuntimeType wordSize Class Object) :
    graph.typeEquivalent type type = some true := by
  rw [CollectionUniverse.typeEquivalent, if_pos rfl]

/-- An object of two types for which the answer can mislead. -/
theorem common_of_not_told {type1 type2 : RuntimeType wordSize Class Object}
    (admitted1 : RuntimeType.Admitted graph.classRoot regime type1)
    (admitted2 : RuntimeType.Admitted graph.classRoot regime type2)
    (notTold : ¬graph.Told state type1 type2) :
    ∃ value, Present graph state value ∧
      Value.Admitted graph.classRoot regime value ∧
      graph.isInstance value type1 = some true ∧
      graph.isInstance value type2 = some true := by
  cases type1 with
  | «class» class_ =>
      cases type2 with
      | limitedCollection other elementType extent =>
          rw [RuntimeType.Admitted] at admitted2
          obtain ⟨own, isClass, isCollection, below, belowToo⟩ :=
            not_separate notTold
          obtain ⟨dimensions, allows, -⟩ := Extent.common admitted2.2
            admitted2.2 (by rintro ⟨_, _, rfl, equal, differ⟩; cases equal
                            exact differ rfl)
          refine ⟨.collection 0 own elementType dimensions,
            ⟨isClass, fun self isSelf => by cases isSelf⟩, ?_,
            isInstance_class.mpr below,
            isInstance_collection isCollection belowToo
              (typeEquivalent_self elementType) allows⟩
          rw [Value.Admitted]
          exact admitted2.1
      | _ => exact absurd trivial notTold
  | limitedCollection c1 elementType1 extent1 =>
      rw [RuntimeType.Admitted] at admitted1
      cases type2 with
      | «class» class_ =>
          obtain ⟨own, isClass, isCollection, below, belowToo⟩ :=
            not_separate notTold
          obtain ⟨dimensions, allows, -⟩ := Extent.common admitted1.2
            admitted1.2 (by rintro ⟨_, _, rfl, equal, differ⟩; cases equal
                            exact differ rfl)
          refine ⟨.collection 0 own elementType1 dimensions,
            ⟨isClass, fun self isSelf => by cases isSelf⟩, ?_,
            isInstance_collection isCollection below
              (typeEquivalent_self elementType1) allows,
            isInstance_class.mpr belowToo⟩
          rw [Value.Admitted]
          exact admitted1.1
      | limitedCollection c2 elementType2 extent2 =>
          rw [RuntimeType.Admitted] at admitted2
          rw [ClassGraph.Told, not_or, not_or] at notTold
          obtain ⟨own, isClass, isCollection, below, belowToo⟩ :=
            not_separate notTold.1
          obtain ⟨dimensions, allows1, allows2⟩ := Extent.common admitted1.2
            admitted2.2 notTold.2.2
          have same : graph.typeEquivalent elementType1 elementType2 =
              some true := by
            cases answer : graph.typeEquivalent elementType1 elementType2 with
            | none =>
                exact absurd answer (typeEquivalent_answers admitted1.1
                  admitted2.1)
            | some value =>
                cases value with
                | true => rfl
                | false => exact absurd answer notTold.2.1
          refine ⟨.collection 0 own elementType1 dimensions,
            ⟨isClass, fun self isSelf => by cases isSelf⟩, ?_,
            isInstance_collection isCollection below
              (typeEquivalent_self elementType1) allows1,
            isInstance_collection isCollection belowToo same allows2⟩
          rw [Value.Admitted]
          exact admitted1.1
      | _ => exact absurd trivial notTold
  | _ => exact absurd trivial notTold

end Disjoint

/-! ## Limited vectors -/

/-- `<object>`, `<class>`, `<integer>`, `<limited-collection>`, `<sequence>`,
`<vector>` and a class of limited vectors. -/
def vectorGraph : ClassGraph 64 (Fin 7) (Fin 1) where
  allSuperclasses class_ :=
    if class_ = 0 then [0]
    else if class_ = 5 then [5, 4, 0]
    else if class_ = 6 then [6, 3, 5, 4, 0]
    else [class_, 0]
  objectClass _ := 0
  asClass _ := none
  asInteger _ := none
  objectRoot := 0
  classRoot := 1
  integerRoot := 2
  self_mem := by decide
  nodup := by decide
  trans := by decide
  antisymm := by decide
  object_mem := by decide
  asClass_isSome _ := by simp
  asClass_injective := by simp
  asInteger_isSome _ := by simp
  limitedCollectionRoot := 3
  otherCollectionRoots := []
  isPrimary _ := false
  head := by decide
  ordered := by decide
  integers := by decide

/-- Before and after the definition of all classes but the last. -/
def noClasses : ClassState (Fin 7) :=
  { classes := [], knownJoint := fun _ => [] }

def definedClasses : ClassState (Fin 7) :=
  { classes := [5, 4, 3, 2, 1, 0], knownJoint := fun _ => [] }

/-- All classes, the last one defined and made at run time. -/
def allDefined : ClassState (Fin 7) :=
  { classes := [6, 5, 4, 3, 2, 1, 0]
    knownJoint := vectorGraph.noteAllJoint (fun _ => true) [3, 5, 4, 0]
      fun _ => [] }

def lastMade : ClassState (Fin 7) :=
  { classes := [6, 5, 4, 3, 2, 1, 0], knownJoint := fun _ => [] }

/-- A limited vector of three objects. -/
def threeObjects : Value 64 (Fin 7) (Fin 1) :=
  .collection 0 6 (.class 0) [3]

end OpenDylan.Runtime.Disjointness
