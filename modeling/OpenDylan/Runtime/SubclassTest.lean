import OpenDylan.Runtime.ClassPrecedence

/-!
# The constant-time subclass test

Every class has a vector with its precedence list in reverse, so that a class
that is inherited singly stands at the same position in the vectors of all its
subclasses.  The test of whether a class inherits from another one looks that
position up; where multiple inheritance has moved a class, the other positions
that it has in some vector are recorded with it, in order.  The way in which
instances are checked is chosen by the positions recorded.

Classes that are recognised by a bit mask, which only the compiler makes, and
the check for unrelated primary classes are left out.
-/

namespace OpenDylan.Runtime.SubclassTest

open OpenDylan.Lib.Merging
open OpenDylan.Runtime.ClassPrecedence

variable {Class : Type} [DecidableEq Class]

/-! ## The classes of a program -/

/-- The functions that check instances of a class. -/
inductive Strategy where
  | never
  | initial
  | rcplSingleSmall
  | rcplSingleLarge
  | generalRcpl
deriving DecidableEq

/-- The classes created so far, with the slots of their implementation
classes. -/
structure Program (Class : Type) where
  created : List Class
  directSuperclasses : Class → List Class
  classRcplVector : Class → List (Option Class)
  classRcplPosition : Class → Int
  classRcplOtherPositions : Class → List Int
  instanceIep : Class → Strategy

/-- `all-superclasses`: the vector from its beginning to the position of the
class, in reverse. -/
def Program.allSuperclasses (program : Program Class) (c : Class) :
    List Class :=
  (((program.classRcplVector c).take
    (program.classRcplPosition c + 1).toNat).filterMap id).reverse

/-- The precedence lists of a program. -/
def Program.table (program : Program Class) : ClassTable Class where
  created := program.created
  directSuperclasses := program.directSuperclasses
  allSuperclasses := program.allSuperclasses

/-- `$min-rcpl-size` -/
def minRcplSize : Nat := 6

/-- The vector that `compute-cpl-rcpl-stuff` fills. -/
def rcplVector (cpl : List Class) : List (Option Class) :=
  cpl.reverse.map some ++ List.replicate (minRcplSize - cpl.length) none

/-! ## Recording positions -/

/-- `initialize-class-instance?-iep` -/
def strategy (position : Int) (otherPositions : List Int) : Strategy :=
  if otherPositions.length > 0 then
    .generalRcpl
  else if position < 0 then
    .initial
  else if position < minRcplSize then
    .rcplSingleSmall
  else
    .rcplSingleLarge

/-- The local method `foo` of `augment-iclass-rcpl-position-data` -/
def insertPosition (position : Int) : List Int → List Int
  | [] => [position]
  | other :: others =>
      if other < position then
        other :: insertPosition position others
      else
        position :: other :: others

/-- Why a class cannot be created. -/
inductive CreationError where
  | precedence (message : String)
  | assertionFailed
deriving DecidableEq

/-- `augment-iclass-rcpl-position-data` -/
def augmentIclassRcplPositionData (program : Program Class) (c : Class)
    (pos : Int) : Except CreationError (Program Class) :=
  let firstPos := program.classRcplPosition c
  let others := program.classRcplOtherPositions c
  if pos = firstPos ∨ pos ∈ others then
    .ok program
  else if firstPos = -1 then
    .ok { program with
      classRcplPosition := Function.update program.classRcplPosition c pos
      instanceIep := Function.update program.instanceIep c
        (strategy pos others) }
  else if pos ≥ firstPos then
    .ok { program with
      classRcplOtherPositions :=
        Function.update program.classRcplOtherPositions c
          (insertPosition pos others)
      instanceIep := Function.update program.instanceIep c
        (strategy firstPos (insertPosition pos others)) }
  else
    .error .assertionFailed

/-- The loop of `augment-superior-rcpls` over the superclasses of a class with
their positions. -/
def augmentSuperiors (objectRoot c : Class) :
    List (Class × Nat) → Program Class →
      Except CreationError (Program Class)
  | [], program => .ok program
  | (super, pos) :: rest, program =>
      if super = c ∨ super = objectRoot then
        augmentSuperiors objectRoot c rest program
      else
        match augmentIclassRcplPositionData program super pos with
        | .error error => .error error
        | .ok program => augmentSuperiors objectRoot c rest program

/-- The classes of a precedence list with their positions, down to position
1. -/
def superiors : List Class → List (Class × Nat)
  | [] => []
  | [_] => []
  | c :: rest => (c, rest.length) :: superiors rest

/-! ## Creating classes -/

/-- The slots of a new class before its superclasses are told. -/
def Program.add (program : Program Class) (c : Class)
    (supers cpl : List Class) : Program Class where
  created := c :: program.created
  directSuperclasses := Function.update program.directSuperclasses c supers
  classRcplVector := Function.update program.classRcplVector c
    (rcplVector cpl)
  classRcplPosition := Function.update program.classRcplPosition c
    (cpl.length - 1)
  classRcplOtherPositions := Function.update program.classRcplOtherPositions
    c []
  instanceIep := Function.update program.instanceIep c
    (strategy (cpl.length - 1) [])

/-- `initialize` of a class with some direct superclasses, which install the
implementation class. -/
def createClass (objectRoot : Class) (program : Program Class) (c : Class)
    (supers : List Class) : Except CreationError (Program Class) :=
  match computeImplementationClassPrecedenceList program.table c supers with
  | .error message => .error (.precedence message)
  | .ok linearization =>
      augmentSuperiors objectRoot c (superiors linearization.precedenceList)
        (program.add c supers linearization.precedenceList)

/-- The program with only `<object>`. -/
def rootProgram (objectRoot : Class) : Program Class where
  created := [objectRoot]
  directSuperclasses _ := []
  classRcplVector _ := rcplVector [objectRoot]
  classRcplPosition _ := 0
  classRcplOtherPositions _ := []
  instanceIep _ := strategy 0 []

/-- The programs that creating classes one after the other leads to; every
class but `<object>` has a direct superclass. -/
inductive Reachable (objectRoot : Class) : Program Class → Prop where
  | root : Reachable objectRoot (rootProgram objectRoot)
  | create {program next : Program Class} {c : Class} {supers : List Class}
      (earlier : Reachable objectRoot program)
      (fresh : c ∉ program.created)
      (known : ∀ s ∈ supers, s ∈ program.created)
      (inherits : supers ≠ [])
      (created : createClass objectRoot program c supers = .ok next) :
      Reachable objectRoot next

/-! ## The tests -/

/-- `vector-element`, which does not check the index; `none` when there is no
such element. -/
def vectorElement (vector : List (Option Class)) (index : Int) :
    Option (Option Class) :=
  if index < 0 then none else vector[index.toNat]?

/-- The local method `loop` of `rcpl-isubclass?` -/
def searchPositions (rcpl : List (Option Class)) (sup : Class) :
    List Int → Option Bool
  | [] => some false
  | rpos :: rest =>
      if rpos < rcpl.length then
        (vectorElement rcpl rpos).bind fun found =>
          if found = some sup then some true else searchPositions rcpl sup rest
      else
        some false

/-- `rcpl-isubclass?` -/
def rcplIsubclass (program : Program Class) (sub sup : Class) : Option Bool :=
  if sub = sup then
    some true
  else
    let position := program.classRcplPosition sup
    let rcpl := program.classRcplVector sub
    if position ≥ rcpl.length then
      some false
    else
      (vectorElement rcpl position).bind fun found =>
        if found = some sup then
          some true
        else
          searchPositions rcpl sup (program.classRcplOtherPositions sup)

/-- `subclass?` of created classes. -/
def subclass (program : Program Class) (x y : Class) : Option Bool :=
  rcplIsubclass program x y

/-- The functions that check whether a direct instance of a class is an
instance of another class. -/
def classInstance (program : Program Class) (subc cls : Class) :
    Strategy → Option Bool
  | .never => some false
  | .initial => some (subc = cls)
  | .rcplSingleSmall =>
      if subc = cls then
        some true
      else
        (vectorElement (program.classRcplVector subc)
          (program.classRcplPosition cls)).map
            fun found => found = some cls
  | .rcplSingleLarge =>
      if cls = subc then
        some true
      else
        let position := program.classRcplPosition cls
        let rcpl := program.classRcplVector subc
        if position < rcpl.length then
          (vectorElement rcpl position).map fun found => found = some cls
        else
          some false
  | .generalRcpl => rcplIsubclass program subc cls

/-- `instance?` of a direct instance of a class. -/
def isInstance (program : Program Class) (subc cls : Class) : Option Bool :=
  classInstance program subc cls (program.instanceIep cls)

/-! ## Reversed precedence lists -/

omit [DecidableEq Class] in
theorem reverse_getElem? {list : List Class} {index : Nat} {c : Class} :
    list.reverse[index]? = some c ↔
      ∃ before after, list = before ++ c :: after ∧ after.length = index := by
  constructor
  · intro found
    obtain ⟨bound, same⟩ := List.getElem?_eq_some_iff.mp found
    have split := List.take_append_drop index list.reverse
    rw [List.drop_eq_getElem_cons bound, same] at split
    have whole := congrArg List.reverse split
    rw [List.reverse_reverse, List.reverse_append, List.reverse_cons,
      List.append_assoc] at whole
    refine ⟨(list.reverse.drop (index + 1)).reverse,
      (list.reverse.take index).reverse, whole.symm, ?_⟩
    rw [List.length_reverse, List.length_take]
    exact Nat.min_eq_left (Nat.le_of_lt bound)
  · rintro ⟨before, after, rfl, rfl⟩
    rw [List.reverse_append, List.reverse_cons, List.append_assoc,
      List.getElem?_append_right (by simp), List.length_reverse, Nat.sub_self]
    rfl

omit [DecidableEq Class] in
theorem rcplVector_getElem? {cpl : List Class} {index : Nat} {c : Class} :
    (rcplVector cpl)[index]? = some (some c) ↔
      ∃ before after, cpl = before ++ c :: after ∧ after.length = index := by
  rw [← reverse_getElem?, rcplVector]
  by_cases inside : index < cpl.length
  · rw [List.getElem?_append_left (by simpa using inside), List.getElem?_map]
    cases cpl.reverse[index]? with
    | none => simp
    | some found => simp
  · have outside : cpl.reverse[index]? = none := by
      rw [List.getElem?_eq_none_iff, List.length_reverse]
      exact Nat.le_of_not_lt inside
    rw [List.getElem?_append_right (by simpa using Nat.le_of_not_lt inside),
      outside]
    constructor
    · intro found
      have member := List.mem_of_getElem? found
      exact absurd (List.eq_of_mem_replicate member) (by simp)
    · intro found
      cases found

omit [DecidableEq Class] in
theorem rcplVector_length (cpl : List Class) :
    cpl.length ≤ (rcplVector cpl).length ∧
      minRcplSize ≤ (rcplVector cpl).length := by
  simp only [rcplVector, List.length_append, List.length_map,
    List.length_reverse, List.length_replicate]
  omega

omit [DecidableEq Class] in
/-- What a read of the vector of a precedence list finds. -/
theorem vectorElement_rcplVector {cpl : List Class} {index : Int}
    (inside : 0 ≤ index ∧ index < (rcplVector cpl).length) :
    ∃ found, vectorElement (rcplVector cpl) index = some found ∧
      ∀ c, found = some c ↔ ∃ before after, cpl = before ++ c :: after ∧
        (after.length : Int) = index := by
  obtain ⟨position, rfl⟩ := Int.eq_ofNat_of_zero_le inside.1
  have bound : position < (rcplVector cpl).length := by
    exact_mod_cast inside.2
  refine ⟨(rcplVector cpl)[position], ?_, ?_⟩
  · rw [vectorElement, if_neg (Int.not_lt.mpr inside.1)]
    exact List.getElem?_eq_getElem bound
  · intro c
    have read : (rcplVector cpl)[position]? = some (some c) ↔ _ :=
      rcplVector_getElem?
    rw [List.getElem?_eq_getElem bound, Option.some.injEq] at read
    rw [read]
    constructor
    · rintro ⟨before, after, shape, length⟩
      exact ⟨before, after, shape, by exact_mod_cast length⟩
    · rintro ⟨before, after, shape, length⟩
      exact ⟨before, after, shape, by exact_mod_cast length⟩

omit [DecidableEq Class] in
/-- A class that begins one list stands in another list that contains the
first one before all the rest of it. -/
theorem sublist_after {c : Class} {rest before after : List Class}
    (sublist : (c :: rest).Sublist (before ++ c :: after))
    (fresh : c ∉ before) : rest.Sublist after := by
  induction before with
  | nil => exact List.cons_sublist_cons.mp sublist
  | cons first before ih =>
      rw [List.mem_cons, not_or] at fresh
      rcases List.sublist_cons_iff.mp sublist with below | ⟨tail, shape, -⟩
      · exact ih below fresh.2
      · cases shape
        exact absurd rfl fresh.1

section Positions

variable {table : ClassTable Class}

omit [DecidableEq Class] in
/-- The rest of a class's own list comes after the class in every list. -/
theorem rest_sublist (linearized : Linearized table)
    {x c : Class} (member : x ∈ table.created) {before after : List Class}
    (shape : table.allSuperclasses x = before ++ c :: after) :
    ∃ rest, table.allSuperclasses c = c :: rest ∧ rest.Sublist after := by
  have superclass : c ∈ table.allSuperclasses x := by
    rw [shape]
    simp
  obtain ⟨rest, own⟩ :=
    linearized.head c (linearized.created_of_mem member superclass)
  refine ⟨rest, own, ?_⟩
  have sublist := linearized.monotonic x member c superclass
  rw [own, shape] at sublist
  apply sublist_after sublist
  have nodup := linearized.nodup x member
  rw [shape, List.nodup_append] at nodup
  exact fun inside => nodup.2.2 c inside c (by simp) rfl

omit [DecidableEq Class] in
/-- A class that all classes inherit from comes last. -/
theorem last_of_root (linearized : Linearized table)
    {objectRoot : Class}
    (rooted : ∀ c ∈ table.created, objectRoot ∈ table.allSuperclasses c)
    {x : Class} (member : x ∈ table.created) {before after : List Class}
    (shape : table.allSuperclasses x = before ++ objectRoot :: after) :
    after = [] := by
  cases after with
  | nil => rfl
  | cons next after =>
      -- The root would come again after the class that follows it.
      exfalso
      have regroup : table.allSuperclasses x =
          (before ++ [objectRoot]) ++ next :: after := by
        rw [shape]
        simp
      have inherited : next ∈ table.allSuperclasses x := by
        rw [shape]
        simp
      obtain ⟨rest, own, sublist⟩ := rest_sublist linearized member regroup
      have root := rooted next (linearized.created_of_mem member inherited)
      have nodup := linearized.nodup x member
      rw [shape, List.nodup_append, List.nodup_cons] at nodup
      rw [own] at root
      rcases List.mem_cons.mp root with same | later
      · exact nodup.2.1.1 (same ▸ List.mem_cons_self ..)
      · exact nodup.2.1.1 (List.mem_cons_of_mem _ (sublist.subset later))

end Positions

/-! ## Sorted positions -/

theorem mem_insertPosition {position p : Int} {others : List Int} :
    p ∈ insertPosition position others ↔ p = position ∨ p ∈ others := by
  induction others with
  | nil => simp [insertPosition]
  | cons other others ih =>
      rw [insertPosition]
      split
      · rw [List.mem_cons, ih, List.mem_cons, or_left_comm]
      · rw [List.mem_cons]

/-- A position that is not there yet keeps the order strict. -/
theorem insertPosition_sorted {position : Int} {others : List Int}
    (sorted : others.Pairwise (· < ·)) (new : position ∉ others) :
    (insertPosition position others).Pairwise (· < ·) := by
  induction others with
  | nil => exact List.pairwise_singleton _ _
  | cons other others ih =>
      rw [List.pairwise_cons] at sorted
      rw [List.mem_cons, not_or] at new
      rw [insertPosition]
      split
      · next below =>
          rw [List.pairwise_cons]
          refine ⟨fun p member => ?_, ih sorted.2 new.2⟩
          rcases mem_insertPosition.mp member with rfl | there
          · exact below
          · exact sorted.1 p there
      · next above =>
          have first : position < other := by omega
          rw [List.pairwise_cons, List.pairwise_cons]
          refine ⟨fun p member => ?_, sorted⟩
          rcases List.mem_cons.mp member with rfl | there
          · exact first
          · exact Int.lt_trans first (sorted.1 p there)

/-! ## The invariant -/

/-- A position of a class is one of those that are looked up. -/
def Program.Knows (program : Program Class) (c : Class) (pos : Int) : Prop :=
  pos = program.classRcplPosition c ∨
    pos ∈ program.classRcplOtherPositions c

/-- All positions in the vector of a class are known. -/
def Program.Recorded (program : Program Class) (x : Class) : Prop :=
  ∀ before y after, program.allSuperclasses x = before ++ y :: after →
    program.Knows y after.length

/-- The slots of the classes of a program are in agreement. -/
structure Indexed (objectRoot : Class) (program : Program Class) : Prop where
  linearized : Linearized program.table
  root : objectRoot ∈ program.created
  rooted : ∀ c ∈ program.created, objectRoot ∈ program.allSuperclasses c
  vector : ∀ c ∈ program.created,
    program.classRcplVector c = rcplVector (program.allSuperclasses c)
  position : ∀ c ∈ program.created,
    program.classRcplPosition c = (program.allSuperclasses c).length - 1
  sorted : ∀ c ∈ program.created,
    (program.classRcplOtherPositions c).Pairwise (· < ·)
  above : ∀ c ∈ program.created, ∀ pos ∈ program.classRcplOtherPositions c,
    program.classRcplPosition c < pos
  iep : ∀ c ∈ program.created, program.instanceIep c =
    strategy (program.classRcplPosition c) (program.classRcplOtherPositions c)

/-- A program that knows more positions of the same classes. -/
structure Extends (program next : Program Class) : Prop where
  created : next.created = program.created
  directSuperclasses : next.directSuperclasses = program.directSuperclasses
  vector : next.classRcplVector = program.classRcplVector
  position : next.classRcplPosition = program.classRcplPosition
  grows : ∀ c, ∀ pos ∈ program.classRcplOtherPositions c,
    pos ∈ next.classRcplOtherPositions c

section Steps

variable {objectRoot : Class} {program next : Program Class}

omit [DecidableEq Class] in
theorem Extends.refl (program : Program Class) : Extends program program :=
  ⟨rfl, rfl, rfl, rfl, fun _ _ member => member⟩

omit [DecidableEq Class] in
theorem Extends.trans {last : Program Class} (first : Extends program next)
    (second : Extends next last) : Extends program last where
  created := second.created.trans first.created
  directSuperclasses :=
    second.directSuperclasses.trans first.directSuperclasses
  vector := second.vector.trans first.vector
  position := second.position.trans first.position
  grows c pos member := second.grows c pos (first.grows c pos member)

omit [DecidableEq Class] in
theorem Extends.allSuperclasses (extends_ : Extends program next) (c : Class) :
    next.allSuperclasses c = program.allSuperclasses c := by
  rw [Program.allSuperclasses, Program.allSuperclasses, extends_.vector,
    extends_.position]

omit [DecidableEq Class] in
theorem Extends.knows (extends_ : Extends program next) {c : Class} {pos : Int}
    (known : program.Knows c pos) : next.Knows c pos := by
  rcases known with first | other
  · exact Or.inl (first.trans (congrFun extends_.position c).symm)
  · exact Or.inr (extends_.grows c pos other)

omit [DecidableEq Class] in
theorem Extends.recorded (extends_ : Extends program next) {x : Class}
    (recorded : program.Recorded x) : next.Recorded x := by
  intro before y after shape
  rw [extends_.allSuperclasses] at shape
  exact extends_.knows (recorded before y after shape)

omit [DecidableEq Class] in
theorem Indexed.position_nonneg (indexed : Indexed objectRoot program)
    {c : Class} (member : c ∈ program.created) :
    0 ≤ program.classRcplPosition c := by
  obtain ⟨rest, own⟩ := indexed.linearized.head c member
  have shape : program.allSuperclasses c = c :: rest := own
  rw [indexed.position c member, shape, List.length_cons]
  omega

omit [DecidableEq Class] in
/-- The position of a class in the vector of any class is not below its
first position. -/
theorem Indexed.position_le (indexed : Indexed objectRoot program)
    {x y : Class} (member : x ∈ program.created) {before after : List Class}
    (shape : program.allSuperclasses x = before ++ y :: after) :
    program.classRcplPosition y ≤ after.length := by
  have made : y ∈ program.created := by
    apply indexed.linearized.created_of_mem member
    show y ∈ program.allSuperclasses x
    rw [shape]
    simp
  obtain ⟨rest, own, sublist⟩ :=
    rest_sublist indexed.linearized member shape
  have ownShape : program.allSuperclasses y = y :: rest := own
  have shorter := sublist.length_le
  rw [indexed.position y made, ownShape, List.length_cons]
  omega

omit [DecidableEq Class] in
/-- The root is at the first position everywhere. -/
theorem Indexed.position_root (indexed : Indexed objectRoot program) :
    program.classRcplPosition objectRoot = 0 := by
  obtain ⟨rest, own⟩ := indexed.linearized.head objectRoot indexed.root
  have last : rest = [] := by
    apply last_of_root indexed.linearized indexed.rooted indexed.root
    exact own.trans (List.nil_append _).symm
  have shape : program.allSuperclasses objectRoot = objectRoot :: rest := own
  rw [indexed.position objectRoot indexed.root, shape, last]
  rfl

omit [DecidableEq Class] in
/-- The last class of a list is the root. -/
theorem Indexed.last_eq_root (indexed : Indexed objectRoot program)
    {x y : Class} (member : x ∈ program.created) {before : List Class}
    (shape : program.allSuperclasses x = before ++ [y]) : y = objectRoot := by
  have root := indexed.rooted x member
  rw [shape, List.mem_append, List.mem_singleton] at root
  rcases root with inside | same
  · obtain ⟨front, rest, rfl⟩ := List.append_of_mem inside
    have last : rest ++ [y] = [] := by
      apply last_of_root indexed.linearized indexed.rooted member
      exact shape.trans (List.append_assoc ..)
    simp at last
  · exact same.symm

/-- A new position of a class is recorded, and nothing else changes. -/
theorem Indexed.augment (indexed : Indexed objectRoot program) {s : Class}
    {pos : Int} (member : s ∈ program.created)
    (notBelow : program.classRcplPosition s ≤ pos) :
    ∃ next, augmentIclassRcplPositionData program s pos = .ok next ∧
      Indexed objectRoot next ∧ Extends program next ∧ next.Knows s pos := by
  rw [augmentIclassRcplPositionData]
  by_cases known : pos = program.classRcplPosition s ∨
      pos ∈ program.classRcplOtherPositions s
  · rw [if_pos known]
    exact ⟨program, rfl, indexed, Extends.refl program, known⟩
  · have initialized : program.classRcplPosition s ≠ -1 := by
      have := indexed.position_nonneg member
      omega
    rw [if_neg known, if_neg initialized, if_pos notBelow]
    rw [not_or] at known
    refine ⟨_, rfl, ?_, ?_, ?_⟩
    · constructor
      · exact indexed.linearized
      · exact indexed.root
      · exact indexed.rooted
      · exact indexed.vector
      · exact indexed.position
      · intro c made
        by_cases same : c = s
        · subst same
          simp only [Function.update_self]
          exact insertPosition_sorted (indexed.sorted c made) known.2
        · simp only [Function.update_of_ne same]
          exact indexed.sorted c made
      · intro c made p there
        by_cases same : c = s
        · subst same
          simp only [Function.update_self, mem_insertPosition] at there
          rcases there with rfl | old
          · exact Int.lt_iff_le_and_ne.mpr ⟨notBelow, Ne.symm known.1⟩
          · exact indexed.above c made p old
        · simp only [Function.update_of_ne same] at there
          exact indexed.above c made p there
      · intro c made
        by_cases same : c = s
        · subst same
          simp only [Function.update_self]
        · simp only [Function.update_of_ne same]
          exact indexed.iep c made
    · refine ⟨rfl, rfl, rfl, rfl, fun c p there => ?_⟩
      by_cases same : c = s
      · subst same
        simp only [Function.update_self, mem_insertPosition]
        exact Or.inr there
      · simp only [Function.update_of_ne same]
        exact there
    · right
      simp only [Function.update_self, mem_insertPosition, true_or]

/-- The loop records every position of the superclasses. -/
theorem Indexed.augmentSuperiors (indexed : Indexed objectRoot program)
    {c : Class} {entries : List (Class × Nat)}
    (bounded : ∀ entry ∈ entries, entry.1 ∈ program.created ∧
      program.classRcplPosition entry.1 ≤ entry.2) :
    ∃ next, augmentSuperiors objectRoot c entries program = .ok next ∧
      Indexed objectRoot next ∧ Extends program next ∧
      ∀ entry ∈ entries, entry.1 ≠ c → entry.1 ≠ objectRoot →
        next.Knows entry.1 entry.2 := by
  induction entries generalizing program with
  | nil => exact ⟨program, rfl, indexed, Extends.refl program, by simp⟩
  | cons entry rest ih =>
      rw [List.forall_mem_cons] at bounded
      rw [SubclassTest.augmentSuperiors]
      split
      · next skipped =>
          obtain ⟨next, result, kept, extended, knows⟩ :=
            ih indexed bounded.2
          refine ⟨next, result, kept, extended, ?_⟩
          rw [List.forall_mem_cons]
          refine ⟨fun notSelf notRoot => ?_, knows⟩
          exact absurd skipped (by simp [notSelf, notRoot])
      · obtain ⟨middle, augmented, keptMiddle, first, knowsFirst⟩ :=
          indexed.augment bounded.1.1 bounded.1.2
        have later : ∀ entry ∈ rest, entry.1 ∈ middle.created ∧
            middle.classRcplPosition entry.1 ≤ entry.2 := by
          rw [first.created, first.position]
          exact bounded.2
        obtain ⟨next, result, kept, second, knows⟩ := ih keptMiddle later
        rw [augmented]
        refine ⟨next, result, kept, first.trans second, ?_⟩
        rw [List.forall_mem_cons]
        exact ⟨fun _ _ => second.knows knowsFirst, knows⟩

omit [DecidableEq Class] in
/-- The loop runs over every class of the list but the last one. -/
theorem mem_superiors {cpl : List Class} {s : Class} {pos : Nat} :
    (s, pos) ∈ superiors cpl ↔ ∃ before after,
      cpl = before ++ s :: after ∧ after.length = pos ∧ after ≠ [] := by
  induction cpl with
  | nil => simp [superiors]
  | cons c rest ih =>
      cases rest with
      | nil => simp [superiors, List.cons_eq_append_iff]
      | cons next rest =>
          rw [superiors, List.mem_cons, ih]
          · constructor
            · rintro (same | ⟨before, after, shape, length, later⟩)
              · cases same
                exact ⟨[], _, rfl, rfl, by simp⟩
              · refine ⟨c :: before, after, ?_, length, later⟩
                rw [shape, List.cons_append]
            · rintro ⟨before, after, shape, length, later⟩
              rcases List.cons_eq_append_iff.mp shape with
                ⟨rfl, first⟩ | ⟨tail, rfl, inner⟩
              · cases first
                exact Or.inl (by rw [← length])
              · exact Or.inr ⟨tail, after, inner, length, later⟩
          · simp

omit [DecidableEq Class] in
/-- The positions in the vector of a class are known when the loop has run
over them: it leaves out the class itself and the root. -/
theorem Indexed.recorded_self (indexed : Indexed objectRoot program)
    {x : Class} (member : x ∈ program.created)
    (knows : ∀ entry ∈ superiors (program.allSuperclasses x),
      entry.1 ≠ x → entry.1 ≠ objectRoot →
        program.Knows entry.1 entry.2) : program.Recorded x := by
  intro before y after split
  by_cases last : after = []
  · subst last
    rw [indexed.last_eq_root member split]
    exact Or.inl indexed.position_root.symm
  · by_cases isRoot : y = objectRoot
    · subst isRoot
      exact absurd (last_of_root indexed.linearized indexed.rooted member
        split) last
    · by_cases isSelf : y = x
      · subst isSelf
        left
        obtain ⟨rest, own⟩ := indexed.linearized.head y member
        have shape : program.allSuperclasses y = y :: rest := own
        have nodup : (y :: rest).Nodup :=
          own ▸ indexed.linearized.nodup y member
        have same : after = rest := by
          rcases List.cons_eq_append_iff.mp (shape.symm.trans split) with
            ⟨-, first⟩ | ⟨tail, -, inner⟩
          · exact (List.cons.inj first).2
          · rw [List.nodup_cons, inner] at nodup
            exact absurd (by simp) nodup.1
        rw [indexed.position y member, shape, same, List.length_cons]
        omega
      · exact knows (y, after.length)
          (mem_superiors.mpr ⟨before, after, split, rfl, last⟩) isSelf isRoot

end Steps

/-! ## Programs reached -/

section Programs

variable {objectRoot : Class} {program next : Program Class}

omit [DecidableEq Class] in
theorem rcplVector_take (cpl : List Class) :
    (((rcplVector cpl).take ((cpl.length : Int) - 1 + 1).toNat).filterMap
      id).reverse = cpl := by
  have count : ((cpl.length : Int) - 1 + 1).toNat = cpl.length := by omega
  rw [count, rcplVector, List.take_append_of_le_length (by simp),
    List.take_of_length_le (by simp)]
  simp

/-- The precedence lists with a new class. -/
theorem Program.add_table (program : Program Class) (c : Class)
    (supers cpl : List Class) :
    (program.add c supers cpl).table = program.table.create c supers cpl := by
  have lists : (program.add c supers cpl).allSuperclasses =
      Function.update program.allSuperclasses c cpl := by
    ext d : 1
    by_cases same : d = c
    · subst same
      simp only [Program.allSuperclasses, Program.add, Function.update_self]
      exact rcplVector_take cpl
    · simp only [Program.allSuperclasses, Program.add,
        Function.update_of_ne same]
  rw [Program.table, lists]
  rfl

/-- A new class keeps the invariant, before its superclasses are told. -/
theorem Indexed.add (indexed : Indexed objectRoot program) {c : Class}
    {supers order : List Class} (fresh : c ∉ program.created)
    (known : ∀ s ∈ supers, s ∈ program.created) (inherits : supers ≠ [])
    (merged : Merged (program.table.lists supers) order) :
    Indexed objectRoot (program.add c supers (c :: order)) := by
  have table := program.add_table c supers (c :: order)
  have newAll : (program.add c supers (c :: order)).allSuperclasses c =
      c :: order := by
    have same := congrArg (fun t => t.allSuperclasses c) table
    exact same.trans (Function.update_self ..)
  have old : ∀ {d : Class}, d ∈ program.created → d ≠ c := by
    rintro d there rfl
    exact fresh there
  have oldAll : ∀ {d : Class}, d ∈ program.created →
      (program.add c supers (c :: order)).allSuperclasses d =
        program.allSuperclasses d := by
    intro d there
    have same := congrArg (fun t => t.allSuperclasses d) table
    exact same.trans (Function.update_of_ne (old there) ..)
  constructor
  · rw [table]
    exact indexed.linearized.create fresh known merged
  · exact List.mem_cons_of_mem _ indexed.root
  · intro d member
    rcases List.mem_cons.mp member with rfl | there
    · rw [newAll]
      apply List.mem_cons_of_mem
      obtain ⟨super, isDirect⟩ := List.exists_mem_of_ne_nil supers inherits
      rw [merged.mem, indexed.linearized.mem_lists known]
      exact ⟨super, isDirect, indexed.rooted super (known super isDirect)⟩
    · rw [oldAll there]
      exact indexed.rooted d there
  · intro d member
    rcases List.mem_cons.mp member with rfl | there
    · rw [newAll]
      exact Function.update_self ..
    · rw [oldAll there, ← indexed.vector d there]
      exact Function.update_of_ne (old there) ..
  · intro d member
    rcases List.mem_cons.mp member with rfl | there
    · rw [newAll]
      exact Function.update_self ..
    · rw [oldAll there, ← indexed.position d there]
      exact Function.update_of_ne (old there) ..
  · intro d member
    rcases List.mem_cons.mp member with rfl | there
    · simp only [Program.add, Function.update_self]
      exact List.Pairwise.nil
    · simp only [Program.add, Function.update_of_ne (old there)]
      exact indexed.sorted d there
  · intro d member
    rcases List.mem_cons.mp member with rfl | there
    · simp only [Program.add, Function.update_self]
      simp
    · simp only [Program.add, Function.update_of_ne (old there)]
      exact indexed.above d there
  · intro d member
    rcases List.mem_cons.mp member with rfl | there
    · simp only [Program.add, Function.update_self]
    · simp only [Program.add, Function.update_of_ne (old there)]
      exact indexed.iep d there

/-- The positions of the classes that were there stay known. -/
theorem Indexed.recorded_add (indexed : Indexed objectRoot program)
    {c x : Class} {supers cpl : List Class} (fresh : c ∉ program.created)
    (member : x ∈ program.created) (recorded : program.Recorded x) :
    (program.add c supers cpl).Recorded x := by
  intro before y after shape
  have table := program.add_table c supers cpl
  have different : x ≠ c := by
    rintro rfl
    exact fresh member
  have same : (program.add c supers cpl).allSuperclasses x =
      program.allSuperclasses x := by
    have lists := congrArg (fun t => t.allSuperclasses x) table
    exact lists.trans (Function.update_of_ne different ..)
  rw [same] at shape
  have made : y ∈ program.created := by
    apply indexed.linearized.created_of_mem member
    show y ∈ program.allSuperclasses x
    rw [shape]
    simp
  have other : y ≠ c := by
    rintro rfl
    exact fresh made
  have known := recorded before y after shape
  simp only [Program.Knows, Program.add, Function.update_of_ne other]
  exact known

/-- A class can be created unless its precedence list is inconsistent, and
then all positions are known. -/
theorem Indexed.createClass (indexed : Indexed objectRoot program)
    (recorded : ∀ x ∈ program.created, program.Recorded x) {c : Class}
    {supers : List Class} (fresh : c ∉ program.created)
    (known : ∀ s ∈ supers, s ∈ program.created) (inherits : supers ≠ []) :
    (∃ message, SubclassTest.createClass objectRoot program c supers =
      .error (.precedence message)) ∨
    ∃ linearization next,
      computeImplementationClassPrecedenceList program.table c supers =
        .ok linearization ∧
      SubclassTest.createClass objectRoot program c supers = .ok next ∧
      Extends (program.add c supers linearization.precedenceList) next ∧
      Indexed objectRoot next ∧ ∀ x ∈ next.created, next.Recorded x := by
  rw [SubclassTest.createClass]
  cases computed : computeImplementationClassPrecedenceList program.table c
      supers with
  | error message => exact Or.inl ⟨message, rfl⟩
  | ok linearization =>
      right
      obtain ⟨order, shape, merged⟩ :=
        indexed.linearized.compute_ok fresh known computed
      simp only [shape]
      have added := indexed.add fresh known inherits merged
      have table := program.add_table c supers (c :: order)
      have newAll : (program.add c supers (c :: order)).allSuperclasses c =
          c :: order := by
        have same := congrArg (fun t => t.allSuperclasses c) table
        exact same.trans (Function.update_self ..)
      have here : c ∈ (program.add c supers (c :: order)).created :=
        List.mem_cons_self ..
      have bounded : ∀ entry ∈ superiors (c :: order),
          entry.1 ∈ (program.add c supers (c :: order)).created ∧
            (program.add c supers (c :: order)).classRcplPosition entry.1 ≤
              entry.2 := by
        rintro ⟨s, pos⟩ member
        obtain ⟨before, after, split, rfl, -⟩ := mem_superiors.mp member
        rw [← newAll] at split
        refine ⟨?_, added.position_le here split⟩
        apply added.linearized.created_of_mem here
        show s ∈ (program.add c supers (c :: order)).allSuperclasses c
        rw [split]
        simp
      obtain ⟨next, result, kept, extended, knows⟩ :=
        added.augmentSuperiors bounded
      refine ⟨linearization, next, rfl, result, shape ▸ extended, kept, ?_⟩
      rw [extended.created]
      intro x member
      rcases List.mem_cons.mp member with rfl | there
      · apply kept.recorded_self (extended.created ▸ here)
        rw [extended.allSuperclasses, newAll]
        exact knows
      · exact extended.recorded (indexed.recorded_add fresh there
          (recorded x there))

omit [DecidableEq Class] in
theorem rootProgram_allSuperclasses (objectRoot c : Class) :
    (rootProgram objectRoot).allSuperclasses c = [objectRoot] :=
  rcplVector_take [objectRoot]

omit [DecidableEq Class] in
theorem rootProgram_indexed (objectRoot : Class) :
    Indexed objectRoot (rootProgram objectRoot) := by
  have lists := rootProgram_allSuperclasses objectRoot
  have noDirect : ∀ c s,
      s ∉ (rootProgram objectRoot).table.directSuperclasses c :=
    fun c s => List.not_mem_nil
  have only : ∀ c ∈ (rootProgram objectRoot).created, c = objectRoot :=
    fun c member => List.mem_singleton.mp member
  constructor
  · constructor
    · exact fun c _ s direct => absurd direct (noDirect c s)
    · exact fun c _ => noDirect c c
    · exact fun c member => ⟨[], only c member ▸ lists c⟩
    · intro c _
      show ((rootProgram objectRoot).allSuperclasses c).Nodup
      rw [lists]
      exact List.nodup_singleton _
    · intro c member s
      show s ∈ (rootProgram objectRoot).allSuperclasses c ↔ _
      rw [lists, List.mem_singleton, only c member]
      constructor
      · rintro rfl
        exact Relation.ReflTransGen.refl
      · intro inherits
        rcases Relation.ReflTransGen.cases_head inherits with
          same | ⟨middle, direct, -⟩
        · exact same.symm
        · exact absurd direct (noDirect _ _)
    · exact fun c _ => List.nil_sublist _
    · intro c _ s _
      show ((rootProgram objectRoot).allSuperclasses s).Sublist
        ((rootProgram objectRoot).allSuperclasses c)
      rw [lists, lists]
  · exact List.mem_singleton_self _
  · intro c _
    rw [lists]
    exact List.mem_singleton_self _
  · intro c _
    rw [lists]
    rfl
  · intro c _
    rw [lists]
    rfl
  · exact fun c _ => List.Pairwise.nil
  · exact fun c _ pos member => absurd member List.not_mem_nil
  · exact fun c _ => rfl

/-- The invariant of all programs that are reached. -/
theorem Reachable.invariant (reachable : Reachable objectRoot program) :
    Indexed objectRoot program ∧
      ∀ x ∈ program.created, program.Recorded x := by
  induction reachable with
  | root =>
      refine ⟨rootProgram_indexed objectRoot, fun x member => ?_⟩
      apply (rootProgram_indexed objectRoot).recorded_self member
      rw [rootProgram_allSuperclasses]
      simp [superiors]
  | create earlier fresh known inherits created ih =>
      rcases ih.1.createClass ih.2 fresh known inherits with
        ⟨message, failed⟩ | ⟨_, next, -, result, -, kept, recorded⟩
      · rw [failed] at created
        cases created
      · rw [result] at created
        cases created
        exact ⟨kept, recorded⟩

end Programs

/-! ## The answers of the tests -/

section Answers

variable {objectRoot : Class} {program : Program Class}

/-- The search finds a class that stands at one of the positions: they are in
order, so that none after one outside of the vector is inside. -/
theorem searchPositions_eq {cpl : List Class} {sup : Class}
    {positions : List Int} (sorted : positions.Pairwise (· < ·))
    (nonneg : ∀ pos ∈ positions, 0 ≤ pos) :
    ∃ answer, searchPositions (rcplVector cpl) sup positions = some answer ∧
      (answer = true ↔ ∃ before after, cpl = before ++ sup :: after ∧
        (after.length : Int) ∈ positions) := by
  induction positions with
  | nil => exact ⟨false, rfl, by simp⟩
  | cons rpos rest ih =>
      rw [List.pairwise_cons] at sorted
      rw [List.forall_mem_cons] at nonneg
      rw [searchPositions]
      split
      · next inside =>
          obtain ⟨found, read, isFound⟩ :=
            vectorElement_rcplVector ⟨nonneg.1, inside⟩
          rw [read, Option.bind_some]
          by_cases here : found = some sup
          · rw [if_pos here]
            refine ⟨true, rfl, fun _ => ?_, fun _ => rfl⟩
            obtain ⟨before, after, shape, length⟩ := (isFound sup).mp here
            exact ⟨before, after, shape, by simp [length]⟩
          · rw [if_neg here]
            obtain ⟨answer, result, correct⟩ := ih sorted.2 nonneg.2
            refine ⟨answer, result, correct.trans ?_⟩
            constructor
            · rintro ⟨before, after, shape, there⟩
              exact ⟨before, after, shape, List.mem_cons_of_mem _ there⟩
            · rintro ⟨before, after, shape, member⟩
              refine ⟨before, after, shape, ?_⟩
              apply (List.mem_cons.mp member).resolve_left
              intro length
              exact here ((isFound sup).mpr ⟨before, after, shape, length⟩)
      · next outside =>
          refine ⟨false, rfl, by simp, ?_⟩
          rintro ⟨before, after, shape, member⟩
          exfalso
          have bound := (rcplVector_length cpl).1
          have short : after.length < cpl.length := by
            rw [shape, List.length_append, List.length_cons]
            omega
          have far : rpos ≤ after.length := by
            rcases List.mem_cons.mp member with same | later
            · exact Int.le_of_eq same.symm
            · exact Int.le_of_lt (sorted.1 _ later)
          omega

omit [DecidableEq Class] in
theorem Indexed.others_nonneg (indexed : Indexed objectRoot program)
    {c : Class} (member : c ∈ program.created) :
    ∀ pos ∈ program.classRcplOtherPositions c, 0 ≤ pos := by
  intro pos there
  have first := indexed.position_nonneg member
  have above := indexed.above c member pos there
  omega

omit [DecidableEq Class] in
/-- A superclass stands at a known position, and nowhere outside of the
vector. -/
theorem Program.Recorded.mem_iff {x y : Class}
    (recorded : program.Recorded x) :
    y ∈ program.allSuperclasses x ↔ ∃ before after,
      program.allSuperclasses x = before ++ y :: after ∧
        program.Knows y after.length := by
  constructor
  · intro superclass
    obtain ⟨before, after, shape⟩ := List.append_of_mem superclass
    exact ⟨before, after, shape, recorded before y after shape⟩
  · rintro ⟨before, after, shape, -⟩
    rw [shape]
    simp

omit [DecidableEq Class] in
/-- The reads at the first position of a class. -/
theorem Indexed.read_position (indexed : Indexed objectRoot program)
    {x y : Class} (madeX : x ∈ program.created) (madeY : y ∈ program.created)
    (inside : program.classRcplPosition y <
      (program.classRcplVector x).length) :
    ∃ found, vectorElement (program.classRcplVector x)
        (program.classRcplPosition y) = some found ∧
      (found = some y ↔ ∃ before after,
        program.allSuperclasses x = before ++ y :: after ∧
          (after.length : Int) = program.classRcplPosition y) := by
  rw [indexed.vector x madeX] at inside ⊢
  obtain ⟨found, read, isFound⟩ := vectorElement_rcplVector
    ⟨indexed.position_nonneg madeY, inside⟩
  exact ⟨found, read, isFound y⟩

omit [DecidableEq Class] in
/-- A class whose first position is outside of a vector is not in it. -/
theorem Indexed.not_mem_of_outside (indexed : Indexed objectRoot program)
    {x y : Class} (madeX : x ∈ program.created)
    (outside : program.classRcplPosition y ≥
      (program.classRcplVector x).length) :
    y ∉ program.allSuperclasses x := by
  intro superclass
  obtain ⟨before, after, shape⟩ := List.append_of_mem superclass
  have low := indexed.position_le madeX shape
  have bound := (rcplVector_length (program.allSuperclasses x)).1
  have short : after.length < (program.allSuperclasses x).length := by
    rw [shape, List.length_append, List.length_cons]
    omega
  rw [indexed.vector x madeX] at outside
  omega

omit [DecidableEq Class] in
theorem Indexed.mem_self (indexed : Indexed objectRoot program) {c : Class}
    (member : c ∈ program.created) : c ∈ program.allSuperclasses c := by
  obtain ⟨rest, own⟩ := indexed.linearized.head c member
  have shape : program.allSuperclasses c = c :: rest := own
  rw [shape]
  exact List.mem_cons_self ..

/-- The general test is right. -/
theorem Indexed.rcplIsubclass_eq (indexed : Indexed objectRoot program)
    {x y : Class} (recorded : program.Recorded x)
    (madeX : x ∈ program.created) (madeY : y ∈ program.created) :
    rcplIsubclass program x y =
      some (decide (y ∈ program.allSuperclasses x)) := by
  rw [rcplIsubclass]
  by_cases same : x = y
  · subst same
    rw [if_pos rfl, decide_eq_true (indexed.mem_self madeX)]
  · rw [if_neg same]
    by_cases outside : program.classRcplPosition y ≥
        (program.classRcplVector x).length
    · rw [if_pos outside,
        decide_eq_false (indexed.not_mem_of_outside madeX outside)]
    · obtain ⟨found, read, isFound⟩ :=
        indexed.read_position madeX madeY (Int.not_le.mp outside)
      rw [if_neg outside, read, Option.bind_some]
      by_cases here : found = some y
      · rw [if_pos here]
        obtain ⟨before, after, shape, -⟩ := isFound.mp here
        rw [decide_eq_true (by rw [shape]; simp)]
      · rw [if_neg here, indexed.vector x madeX]
        obtain ⟨answer, result, correct⟩ : ∃ answer, searchPositions
            (rcplVector (program.allSuperclasses x)) y
            (program.classRcplOtherPositions y) = some answer ∧ _ :=
          searchPositions_eq (indexed.sorted y madeY)
            (indexed.others_nonneg madeY)
        rw [result, Option.some.injEq, Bool.eq_iff_iff, correct,
          decide_eq_true_iff, recorded.mem_iff]
        constructor
        · rintro ⟨before, after, shape, other⟩
          exact ⟨before, after, shape, Or.inr other⟩
        · rintro ⟨before, after, shape, first | other⟩
          · exact absurd (isFound.mpr ⟨before, after, shape, first⟩) here
          · exact ⟨before, after, shape, other⟩

/-- A read at the only position of a class is right. -/
theorem Indexed.read_only_position (indexed : Indexed objectRoot program)
    {x y : Class} (recorded : program.Recorded x)
    (madeX : x ∈ program.created) (madeY : y ∈ program.created)
    (single : program.classRcplOtherPositions y = [])
    (inside : program.classRcplPosition y <
      (program.classRcplVector x).length) :
    (vectorElement (program.classRcplVector x)
        (program.classRcplPosition y)).map
          (fun found => decide (found = some y)) =
      some (decide (y ∈ program.allSuperclasses x)) := by
  obtain ⟨found, read, isFound⟩ := indexed.read_position madeX madeY inside
  rw [read, Option.map_some, Option.some.injEq, Bool.eq_iff_iff,
    decide_eq_true_iff, decide_eq_true_iff, isFound, recorded.mem_iff]
  simp only [Program.Knows, single, List.not_mem_nil, or_false]

/-- The functions that check instances are right, whichever is installed. -/
theorem Indexed.isInstance_eq (indexed : Indexed objectRoot program)
    {x y : Class} (recorded : program.Recorded x)
    (madeX : x ∈ program.created) (madeY : y ∈ program.created) :
    isInstance program x y =
      some (decide (y ∈ program.allSuperclasses x)) := by
  rw [isInstance, indexed.iep y madeY, strategy]
  by_cases several : (program.classRcplOtherPositions y).length > 0
  · rw [if_pos several]
    exact indexed.rcplIsubclass_eq recorded madeX madeY
  · have single : program.classRcplOtherPositions y = [] := by
      rw [← List.length_eq_zero_iff]
      exact Nat.eq_zero_of_not_pos several
    rw [if_neg several,
      if_neg (Int.not_lt.mpr (indexed.position_nonneg madeY))]
    by_cases small : program.classRcplPosition y < minRcplSize
    · rw [if_pos small, classInstance]
      by_cases same : x = y
      · subst same
        rw [if_pos rfl, decide_eq_true (indexed.mem_self madeX)]
      · rw [if_neg same]
        apply indexed.read_only_position recorded madeX madeY single
        -- Every vector has the least size.
        have size := (rcplVector_length (program.allSuperclasses x)).2
        rw [indexed.vector x madeX]
        omega
    · rw [if_neg small, classInstance]
      by_cases same : y = x
      · subst same
        rw [if_pos rfl, decide_eq_true (indexed.mem_self madeX)]
      · rw [if_neg same]
        by_cases inside : program.classRcplPosition y <
            (program.classRcplVector x).length
        · rw [if_pos inside]
          exact indexed.read_only_position recorded madeX madeY single inside
        · rw [if_neg inside, decide_eq_false]
          exact indexed.not_mem_of_outside madeX (Int.not_lt.mp inside)

/-- In every program that is reached the tests agree with the precedence
lists, the positions are in strict order, and creating a class never fails
the assertion on them. -/
theorem subclass_agrees_with_precedence
    (reachable : Reachable objectRoot program) :
    (∀ x ∈ program.created, ∀ y ∈ program.created,
      subclass program x y =
          some (decide (y ∈ program.allSuperclasses x)) ∧
        isInstance program x y =
          some (decide (y ∈ program.allSuperclasses x)) ∧
        (y ∈ program.allSuperclasses x ↔ program.table.Inherits x y)) ∧
    (∀ c ∈ program.created, (program.classRcplPosition c ::
      program.classRcplOtherPositions c).Pairwise (· < ·)) ∧
    ∀ c ∉ program.created, ∀ supers : List Class, supers ≠ [] →
      (∀ s ∈ supers, s ∈ program.created) →
        createClass objectRoot program c supers ≠ .error .assertionFailed ∧
        ∀ next, createClass objectRoot program c supers = .ok next →
          ∃ linearization,
            computeImplementationClassPrecedenceList program.table c supers =
              .ok linearization ∧
            next.allSuperclasses c = linearization.precedenceList ∧
            ∀ x ∈ program.created,
              next.allSuperclasses x = program.allSuperclasses x := by
  obtain ⟨indexed, recorded⟩ := reachable.invariant
  refine ⟨fun x madeX y madeY => ⟨?_, ?_, ?_⟩, fun c made => ?_, ?_⟩
  · exact indexed.rcplIsubclass_eq (recorded x madeX) madeX madeY
  · exact indexed.isInstance_eq (recorded x madeX) madeX madeY
  · exact indexed.linearized.mem x madeX y
  · rw [List.pairwise_cons]
    exact ⟨indexed.above c made, indexed.sorted c made⟩
  · intro c fresh supers inherits known
    rcases indexed.createClass recorded fresh known inherits with
      ⟨message, failed⟩ | ⟨linearization, next, computed, result, extended, -⟩
    · rw [failed]
      exact ⟨by simp, fun next created => by cases created⟩
    · rw [result]
      refine ⟨by simp, fun next created => ?_⟩
      cases created
      have table := program.add_table c supers linearization.precedenceList
      have lists : ∀ x, next.allSuperclasses x =
          Function.update program.allSuperclasses c
            linearization.precedenceList x := by
        intro x
        rw [extended.allSuperclasses]
        exact congrArg (fun t => t.allSuperclasses x) table
      refine ⟨linearization, computed, ?_, fun x made => ?_⟩
      · rw [lists, Function.update_self]
      · rw [lists, Function.update_of_ne]
        rintro rfl
        exact fresh made

end Answers

/-- A class below the root is a subclass of it, and not the other way. -/
theorem subclass_agrees_with_precedence_below :
    ∃ next, createClass 0 (rootProgram 0) 1 [0] = .ok next ∧
      subclass next 1 0 = some true ∧ subclass next 0 1 = some false ∧
      isInstance next 1 0 = some true ∧ isInstance next 0 1 = some false := by
  have computed : computeImplementationClassPrecedenceList
      (rootProgram 0).table 1 [0] =
        .ok { precedenceList := [1, 0]
              differs := false } := by
    have c3 : mergeLists c3Selection [1] ((rootProgram 0).table.lists [0]) =
        some [1, 0] := by
      have found : c3Selection.next [1]
          ((rootProgram 0).table.lists [0]) = some 0 := by
        decide
      rw [mergeLists_of_some (by decide) found,
        mergeLists_of_empty (by decide)]
      rfl
    have old : mergeLists (oldSelection
        (Function.update (rootProgram 0).table.directSuperclasses 1 [0])) [1]
        ([0] :: [0].map (rootProgram 0).table.allSuperclasses) =
          some [1, 0] := by
      have found : (oldSelection
          (Function.update (rootProgram 0).table.directSuperclasses 1
            [0])).next [1]
          ([0] :: [0].map (rootProgram 0).table.allSuperclasses) =
            some 0 := by
        decide
      rw [mergeLists_of_some (by decide) found,
        mergeLists_of_empty (by decide)]
      rfl
    rw [computeImplementationClassPrecedenceList, c3]
    simp only [old]
    rfl
  have created : createClass 0 (rootProgram 0) 1 [0] =
      .ok ((rootProgram 0).add 1 [0] [1, 0]) := by
    rw [createClass, computed]
    rfl
  have reachable : Reachable 0 ((rootProgram 0).add 1 [0] [1, 0]) :=
    Reachable.create Reachable.root (by decide) (by decide) (by decide)
      created
  obtain ⟨agrees, -⟩ := subclass_agrees_with_precedence reachable
  have below := agrees 1 (by decide) 0 (by decide)
  have notAbove := agrees 0 (by decide) 1 (by decide)
  refine ⟨_, created, below.1.trans ?_, notAbove.1.trans ?_,
    below.2.1.trans ?_, notAbove.2.1.trans ?_⟩
  all_goals decide

end OpenDylan.Runtime.SubclassTest
