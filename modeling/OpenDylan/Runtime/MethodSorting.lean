import OpenDylan.Runtime.MethodOrder

/-!
# Sorting applicable methods

`compute-sorted-applicable-methods-1` sorts a list of applicable methods by
`%order-methods`.  The classes that specialize applicable methods are in the
precedence list of the argument's class, so the comparison of two methods can
fail only where `subtype?` fails: between a `<subclass>` and a
`<limited-integer>`, or unions that have these as members.
-/

namespace OpenDylan.Runtime.DispatchEngine

open OpenDylan.Runtime.Types
open OpenDylan.Runtime.MethodTable (Method)

/-- A generic function with the argument positions of its precheck mask. -/
structure GenericFunction (wordSize : Nat) (Class Object : Type) where
  numberRequired : Nat
  methods : List (Method wordSize Class Object)
  argsToCheckFirst : List Nat

/-- A fixnum of a small integer. -/
def smallFixnum (value : Fin 8) (negative : Bool) : Fixnum 64 where
  value := if negative then -value else value
  lower := by split <;> omega
  upper := by split <;> omega

/-- A program with the classes `<object>`, `<class>` and `<integer>` and the
integers 0, 5 and -5. -/
def numbers : Universe 64 (Fin 3) (Fin 3) where
  allSuperclasses c := if c = 0 then [c] else [c, 0]
  objectClass _ := 2
  asClass _ := none
  asInteger
    | 0 => some (smallFixnum 0 false)
    | 1 => some (smallFixnum 5 false)
    | 2 => some (smallFixnum 5 true)
  objectRoot := 0
  classRoot := 1
  integerRoot := 2
  self_mem := by decide
  nodup := by decide
  trans := by decide
  antisymm := by decide
  object_mem := by decide
  asClass_isSome _ := by decide
  asClass_injective := by simp
  asInteger_isSome := by decide

/-- Methods on positive integers and on all integers. -/
def sign : GenericFunction 64 (Fin 3) (Fin 3) where
  numberRequired := 1
  methods := [
    { identity := 0
      specializers := [.class 2] },
    { identity := 1
      specializers := [.limitedInteger (some (smallFixnum 1 false)) none] }]
  argsToCheckFirst := []

end OpenDylan.Runtime.DispatchEngine

namespace OpenDylan.Runtime.MethodOrder

open OpenDylan.Lib.Specificity
open OpenDylan.Runtime.Types
open OpenDylan.Runtime.DispatchEngine
open OpenDylan.Runtime.MethodTable (Method)

variable {wordSize : Nat} {Class Object : Type}
variable [DecidableEq Class] [DecidableEq Object]
variable {world : Universe wordSize Class Object}

/-! ## Types that can be compared -/

/-- Whether there is a `<subclass>` in a type. -/
def hasSubclassPart : DylanType wordSize Class Object → Bool
  | .subclass _ => true
  | .union type1 type2 => hasSubclassPart type1 || hasSubclassPart type2
  | _ => false

/-- Whether a limited integer type is the type or a member of it. -/
def hasIntegerPart : DylanType wordSize Class Object → Bool
  | .limitedInteger _ _ => true
  | .union type1 type2 => hasIntegerPart type1 || hasIntegerPart type2
  | _ => false

/-- No `<subclass>` is compared with a `<limited-integer>`. -/
def Unmixed (type1 type2 : DylanType wordSize Class Object) : Prop :=
  (hasSubclassPart type1 = false ∨ hasIntegerPart type2 = false) ∧
    (hasIntegerPart type1 = false ∨ hasSubclassPart type2 = false)

omit [DecidableEq Class] [DecidableEq Object] in
theorem Unmixed.symm {type1 type2 : DylanType wordSize Class Object}
    (unmixed : Unmixed type1 type2) : Unmixed type2 type1 :=
  ⟨unmixed.2.symm, unmixed.1.symm⟩

omit [DecidableEq Class] [DecidableEq Object] in
theorem unmixed_union_left {left right type : DylanType wordSize Class Object} :
    Unmixed (.union left right) type ↔
      Unmixed left type ∧ Unmixed right type := by
  simp only [Unmixed, hasSubclassPart, hasIntegerPart, Bool.or_eq_false_iff]
  tauto

theorem eitherOf_isSome {left right : Option Bool} (first : left.isSome)
    (second : right.isSome) : (eitherOf left right).isSome := by
  cases left with
  | none => exact absurd first (by simp)
  | some answer => cases answer <;> simp [eitherOf, second]

theorem bothOf_isSome {left right : Option Bool} (first : left.isSome)
    (second : right.isSome) : (bothOf left right).isSome := by
  cases left with
  | none => exact absurd first (by simp)
  | some answer => cases answer <;> simp [bothOf, second]

/-- `subtype?` answers about a type that is not a union. -/
theorem subtypeSimple_isSome {type1 type2 : DylanType wordSize Class Object}
    (simple : ∀ left right, type1 ≠ .union left right)
    (unmixed : Unmixed type1 type2) :
    (world.subtypeSimple type1 type2).isSome := by
  induction type2 with
  | union left right first second =>
      have parts := unmixed_union_left.mp unmixed.symm
      have either := eitherOf_isSome (first parts.1.symm)
        (second parts.2.symm)
      cases type1 <;> first | exact either | rfl
  | «class» upper =>
      cases type1 with
      | union left right => exact absurd rfl (simple left right)
      | _ => rfl
  | singleton other => cases type1 <;> rfl
  | subclass upper =>
      cases type1 with
      | union left right => exact absurd rfl (simple left right)
      | limitedInteger minimum maximum =>
          simp [Unmixed, hasIntegerPart, hasSubclassPart] at unmixed
      | _ => rfl
  | limitedInteger minimum maximum =>
      cases type1 with
      | union left right => exact absurd rfl (simple left right)
      | subclass lower =>
          simp [Unmixed, hasIntegerPart, hasSubclassPart] at unmixed
      | _ => rfl

theorem groundedSubtype_isSome (world : Universe wordSize Class Object)
    {type1 type2 : DylanType wordSize Class Object}
    (unmixed : Unmixed type1 type2) :
    (world.groundedSubtype type1 type2).isSome := by
  induction type1 with
  | union left right first second =>
      have parts := unmixed_union_left.mp unmixed
      exact bothOf_isSome (first parts.1) (second parts.2)
  | _ => exact subtypeSimple_isSome (by simp) unmixed

theorem orderSpecializersDefault_isSome
    (world : Universe wordSize Class Object)
    {type1 type2 : DylanType wordSize Class Object}
    (unmixed : Unmixed type1 type2) :
    (orderSpecializersDefault world type1 type2).isSome := by
  have first := groundedSubtype_isSome world unmixed
  have second := groundedSubtype_isSome world unmixed.symm
  rw [orderSpecializersDefault]
  cases forward : world.groundedSubtype type1 type2 with
  | none => simp [forward] at first
  | some below =>
      cases backward : world.groundedSubtype type2 type1 with
      | none => simp [backward] at second
      | some above => cases below <;> cases above <;> rfl

/-! ## Specializers of an argument -/

omit [DecidableEq Object] in
/-- Two superclasses of a class are in its precedence list. -/
theorem orderClasses_isSome {c1 c2 wrt : Class}
    (first : c1 ∈ world.allSuperclasses wrt) :
    (orderClasses world c1 c2 wrt).isSome := by
  have found : ∀ classes : List Class, c1 ∈ classes →
      (classLessIn c1 c2 classes).isSome := by
    intro classes member
    induction classes with
    | nil => simp at member
    | cons c rest ih =>
        rw [classLessIn]
        split
        · rfl
        · rename_i different
          split
          · rfl
          · apply ih
            exact (List.mem_cons.mp member).resolve_left (Ne.symm different)
  rw [orderClasses]
  split
  · rfl
  · simpa [classLess] using found _ first

/-- Two types of one argument can be ordered. -/
theorem orderSpecializers_isSome {object : Object}
    {type1 type2 : DylanType wordSize Class Object}
    (first : world.isInstance object type1 = true)
    (second : world.isInstance object type2 = true)
    (unmixed : Unmixed type1 type2) :
    (orderSpecializers world type1 type2 object).isSome := by
  have byDefault := orderSpecializersDefault_isSome world unmixed
  have isClass : ∀ {c}, world.isInstance object (.subclass c) = true →
      ∃ self, world.asClass object = some self ∧
        c ∈ world.allSuperclasses self ∧
          world.classRoot ∈
            world.allSuperclasses (world.objectClass object) := by
    intro c holds
    rw [Universe.isInstance] at holds
    cases class_ : world.asClass object with
    | none => simp [class_] at holds
    | some self =>
        rw [class_] at holds
        refine ⟨self, rfl, of_decide_eq_true holds, ?_⟩
        rw [← world.asClass_isSome, class_]
        rfl
  rw [orderSpecializers]
  split
  · rfl
  · cases type1 with
    | singleton other => cases type2 <;> rfl
    | «class» c1 =>
        cases type2 with
        | singleton other => rfl
        | «class» c2 =>
            exact orderClasses_isSome (of_decide_eq_true first)
        | subclass c2 =>
            simp only [orderDistinctSpecializers]
            split
            · split
              · exact orderClasses_isSome (of_decide_eq_true first)
              · rfl
            · rfl
        | _ => exact byDefault
    | subclass c1 =>
        obtain ⟨self, named, member, root⟩ := isClass first
        cases type2 with
        | singleton other => rfl
        | «class» c2 =>
            simp only [orderDistinctSpecializers]
            split
            · split
              · exact orderClasses_isSome root
              · rfl
            · rfl
        | subclass c2 =>
            simpa [orderDistinctSpecializers, named] using
              orderClasses_isSome member
        | _ => exact byDefault
    | _ =>
        cases type2 with
        | singleton other => rfl
        | _ => exact byDefault

/-! ## Methods -/

theorem orderMethods_self (numberRequired : Nat) (args : Arguments Object)
    (meth : Method wordSize Class Object) :
    orderMethods world numberRequired args meth meth = some .equal := by
  rw [orderMethods]
  induction List.range numberRequired with
  | nil => rfl
  | cons argnum rest ih => simpa [orderMethodsFrom, orderSpecializers]

/-- Applicable methods can be ordered unless a `<subclass>` meets a
`<limited-integer>`. -/
theorem orderMethods_isSome {numberRequired : Nat} {args : Arguments Object}
    {meth1 meth2 : Method wordSize Class Object}
    (first : methodApplicable world numberRequired args meth1 = true)
    (second : methodApplicable world numberRequired args meth2 = true)
    (unmixed : ∀ argnum < numberRequired,
      Unmixed (specializer world meth1 argnum)
        (specializer world meth2 argnum)) :
    (orderMethods world numberRequired args meth1 meth2).isSome := by
  rw [methodApplicable, List.all_eq_true] at first second
  have ordered : ∀ argnum ∈ List.range numberRequired,
      (orderSpecializers world (specializer world meth1 argnum)
        (specializer world meth2 argnum) (args argnum)).isSome :=
    fun argnum member => orderSpecializers_isSome (first argnum member)
      (second argnum member) (unmixed argnum (List.mem_range.mp member))
  rw [orderMethods]
  generalize Order.equal = state
  generalize List.range numberRequired = argnums at ordered
  induction argnums generalizing state with
  | nil => rfl
  | cons argnum rest ih =>
      have later := fun state => ih state fun other member =>
        ordered other (List.mem_cons_of_mem _ member)
      obtain ⟨cmp, compared⟩ := Option.isSome_iff_exists.mp
        (ordered argnum (List.mem_cons_self ..))
      rw [orderMethodsFrom, compared]
      dsimp only
      split
      · exact later state
      · split
        · exact later cmp
        · rfl

/-! ## Sorting -/

/-- A list of methods of which no two are equal is sorted into the ordered
and the ambiguous ones, whatever its order, if and only if no comparison of
two of them fails. -/
theorem methods_sort_iff (world : Universe wordSize Class Object)
    (numberRequired : Nat) (args : Arguments Object)
    (methods : List (Method wordSize Class Object))
    (unequal : methods.Pairwise fun meth1 meth2 =>
      orderMethods world numberRequired args meth1 meth2 ≠ some .equal) :
    (∃ ordered ambig,
      Sorts (orderMethods world numberRequired args) methods ordered
        ambig) ↔
      ∀ meth1 ∈ methods, ∀ meth2 ∈ methods,
        (orderMethods world numberRequired args meth1 meth2).isSome := by
  apply sorts_iff _ _ unequal
  · exact fun meth1 _ meth2 _ =>
      orderMethods_swap world numberRequired args meth1 meth2
  · exact fun meth _ => orderMethods_self numberRequired args meth

/-- The methods on integers and on positive integers at the argument 5. -/
theorem methods_sort_iff_sign :
    ∃ ordered ambig, Sorts (orderMethods numbers 1 fun _ => 1) sign.methods
      ordered ambig := by
  have unequal : sign.methods.Pairwise fun meth1 meth2 =>
      orderMethods numbers 1 (fun _ => 1) meth1 meth2 ≠ some .equal := by
    decide
  apply (methods_sort_iff numbers 1 _ sign.methods unequal).mpr
  decide

/-- Methods on positive integers and on `type-union(subclass(<object>),
<integer>)`. -/
def mixedMethods : List (Method 64 (Fin 3) (Fin 3)) := [
  { identity := 0
    specializers := [.union (.subclass 0) (.class 2)] },
  { identity := 1
    specializers := [.limitedInteger (some (smallFixnum 1 false)) none] }]

/-- Both methods are applicable to 5, they do not compare equal, and sorting
them signals an error. -/
theorem mixed_methods_not_sorted :
    (∀ meth ∈ mixedMethods,
      methodApplicable numbers 1 (fun _ => 1) meth = true) ∧
      (mixedMethods.Pairwise fun meth1 meth2 =>
        orderMethods numbers 1 (fun _ => 1) meth1 meth2 ≠ some .equal) ∧
      ¬∃ ordered ambig, Sorts (orderMethods numbers 1 fun _ => 1)
        mixedMethods ordered ambig := by
  refine ⟨by decide, by decide, ?_⟩
  rintro ⟨ordered, ambig, sorts⟩
  have failed : sort (orderMethods numbers 1 fun _ => 1) mixedMethods =
      none := by
    decide
  exact absurd (failed.symm.trans sorts.answer) (by simp)

end OpenDylan.Runtime.MethodOrder
