import OpenDylan.Lib.Specificity
import OpenDylan.Runtime.MethodTable

/-!
# The order of applicable methods

`%order-specializers` compares two types that an argument is an instance of:
classes by the precedence list of the argument's class, other types by
`subtype?`.  `%order-methods` combines the positions, and one unordered
position makes two methods ambiguous.
-/

namespace OpenDylan.Runtime.MethodOrder

open OpenDylan.Lib.Specificity
open OpenDylan.Runtime.Types
open OpenDylan.Runtime.MethodTable (Method)

variable {wordSize : Nat} {Class Object : Type}

/-- The arguments of a call, by position. -/
abbrev Arguments (Object : Type) : Type := Nat → Object

/-- `%method-specializer` -/
def specializer (world : Universe wordSize Class Object)
    (m : Method wordSize Class Object) (argnum : Nat) :
    DylanType wordSize Class Object :=
  m.specializers.getD argnum (.class world.objectRoot)

section Order

variable [DecidableEq Class] [DecidableEq Object]

/-! ## Specializers -/

/-- The loop of `%class<` over the superclasses of a class. -/
def classLessIn (c1 c2 : Class) : List Class → Option Bool
  | [] => none
  | c :: rest =>
      if c = c1 then
        some true
      else if c = c2 then
        some false
      else
        classLessIn c1 c2 rest

/-- `%class<`; an error when the class has neither superclass. -/
def classLess (world : Universe wordSize Class Object) (c1 c2 wrt : Class) :
    Option Bool :=
  classLessIn c1 c2 (world.allSuperclasses wrt)

/-- `%order-specializers-default` -/
def orderSpecializersDefault (world : Universe wordSize Class Object)
    (t1 t2 : DylanType wordSize Class Object) : Option Order :=
  match world.groundedSubtype t1 t2, world.groundedSubtype t2 t1 with
  | some true, some true => some .equal
  | some true, some false => some .less
  | some false, some true => some .greater
  | some false, some false => some .unordered
  | _, _ => none

/-- Two classes by the precedence list of a third one. -/
def orderClasses (world : Universe wordSize Class Object)
    (c1 c2 wrt : Class) : Option Order :=
  if c1 = c2 then
    some .equal
  else
    (classLess world c1 c2 wrt).map
      fun less => if less then .less else .greater

/-- `%order-specializers` of two different types. -/
def orderDistinctSpecializers (world : Universe wordSize Class Object)
    (arg : Object) :
    DylanType wordSize Class Object → DylanType wordSize Class Object →
      Option Order
  | .singleton _, .singleton _ => some .equal
  | .singleton _, _ => some .less
  | _, .singleton _ => some .greater
  | .subclass c1, .subclass c2 =>
      (world.asClass arg).bind fun arg => orderClasses world c1 c2 arg
  | .subclass c1, .class c2 =>
      if world.isSubclass world.classRoot c2 then
        if c1 = world.objectRoot then
          orderClasses world world.classRoot c2 (world.objectClass arg)
        else
          some .less
      else
        some .unordered
  | .class c1, .subclass c2 =>
      if world.isSubclass world.classRoot c1 then
        if c2 = world.objectRoot then
          orderClasses world c1 world.classRoot (world.objectClass arg)
        else
          some .greater
      else
        some .unordered
  | .class c1, .class c2 =>
      orderClasses world c1 c2 (world.objectClass arg)
  | t1, t2 => orderSpecializersDefault world t1 t2

/-- `%order-specializers` -/
def orderSpecializers (world : Universe wordSize Class Object)
    (t1 t2 : DylanType wordSize Class Object) (arg : Object) :
    Option Order :=
  if t1 = t2 then
    some .equal
  else
    orderDistinctSpecializers world arg t1 t2

theorem classLessIn_swap {c1 c2 : Class} (different : c1 ≠ c2)
    (classes : List Class) :
    classLessIn c2 c1 classes = (classLessIn c1 c2 classes).map not := by
  induction classes with
  | nil => rfl
  | cons c rest ih =>
      by_cases first : c = c1
      · subst first
        simp [classLessIn, different]
      · by_cases second : c = c2
        · subst second
          simp [classLessIn, first]
        · simp [classLessIn, first, second, ih]

omit [DecidableEq Object] in
theorem orderClasses_swap (world : Universe wordSize Class Object)
    (c1 c2 wrt : Class) :
    orderClasses world c2 c1 wrt =
      (orderClasses world c1 c2 wrt).map Order.swap := by
  by_cases same : c1 = c2
  · subst same
    simp [orderClasses, Order.swap]
  · rw [orderClasses, orderClasses, if_neg same, if_neg (Ne.symm same),
      classLess, classLess, classLessIn_swap same]
    cases classLessIn c1 c2 (world.allSuperclasses wrt) with
    | none => rfl
    | some less => cases less <;> rfl

theorem orderSpecializersDefault_swap
    (world : Universe wordSize Class Object)
    (t1 t2 : DylanType wordSize Class Object) :
    orderSpecializersDefault world t2 t1 =
      (orderSpecializersDefault world t1 t2).map Order.swap := by
  rw [orderSpecializersDefault, orderSpecializersDefault]
  cases world.groundedSubtype t1 t2 with
  | none =>
      cases world.groundedSubtype t2 t1 with
      | none => rfl
      | some second => cases second <;> rfl
  | some first =>
      cases world.groundedSubtype t2 t1 with
      | none => cases first <;> rfl
      | some second => cases first <;> cases second <;> rfl

theorem orderDistinctSpecializers_swap
    (world : Universe wordSize Class Object) (arg : Object)
    (t1 t2 : DylanType wordSize Class Object) :
    orderDistinctSpecializers world arg t2 t1 =
      (orderDistinctSpecializers world arg t1 t2).map Order.swap := by
  cases t1 <;> cases t2
  case class.class => exact orderClasses_swap ..
  case class.subclass c1 c2 =>
    simp only [orderDistinctSpecializers]
    split
    · split
      · exact orderClasses_swap ..
      · rfl
    · rfl
  case subclass.class c1 c2 =>
    simp only [orderDistinctSpecializers]
    split
    · split
      · exact orderClasses_swap ..
      · rfl
    · rfl
  case subclass.subclass c1 c2 =>
    simp only [orderDistinctSpecializers]
    cases world.asClass arg with
    | none => rfl
    | some arg => exact orderClasses_swap ..
  all_goals first
    | rfl
    | exact orderSpecializersDefault_swap ..

/-- Exchanging the specializers exchanges the answer. -/
theorem orderSpecializers_swap (world : Universe wordSize Class Object)
    (t1 t2 : DylanType wordSize Class Object) (arg : Object) :
    orderSpecializers world t2 t1 arg =
      (orderSpecializers world t1 t2 arg).map Order.swap := by
  by_cases same : t1 = t2
  · subst same
    simp [orderSpecializers, Order.swap]
  · rw [orderSpecializers, orderSpecializers, if_neg same,
      if_neg (Ne.symm same), orderDistinctSpecializers_swap]

/-! ## Methods -/

/-- The loop of `%order-methods`. -/
def orderMethodsFrom (world : Universe wordSize Class Object)
    (meth1 meth2 : Method wordSize Class Object) (args : Arguments Object) :
    Order → List Nat → Option Order
  | state, [] => some state
  | state, argnum :: rest =>
      match orderSpecializers world (specializer world meth1 argnum)
          (specializer world meth2 argnum) (args argnum) with
      | none => none
      | some cmp =>
          if cmp = .equal then
            orderMethodsFrom world meth1 meth2 args state rest
          else if cmp ≠ .unordered ∧ (state = .equal ∨ cmp = state) then
            orderMethodsFrom world meth1 meth2 args cmp rest
          else
            some .unordered

/-- `%order-methods` -/
def orderMethods (world : Universe wordSize Class Object)
    (numberRequired : Nat) (args : Arguments Object)
    (meth1 meth2 : Method wordSize Class Object) : Option Order :=
  orderMethodsFrom world meth1 meth2 args .equal (List.range numberRequired)

theorem orderMethodsFrom_swap (world : Universe wordSize Class Object)
    (meth1 meth2 : Method wordSize Class Object) (args : Arguments Object)
    (state : Order) (rest : List Nat) :
    orderMethodsFrom world meth2 meth1 args state.swap rest =
      (orderMethodsFrom world meth1 meth2 args state rest).map
        Order.swap := by
  induction rest generalizing state with
  | nil => rfl
  | cons argnum rest ih =>
      rw [orderMethodsFrom, orderMethodsFrom, orderSpecializers_swap]
      cases orderSpecializers world (specializer world meth1 argnum)
          (specializer world meth2 argnum) (args argnum) with
      | none => rfl
      | some cmp =>
          have less : orderMethodsFrom world meth2 meth1 args .greater
              rest = _ := ih .less
          have greater : orderMethodsFrom world meth2 meth1 args .less
              rest = _ := ih .greater
          cases cmp with
          | equal => exact ih state
          | unordered => rfl
          | less => cases state <;> simp [Order.swap, less]
          | greater => cases state <;> simp [Order.swap, greater]

/-- Exchanging the methods exchanges the answer. -/
theorem orderMethods_swap (world : Universe wordSize Class Object)
    (numberRequired : Nat) (args : Arguments Object)
    (meth1 meth2 : Method wordSize Class Object) :
    orderMethods world numberRequired args meth2 meth1 =
      (orderMethods world numberRequired args meth1 meth2).map Order.swap :=
  orderMethodsFrom_swap world meth1 meth2 args .equal _

/-! ## Applicable methods -/

/-- `%method-applicable?` -/
def methodApplicable (world : Universe wordSize Class Object)
    (numberRequired : Nat) (args : Arguments Object)
    (m : Method wordSize Class Object) : Bool :=
  (List.range numberRequired).all fun argnum =>
    world.isInstance (args argnum) (specializer world m argnum)

end Order

end OpenDylan.Runtime.MethodOrder
