import Mathlib

/-!
# Run-time types

The types that may specialize a method, with the run-time predicates on them:
`primitive-instance?`, `grounded-subtype?`, `grounded-has-instances?` and
`same-specializer?`.  Classes and objects stay abstract; a `Universe` says
which precedence list each class has and what the built-in classes are.

`subtype?` is a generic function with no method for a `<subclass>` and a
`<limited-integer>`, so the predicates that call it may signal an error; they
return an `Option`, with `none` for the error.
-/

namespace OpenDylan.Runtime.Types

/-! ## Integers and types -/

/-- An `<integer>`: a tagged word has two tag bits. -/
@[ext]
structure Fixnum (wordSize : Nat) where
  value : Int
  lower : -(2 ^ (wordSize - 3) : Int) ≤ value
  upper : value < 2 ^ (wordSize - 3)
deriving DecidableEq

/-- The types that occur as specializers. -/
inductive DylanType (wordSize : Nat) (Class Object : Type) where
  | class (class_ : Class)
  | singleton (object : Object)
  | subclass (class_ : Class)
  | limitedInteger (minimum maximum : Option (Fixnum wordSize))
  | union (type1 type2 : DylanType wordSize Class Object)
deriving DecidableEq

/--
The classes and objects of a program.  The precedence lists are those of a
well-formed class graph: a class comes first in its own list, and the list of
a superclass lies inside the list of the class.
-/
structure Universe (wordSize : Nat) (Class Object : Type) where
  allSuperclasses : Class → List Class
  objectClass : Object → Class
  /-- The class that a class object is. -/
  asClass : Object → Option Class
  /-- The integer that an instance of `<integer>` is. -/
  asInteger : Object → Option (Fixnum wordSize)
  /-- `<object>` -/
  objectRoot : Class
  /-- `<class>` -/
  classRoot : Class
  /-- `<integer>` -/
  integerRoot : Class
  self_mem : ∀ class_, class_ ∈ allSuperclasses class_
  nodup : ∀ class_, (allSuperclasses class_).Nodup
  trans : ∀ {lower middle upper},
    middle ∈ allSuperclasses lower → upper ∈ allSuperclasses middle →
      upper ∈ allSuperclasses lower
  antisymm : ∀ {left right},
    left ∈ allSuperclasses right → right ∈ allSuperclasses left →
      left = right
  object_mem : ∀ class_, objectRoot ∈ allSuperclasses class_
  asClass_isSome : ∀ object, (asClass object).isSome ↔
    classRoot ∈ allSuperclasses (objectClass object)
  asClass_injective : ∀ {left right class_},
    asClass left = some class_ → asClass right = some class_ → left = right
  asInteger_isSome : ∀ object, (asInteger object).isSome ↔
    integerRoot ∈ allSuperclasses (objectClass object)

scoped instance neZeroThree : NeZero 3 := ⟨by decide⟩

scoped instance neZeroFour : NeZero 4 := ⟨by decide⟩

scoped instance neZeroEight : NeZero 8 := ⟨by decide⟩

/-- A program with only `<object>`, `<class>` and `<integer>`. -/
def bareUniverse : Universe 64 (Fin 3) Unit where
  allSuperclasses class_ := if class_ = 0 then [0] else [class_, 0]
  objectClass _ := 0
  asClass _ := none
  asInteger _ := none
  objectRoot := 0
  classRoot := 1
  integerRoot := 2
  self_mem := by decide
  nodup := by decide
  trans := by decide
  antisymm := by decide
  object_mem := by decide
  asClass_isSome _ := by decide
  asClass_injective := by simp
  asInteger_isSome _ := by decide

section Predicates

variable {wordSize : Nat} {Class Object : Type}
variable [DecidableEq Class] [DecidableEq Object]

/-- `subclass?` -/
def Universe.isSubclass (world : Universe wordSize Class Object)
    (lower upper : Class) : Bool :=
  upper ∈ world.allSuperclasses lower

/-! ## Instances -/

/-- The unsigned reading of a difference of tagged words. -/
def unsignedDifference (left right : Fixnum wordSize) : Int :=
  ((left.value - right.value) * 4) % (2 ^ wordSize : Int)

/-- The `instance?` functions of limited integer types. -/
def limitedIntegerInstance (minimum maximum : Option (Fixnum wordSize))
    (integer : Fixnum wordSize) : Bool :=
  match minimum, maximum with
  | some low, some high =>
      unsignedDifference integer low ≤ unsignedDifference high low
  | none, some high => integer.value ≤ high.value
  | some low, none => low.value ≤ integer.value
  | none, none => true

/-- `primitive-instance?` -/
def Universe.isInstance (world : Universe wordSize Class Object)
    (object : Object) : DylanType wordSize Class Object → Bool
  | .class class_ => world.isSubclass (world.objectClass object) class_
  | .singleton other => object = other
  | .subclass class_ =>
      match world.asClass object with
      | some self => world.isSubclass self class_
      | none => false
  | .limitedInteger minimum maximum =>
      match world.asInteger object with
      | some integer => limitedIntegerInstance minimum maximum integer
      | none => false
  | .union type1 type2 =>
      world.isInstance object type1 || world.isInstance object type2

/-! ## Subtypes -/

/-- Dylan's `&` on answers that may be errors. -/
def bothOf (left : Option Bool) (right : Option Bool) : Option Bool :=
  match left with
  | none => none
  | some false => some false
  | some true => right

/-- Dylan's `|` on answers that may be errors. -/
def eitherOf (left : Option Bool) (right : Option Bool) : Option Bool :=
  match left with
  | none => none
  | some true => some true
  | some false => right

/-- The local method of `subtype?` on two limited integers. -/
def satisfiesBound (value bound : Option (Fixnum wordSize))
    (satisfied : Int → Int → Bool) : Bool :=
  match bound with
  | none => true
  | some bound =>
      match value with
      | none => false
      | some value => satisfied value.value bound.value

/-- `grounded-subtype?` of a type that is not a union. -/
def Universe.subtypeSimple (world : Universe wordSize Class Object)
    (type1 : DylanType wordSize Class Object) :
    DylanType wordSize Class Object → Option Bool
  | .union left right =>
      match type1 with
      | .singleton object =>
          some (world.isInstance object left || world.isInstance object right)
      | _ =>
          eitherOf (world.subtypeSimple type1 left)
            (world.subtypeSimple type1 right)
  | .class upper =>
      match type1 with
      | .class lower => some (world.isSubclass lower upper)
      | .singleton object => some (world.isInstance object (.class upper))
      | .subclass _ => some (world.isSubclass world.classRoot upper)
      | .limitedInteger _ _ => some (world.isSubclass world.integerRoot upper)
      | .union _ _ => none
  | .singleton other =>
      match type1 with
      | .singleton object => some (object = other)
      | _ => some false
  | .subclass upper =>
      match type1 with
      | .class lower =>
          some (lower = world.classRoot && upper = world.classRoot)
      | .singleton object =>
          some (world.isInstance object (.subclass upper))
      | .subclass lower => some (world.isSubclass lower upper)
      | _ => none
  | .limitedInteger minimum maximum =>
      match type1 with
      | .class _ => some false
      | .singleton object =>
          some (world.isInstance object (.limitedInteger minimum maximum))
      | .limitedInteger low high =>
          some (satisfiesBound low minimum (fun value bound => value ≥ bound)
            && satisfiesBound high maximum (fun value bound => value ≤ bound))
      | _ => none

/-- `grounded-subtype?` -/
def Universe.groundedSubtype (world : Universe wordSize Class Object) :
    DylanType wordSize Class Object → DylanType wordSize Class Object →
      Option Bool
  | .union left right, type2 =>
      bothOf (world.groundedSubtype left type2)
        (world.groundedSubtype right type2)
  | .class class_, type2 => world.subtypeSimple (.class class_) type2
  | .singleton object, type2 => world.subtypeSimple (.singleton object) type2
  | .subclass class_, type2 => world.subtypeSimple (.subclass class_) type2
  | .limitedInteger minimum maximum, type2 =>
      world.subtypeSimple (.limitedInteger minimum maximum) type2

/-! ## Specializers -/

/-- `same-specializer?` -/
def Universe.sameSpecializer (world : Universe wordSize Class Object)
    (type1 type2 : DylanType wordSize Class Object) : Option Bool :=
  match type1 with
  | .class class_ => some (.class class_ = type2)
  | .singleton object =>
      match type2 with
      | .singleton other => some (object = other)
      | _ => some false
  | .subclass class_ =>
      match type2 with
      | .subclass other => some (class_ = other)
      | _ => some false
  | _ =>
      if type1 = type2 then
        some true
      else
        bothOf (world.groundedSubtype type1 type2)
          (world.groundedSubtype type2 type1)

@[simp]
theorem Universe.sameSpecializer_refl (world : Universe wordSize Class Object)
    (type : DylanType wordSize Class Object) :
    world.sameSpecializer type type = some true := by
  cases type <;> simp [Universe.sameSpecializer]

end Predicates

end OpenDylan.Runtime.Types
