import OpenDylan.Runtime.Types

/-!
# Types and limited collections

All run-time types, with `instance?` and `subtype?`.  The type of the elements
of a limited collection is recorded in the collection, and two such types are
compared by `subtype?` in both directions, so that a singleton of a collection
leads back to types.

As before `none` is the error of a call of `subtype?` for which there is no
method: it has none for a `<subclass>` and a `<limited-integer>`, in either
order.
-/

namespace OpenDylan.Runtime.TypeTerms

open OpenDylan.Runtime.Types

/-! ## Types and values -/

/-- The limit of a limited collection type: none, the `size:` or the
`dimensions:` of the collections. -/
inductive Extent where
  | unlimited
  | size (size : Nat)
  | dimensions (dimensions : List Nat)
deriving DecidableEq

mutual

/-- The types that occur at run time. -/
inductive RuntimeType (wordSize : Nat) (Class Object : Type) where
  | class (class_ : Class)
  | singleton (value : Value wordSize Class Object)
  | subclass (class_ : Class)
  | limitedInteger (minimum maximum : Option (Fixnum wordSize))
  | union (type1 type2 : RuntimeType wordSize Class Object)
  | limitedCollection (class_ : Class)
      (elementType : RuntimeType wordSize Class Object) (extent : Extent)

/-- An object: one of a universe, or a collection with its `element-type` and
its `dimensions`. -/
inductive Value (wordSize : Nat) (Class Object : Type) where
  | object (object : Object)
  | collection (identity : Nat) (class_ : Class)
      (elementType : RuntimeType wordSize Class Object)
      (dimensions : List Nat)

end

deriving instance DecidableEq for RuntimeType, Value

/-- Is the type a `<class>`? -/
def RuntimeType.isClass {wordSize : Nat} {Class Object : Type} :
    RuntimeType wordSize Class Object → Bool
  | .class _ => true
  | _ => false

/-- The types that are no limited collections. -/
def RuntimeType.ofDylanType {wordSize : Nat} {Class Object : Type} :
    DylanType wordSize Class Object → RuntimeType wordSize Class Object
  | .class class_ => .class class_
  | .singleton object => .singleton (.object object)
  | .subclass class_ => .subclass class_
  | .limitedInteger minimum maximum => .limitedInteger minimum maximum
  | .union type1 type2 => .union (ofDylanType type1) (ofDylanType type2)

/-- A universe with the classes of limited collections. -/
structure CollectionUniverse (wordSize : Nat) (Class Object : Type) extends
    Universe wordSize Class Object where
  /-- `<limited-collection>` -/
  limitedCollectionRoot : Class
  /-- `<simple-vector>`, `<limited-stretchy-vector>` and `<simple-array>` -/
  otherCollectionRoots : List Class

section Predicates

variable {wordSize : Nat} {Class Object : Type}

/-- `object-class` -/
def CollectionUniverse.classOf
    (world : CollectionUniverse wordSize Class Object) :
    Value wordSize Class Object → Class
  | .object object => world.objectClass object
  | .collection _ class_ _ _ => class_

/-- The class that a class object is. -/
def CollectionUniverse.classValue
    (world : CollectionUniverse wordSize Class Object) :
    Value wordSize Class Object → Option Class
  | .object object => world.asClass object
  | .collection _ _ _ _ => none

/-- The integer that an instance of `<integer>` is. -/
def CollectionUniverse.integerValue
    (world : CollectionUniverse wordSize Class Object) :
    Value wordSize Class Object → Option (Fixnum wordSize)
  | .object object => world.asInteger object
  | .collection _ _ _ _ => none

/-- `every?(\=, first, second)`, which stops with the shorter sequence. -/
def everyEqual : List Nat → List Nat → Bool
  | first :: firsts, second :: seconds =>
      first = second && everyEqual firsts seconds
  | _, _ => true

/-- The part of `limited-collection-instance?` on the dimensions of a
collection. -/
def Extent.allows : Extent → List Nat → Bool
  | .unlimited, _ => true
  | .size number, own => own.prod = number
  | .dimensions others, own => everyEqual own others

/-- The part of `subtype?` on sizes and dimensions; `reduce1` signals an error
for an empty sequence. -/
def Extent.below : Extent → Extent → Option Bool
  | .dimensions own, .size number =>
      if own.isEmpty then none else some (own.prod = number)
  | .dimensions own, .dimensions others => some (everyEqual own others)
  | .size own, .size number => some (own = number)
  | _, .unlimited => some true
  | _, _ => some false

variable [DecidableEq Class] [DecidableEq Object]

/-- The classes in `limited-collection-instance?`. -/
def CollectionUniverse.isCollectionClass
    (world : CollectionUniverse wordSize Class Object) (class_ : Class) :
    Bool :=
  world.isSubclass class_ world.limitedCollectionRoot ||
    world.otherCollectionRoots.any fun root => world.isSubclass class_ root

mutual

/-- `instance?` -/
def CollectionUniverse.isInstance
    (world : CollectionUniverse wordSize Class Object)
    (value : Value wordSize Class Object) :
    RuntimeType wordSize Class Object → Option Bool
  | .class class_ => some (world.isSubclass (world.classOf value) class_)
  | .singleton other => some (value = other)
  | .subclass class_ =>
      some ((world.classValue value).any fun self =>
        world.isSubclass self class_)
  | .limitedInteger minimum maximum =>
      some ((world.integerValue value).any fun integer =>
        limitedIntegerInstance minimum maximum integer)
  | .union type1 type2 =>
      eitherOf (world.isInstance value type1) (world.isInstance value type2)
  | .limitedCollection class_ elementType extent =>
      match value with
      | .object _ => some false
      | .collection _ own ownType ownDimensions =>
          bothOf
            (some (world.isCollectionClass own &&
              world.isSubclass own class_))
            (bothOf (world.typeEquivalent ownType elementType)
              (some (extent.allows ownDimensions)))
termination_by type => (sizeOf value + sizeOf type, 0)

/-- `subtype?` -/
def CollectionUniverse.subtype
    (world : CollectionUniverse wordSize Class Object) :
    RuntimeType wordSize Class Object → RuntimeType wordSize Class Object →
      Option Bool
  | .union left right, type2 =>
      bothOf (world.subtype left type2) (world.subtype right type2)
  | .singleton value, .union left right =>
      eitherOf (world.isInstance value left) (world.isInstance value right)
  | type1, .union left right =>
      eitherOf (world.subtype type1 left) (world.subtype type1 right)
  | .singleton value, type2 => world.isInstance value type2
  | _, .singleton _ => some false
  | .class lower, .class upper => some (world.isSubclass lower upper)
  | .class lower, .subclass upper =>
      some (lower = world.classRoot && upper = world.classRoot)
  | .class _, .limitedInteger _ _ => some false
  | .class _, .limitedCollection _ _ _ => some false
  | .subclass _, .class upper =>
      some (world.isSubclass world.classRoot upper)
  | .subclass lower, .subclass upper => some (world.isSubclass lower upper)
  | .subclass _, .limitedInteger _ _ => none
  | .subclass _, .limitedCollection _ _ _ => some false
  | .limitedInteger _ _, .class upper =>
      some (world.isSubclass world.integerRoot upper)
  | .limitedInteger _ _, .subclass _ => none
  | .limitedInteger low high, .limitedInteger minimum maximum =>
      some (satisfiesBound low minimum (fun value bound => value ≥ bound)
        && satisfiesBound high maximum (fun value bound => value ≤ bound))
  | .limitedInteger _ _, .limitedCollection _ _ _ => some false
  | .limitedCollection lower _ _, .class upper =>
      some (world.isSubclass lower upper)
  | .limitedCollection _ _ _, .subclass _ => some false
  | .limitedCollection _ _ _, .limitedInteger _ _ => some false
  | .limitedCollection class1 elementType1 extent1,
      .limitedCollection class2 elementType2 extent2 =>
      bothOf (some (world.isSubclass class1 class2))
        (bothOf (world.typeEquivalent elementType1 elementType2)
          (extent1.below extent2))
termination_by type1 type2 => (sizeOf type1 + sizeOf type2, 0)

/-- `type-equivalent?` -/
def CollectionUniverse.typeEquivalent
    (world : CollectionUniverse wordSize Class Object)
    (type1 type2 : RuntimeType wordSize Class Object) : Option Bool :=
  if type1 = type2 then
    some true
  else if type1.isClass && type2.isClass then
    some false
  else
    bothOf (world.subtype type1 type2) (world.subtype type2 type1)
termination_by (sizeOf type1 + sizeOf type2, 1)
decreasing_by
  · exact Prod.Lex.right _ Nat.zero_lt_one
  · rw [Nat.add_comm]
    exact Prod.Lex.right _ Nat.zero_lt_one

end

end Predicates

end OpenDylan.Runtime.TypeTerms
