import OpenDylan.Runtime.TypeTerms

/-!
# The order of types

On types that stay clear of four pairs of types, `subtype?` is a preorder and
a subtype has no instances that its supertype has not.

There is no method for a subclass type and a limited integer type.  `<class>`
counts as a subtype of `subclass(<class>)`.  A limited integer type whose bounds
are not in order has almost all integers as instances.  Dimensions are compared
up to the end of the shorter sequence.
-/

namespace OpenDylan.Runtime.SubtypeOrder

open OpenDylan.Runtime.Types OpenDylan.Runtime.TypeTerms

section Order

variable {wordSize : Nat} {Class Object : Type}

/-! ## Types that are clear of each other -/

/-- Which of two kinds of types may occur together with others. -/
structure Regime where
  /-- Limited integer types, and no subclass types. -/
  limitedIntegers : Bool
  /-- `<class>`, and no `subclass(<class>)`. -/
  metaclass : Bool
  /-- Limits on dimensions of this number, and none on sizes. -/
  rank : Option Nat

/-- The limit of a limited collection type is one of the regime. -/
def Extent.Admitted (regime : Regime) : Extent → Prop
  | .unlimited => True
  | .size _ => regime.rank = none
  | .dimensions own => regime.rank = some own.length

mutual

/-- A type, with the types inside it, is one of the regime. -/
def RuntimeType.Admitted (classRoot : Class) (regime : Regime) :
    RuntimeType wordSize Class Object → Prop
  | .class class_ => class_ = classRoot → regime.metaclass = true
  | .singleton value => Value.Admitted classRoot regime value
  | .subclass class_ =>
      regime.limitedIntegers = false ∧
        (class_ = classRoot → regime.metaclass = false)
  | .limitedInteger minimum maximum =>
      regime.limitedIntegers = true ∧
        ∀ low ∈ minimum, ∀ high ∈ maximum, low.value ≤ high.value
  | .union type1 type2 =>
      RuntimeType.Admitted classRoot regime type1 ∧
        RuntimeType.Admitted classRoot regime type2
  | .limitedCollection _ elementType extent =>
      RuntimeType.Admitted classRoot regime elementType ∧
        Extent.Admitted regime extent

/-- The element type of a collection is one of the regime. -/
def Value.Admitted (classRoot : Class) (regime : Regime) :
    Value wordSize Class Object → Prop
  | .object _ => True
  | .collection _ _ elementType _ =>
      RuntimeType.Admitted classRoot regime elementType

end

/-- Types among which none of the four pairs occurs. -/
def Clear (classRoot : Class)
    (types : List (RuntimeType wordSize Class Object)) : Prop :=
  ∃ regime, ∀ type ∈ types, RuntimeType.Admitted classRoot regime type

variable [DecidableEq Class]
  {world : CollectionUniverse wordSize Class Object}

/-! ## Classes and answers -/

theorem isSubclass_trans {lower middle upper : Class}
    (below : world.isSubclass lower middle = true)
    (belowToo : world.isSubclass middle upper = true) :
    world.isSubclass lower upper = true := by
  simp only [Universe.isSubclass, decide_eq_true_eq] at below belowToo ⊢
  exact world.trans below belowToo

theorem classValue_below {value : Value wordSize Class Object} {self : Class}
    (isClass : world.classValue value = some self) :
    world.isSubclass (world.classOf value) world.classRoot = true := by
  cases value with
  | object object =>
      rw [Universe.isSubclass, decide_eq_true_eq]
      apply (world.asClass_isSome object).mp
      rw [Option.isSome_iff_exists]
      exact ⟨self, isClass⟩
  | collection => cases isClass

theorem integerValue_below {value : Value wordSize Class Object}
    {integer : Fixnum wordSize}
    (isInteger : world.integerValue value = some integer) :
    world.isSubclass (world.classOf value) world.integerRoot = true := by
  cases value with
  | object object =>
      rw [Universe.isSubclass, decide_eq_true_eq]
      apply (world.asInteger_isSome object).mp
      rw [Option.isSome_iff_exists]
      exact ⟨integer, isInteger⟩
  | collection => cases isInteger

variable [DecidableEq Object]

theorem bothOf_eq_true {left right : Option Bool} :
    bothOf left right = some true ↔ left = some true ∧ right = some true := by
  cases left with
  | none => simp [bothOf]
  | some value => cases value <;> simp [bothOf]

theorem eitherOf_eq_true {left right : Option Bool} (answers : left ≠ none) :
    eitherOf left right = some true ↔
      left = some true ∨ right = some true := by
  cases left with
  | none => exact absurd rfl answers
  | some value => cases value <;> simp [eitherOf]

theorem bothOf_ne_none {left right : Option Bool} (answers : left ≠ none)
    (answersToo : right ≠ none) : bothOf left right ≠ none := by
  cases left with
  | none => exact absurd rfl answers
  | some value => cases value <;> simp [bothOf, answersToo]

theorem eitherOf_ne_none {left right : Option Bool} (answers : left ≠ none)
    (answersToo : right ≠ none) : eitherOf left right ≠ none := by
  cases left with
  | none => exact absurd rfl answers
  | some value => cases value <;> simp [eitherOf, answersToo]

/-! ## Unions and singletons -/

theorem subtype_union (left right type : RuntimeType wordSize Class Object) :
    world.subtype (.union left right) type =
      bothOf (world.subtype left type) (world.subtype right type) := by
  rw [CollectionUniverse.subtype]

theorem subtype_singleton (value : Value wordSize Class Object)
    (type : RuntimeType wordSize Class Object) :
    world.subtype (.singleton value) type = world.isInstance value type := by
  cases type with
  | union left right =>
      rw [CollectionUniverse.subtype, CollectionUniverse.isInstance]
  | _ => rw [CollectionUniverse.subtype]; simp

/-- Not a union. -/
def isPart : RuntimeType wordSize Class Object → Bool
  | .union _ _ => false
  | _ => true

theorem subtype_of_union {type : RuntimeType wordSize Class Object}
    (part : isPart type = true)
    (left right : RuntimeType wordSize Class Object) :
    world.subtype type (.union left right) =
      eitherOf (world.subtype type left) (world.subtype type right) := by
  cases type with
  | union _ _ => simp [isPart] at part
  | singleton value =>
      rw [subtype_singleton, subtype_singleton, subtype_singleton,
        CollectionUniverse.isInstance]
  | _ => rw [CollectionUniverse.subtype] <;> simp


variable {regime : Regime}

/-! ## No errors -/

/-- No error up to a size of the types. -/
def AnswersTo (world : CollectionUniverse wordSize Class Object)
    (regime : Regime) (bound : Nat) : Prop :=
  ∀ type1 type2 : RuntimeType wordSize Class Object,
    sizeOf type1 + sizeOf type2 ≤ bound →
    RuntimeType.Admitted world.classRoot regime type1 →
    RuntimeType.Admitted world.classRoot regime type2 →
      world.subtype type1 type2 ≠ none

theorem AnswersTo.typeEquivalent {bound : Nat}
    (answers : AnswersTo world regime bound)
    {type1 type2 : RuntimeType wordSize Class Object}
    (small : sizeOf type1 + sizeOf type2 ≤ bound)
    (admitted1 : RuntimeType.Admitted world.classRoot regime type1)
    (admitted2 : RuntimeType.Admitted world.classRoot regime type2) :
    world.typeEquivalent type1 type2 ≠ none := by
  rw [CollectionUniverse.typeEquivalent]
  split
  · simp
  · split
    · simp
    · exact bothOf_ne_none (answers type1 type2 small admitted1 admitted2)
        (answers type2 type1 (by omega) admitted2 admitted1)

theorem Extent.below_ne_none {extent1 extent2 : Extent}
    (admitted1 : Extent.Admitted regime extent1)
    (admitted2 : Extent.Admitted regime extent2) :
    extent1.below extent2 ≠ none := by
  cases extent1 <;> cases extent2 <;>
    simp_all [Extent.below, Extent.Admitted]

/-- A value against types, from types of a smaller size. -/
theorem AnswersTo.isInstance {bound : Nat}
    (answers : AnswersTo world regime bound)
    {value : Value wordSize Class Object}
    (admitted : Value.Admitted world.classRoot regime value)
    (type : RuntimeType wordSize Class Object)
    (small : sizeOf value + sizeOf type ≤ bound + 1)
    (admitted2 : RuntimeType.Admitted world.classRoot regime type) :
    world.isInstance value type ≠ none := by
  induction type using RuntimeType.rec (motive_2 := fun _ => True) with
  | union type1 type2 ih1 ih2 =>
      rw [CollectionUniverse.isInstance]
      rw [RuntimeType.Admitted] at admitted2
      rw [RuntimeType.union.sizeOf_spec] at small
      exact eitherOf_ne_none (ih1 (by omega) admitted2.1)
        (ih2 (by omega) admitted2.2)
  | limitedCollection class_ elementType extent _ =>
      cases value with
      | object object => rw [CollectionUniverse.isInstance]; simp
      | collection identity own ownType dimensions =>
          rw [CollectionUniverse.isInstance]
          rw [RuntimeType.Admitted] at admitted2
          rw [Value.Admitted] at admitted
          rw [RuntimeType.limitedCollection.sizeOf_spec,
            Value.collection.sizeOf_spec] at small
          apply bothOf_ne_none (by simp)
          exact bothOf_ne_none (answers.typeEquivalent (by omega) admitted
            admitted2.1) (by simp)
  | object => trivial
  | collection => trivial
  | _ => rw [CollectionUniverse.isInstance]; simp

theorem subtype_ne_none (bound : Nat) : AnswersTo world regime bound := by
  induction bound with
  | zero =>
      intro type1 type2 small
      cases type1 <;> simp at small
  | succ bound ih =>
      intro type1 type2 small admitted1 admitted2
      by_cases part : isPart type1 = true
      · cases type2 with
        | union left right =>
            rw [RuntimeType.Admitted] at admitted2
            rw [RuntimeType.union.sizeOf_spec] at small
            rw [subtype_of_union part]
            exact eitherOf_ne_none (ih _ _ (by omega) admitted1 admitted2.1)
              (ih _ _ (by omega) admitted1 admitted2.2)
        | limitedCollection class2 elementType2 extent2 =>
            cases type1 with
            | union _ _ => simp [isPart] at part
            | singleton value =>
                rw [RuntimeType.Admitted] at admitted1
                rw [RuntimeType.singleton.sizeOf_spec] at small
                rw [subtype_singleton]
                exact ih.isInstance admitted1 _ (by omega) admitted2
            | limitedCollection class1 elementType1 extent1 =>
                rw [RuntimeType.Admitted] at admitted1 admitted2
                rw [RuntimeType.limitedCollection.sizeOf_spec,
                  RuntimeType.limitedCollection.sizeOf_spec] at small
                rw [CollectionUniverse.subtype]
                apply bothOf_ne_none (by simp)
                apply bothOf_ne_none
                · exact ih.typeEquivalent (by omega) admitted1.1 admitted2.1
                · exact Extent.below_ne_none admitted1.2 admitted2.2
            | _ => simp [CollectionUniverse.subtype]
        | _ =>
            cases type1 with
            | union _ _ => simp [isPart] at part
            | singleton value =>
                rw [RuntimeType.Admitted] at admitted1
                rw [RuntimeType.singleton.sizeOf_spec] at small
                rw [subtype_singleton]
                exact ih.isInstance admitted1 _ (by omega) admitted2
            | _ =>
                simp_all [CollectionUniverse.subtype, RuntimeType.Admitted]
      · cases type1 with
        | union left right =>
            rw [RuntimeType.Admitted] at admitted1
            rw [RuntimeType.union.sizeOf_spec] at small
            rw [subtype_union]
            exact bothOf_ne_none (ih _ _ (by omega) admitted1.1 admitted2)
              (ih _ _ (by omega) admitted1.2 admitted2)
        | _ => simp [isPart] at part


/-- No error. -/
theorem subtype_answers {type1 type2 : RuntimeType wordSize Class Object}
    (admitted1 : RuntimeType.Admitted world.classRoot regime type1)
    (admitted2 : RuntimeType.Admitted world.classRoot regime type2) :
    world.subtype type1 type2 ≠ none :=
  subtype_ne_none _ type1 type2 (Nat.le_refl _) admitted1 admitted2

theorem subtype_of_union_iff {type left right : RuntimeType wordSize Class Object}
    (part : isPart type = true)
    (admitted : RuntimeType.Admitted world.classRoot regime type)
    (admittedLeft : RuntimeType.Admitted world.classRoot regime left) :
    world.subtype type (.union left right) = some true ↔
      world.subtype type left = some true ∨
        world.subtype type right = some true := by
  rw [subtype_of_union part]
  exact eitherOf_eq_true (subtype_answers admitted admittedLeft)

theorem subtype_widen {type left right : RuntimeType wordSize Class Object}
    (admitted : RuntimeType.Admitted world.classRoot regime type)
    (admittedLeft : RuntimeType.Admitted world.classRoot regime left)
    (below : world.subtype type left = some true ∨
      world.subtype type right = some true) :
    world.subtype type (.union left right) = some true := by
  induction type using RuntimeType.rec (motive_2 := fun _ => True) with
  | union type1 type2 ih1 ih2 =>
      rw [RuntimeType.Admitted] at admitted
      rw [subtype_union, subtype_union, bothOf_eq_true, bothOf_eq_true] at below
      rw [subtype_union, bothOf_eq_true]
      constructor
      · exact ih1 admitted.1 (below.imp And.left And.left)
      · exact ih2 admitted.2 (below.imp And.right And.right)
  | object => trivial
  | collection => trivial
  | _ => exact (subtype_of_union_iff rfl admitted admittedLeft).mpr below

/-! ## Reflexivity -/

theorem everyEqual_refl (own : List Nat) : everyEqual own own = true := by
  induction own with
  | nil => rfl
  | cons first rest ih => simp [everyEqual, ih]

theorem Extent.below_refl (extent : Extent) :
    extent.below extent = some true := by
  cases extent with
  | unlimited => rfl
  | size number => simp [Extent.below]
  | dimensions own => simp [Extent.below, everyEqual_refl]

theorem satisfiesBound_refl (bound : Option (Fixnum wordSize))
    {satisfied : Int → Int → Bool} (refl : ∀ value, satisfied value value) :
    satisfiesBound bound bound satisfied = true := by
  cases bound with
  | none => rfl
  | some value => exact refl value.value

theorem subtype_refl {type : RuntimeType wordSize Class Object}
    (admitted : RuntimeType.Admitted world.classRoot regime type) :
    world.subtype type type = some true := by
  induction type using RuntimeType.rec (motive_2 := fun _ => True) with
  | «class» class_ =>
      simp [CollectionUniverse.subtype, Universe.isSubclass, world.self_mem]
  | singleton value =>
      rw [subtype_singleton, CollectionUniverse.isInstance]
      simp
  | subclass class_ =>
      simp [CollectionUniverse.subtype, Universe.isSubclass, world.self_mem]
  | limitedInteger minimum maximum =>
      simp [CollectionUniverse.subtype, satisfiesBound_refl]
  | union type1 type2 ih1 ih2 =>
      rw [RuntimeType.Admitted] at admitted
      rw [subtype_union, bothOf_eq_true]
      constructor
      · exact subtype_widen admitted.1 admitted.1 (.inl (ih1 admitted.1))
      · exact subtype_widen admitted.2 admitted.1 (.inr (ih2 admitted.2))
  | limitedCollection class_ elementType extent =>
      rw [CollectionUniverse.subtype, CollectionUniverse.typeEquivalent,
        if_pos rfl, Extent.below_refl]
      simp [bothOf, Universe.isSubclass, world.self_mem]
  | object => trivial
  | collection => trivial

theorem typeEquivalent_iff {type1 type2 : RuntimeType wordSize Class Object}
    (admitted : RuntimeType.Admitted world.classRoot regime type1) :
    world.typeEquivalent type1 type2 = some true ↔
      world.subtype type1 type2 = some true ∧
        world.subtype type2 type1 = some true := by
  rw [CollectionUniverse.typeEquivalent]
  split
  · next same =>
      rw [← same]
      simp [subtype_refl admitted]
  · next different =>
      split
      · next classes =>
          cases type1 <;> cases type2 <;>
            simp_all [RuntimeType.isClass, CollectionUniverse.subtype,
              Universe.isSubclass]
          rename_i lower upper
          intro isBelow isAbove
          exact different (world.antisymm isAbove isBelow)
      · exact bothOf_eq_true


/-! ## Parts of types -/

/-- How a part of a type that is no singleton is below a part of another. -/
inductive PartBelow (world : CollectionUniverse wordSize Class Object) :
    RuntimeType wordSize Class Object → RuntimeType wordSize Class Object →
      Prop where
  | class {lower upper : Class}
      (below : world.isSubclass lower upper = true) :
      PartBelow world (.class lower) (.class upper)
  | subclass {lower upper : Class}
      (below : world.isSubclass lower upper = true) :
      PartBelow world (.subclass lower) (.subclass upper)
  | subclassClass {lower upper : Class}
      (below : world.isSubclass world.classRoot upper = true) :
      PartBelow world (.subclass lower) (.class upper)
  | integers {low high minimum maximum : Option (Fixnum wordSize)}
      (least : satisfiesBound low minimum (fun value bound => value ≥ bound) =
        true)
      (most : satisfiesBound high maximum (fun value bound => value ≤ bound) =
        true) :
      PartBelow world (.limitedInteger low high)
        (.limitedInteger minimum maximum)
  | integersClass {low high : Option (Fixnum wordSize)} {upper : Class}
      (below : world.isSubclass world.integerRoot upper = true) :
      PartBelow world (.limitedInteger low high) (.class upper)
  | collections {class1 class2 : Class}
      {elementType1 elementType2 : RuntimeType wordSize Class Object}
      {extent1 extent2 : Extent}
      (below : world.isSubclass class1 class2 = true)
      (equivalent : world.typeEquivalent elementType1 elementType2 = some true)
      (limits : extent1.below extent2 = some true) :
      PartBelow world (.limitedCollection class1 elementType1 extent1)
        (.limitedCollection class2 elementType2 extent2)
  | collectionsClass {class1 upper : Class}
      {elementType1 : RuntimeType wordSize Class Object} {extent1 : Extent}
      (below : world.isSubclass class1 upper = true) :
      PartBelow world (.limitedCollection class1 elementType1 extent1)
        (.class upper)

/-- Neither a union nor a singleton. -/
def isKind : RuntimeType wordSize Class Object → Bool
  | .union _ _ => false
  | .singleton _ => false
  | _ => true

theorem subtype_kind_iff {type1 type2 : RuntimeType wordSize Class Object}
    (kind : isKind type1 = true) (part : isPart type2 = true)
    (admitted1 : RuntimeType.Admitted world.classRoot regime type1)
    (admitted2 : RuntimeType.Admitted world.classRoot regime type2) :
    world.subtype type1 type2 = some true ↔ PartBelow world type1 type2 := by
  constructor
  · intro below
    cases type1 with
    | union _ _ => simp [isKind] at kind
    | singleton _ => simp [isKind] at kind
    | «class» lower =>
        cases type2 with
        | «class» upper =>
            rw [CollectionUniverse.subtype, Option.some_inj] at below
            exact .class below
        | subclass upper =>
            simp only [RuntimeType.Admitted] at admitted1 admitted2
            simp_all [CollectionUniverse.subtype]
        | union _ _ => simp [isPart] at part
        | _ => simp [CollectionUniverse.subtype] at below
    | subclass lower =>
        cases type2 with
        | «class» upper =>
            rw [CollectionUniverse.subtype, Option.some_inj] at below
            exact .subclassClass below
        | subclass upper =>
            rw [CollectionUniverse.subtype, Option.some_inj] at below
            exact .subclass below
        | union _ _ => simp [isPart] at part
        | _ => simp [CollectionUniverse.subtype] at below
    | limitedInteger low high =>
        cases type2 with
        | «class» upper =>
            rw [CollectionUniverse.subtype, Option.some_inj] at below
            exact .integersClass below
        | limitedInteger minimum maximum =>
            rw [CollectionUniverse.subtype, Option.some_inj,
              Bool.and_eq_true] at below
            exact .integers below.1 below.2
        | union _ _ => simp [isPart] at part
        | _ => simp [CollectionUniverse.subtype] at below
    | limitedCollection class1 elementType1 extent1 =>
        cases type2 with
        | «class» upper =>
            rw [CollectionUniverse.subtype, Option.some_inj] at below
            exact .collectionsClass below
        | limitedCollection class2 elementType2 extent2 =>
            rw [CollectionUniverse.subtype, bothOf_eq_true, bothOf_eq_true,
              Option.some_inj] at below
            exact .collections below.1 below.2.1 below.2.2
        | union _ _ => simp [isPart] at part
        | _ => simp [CollectionUniverse.subtype] at below
  · intro below
    cases below <;> simp_all [CollectionUniverse.subtype, bothOf]


/-! ## Limits -/

theorem everyEqual_iff {own others : List Nat}
    (lengths : own.length = others.length) :
    everyEqual own others = true ↔ own = others := by
  induction own generalizing others with
  | nil =>
      cases others with
      | nil => simp [everyEqual]
      | cons other rest => simp at lengths
  | cons first rest ih =>
      cases others with
      | nil => simp at lengths
      | cons other others =>
          rw [List.length_cons, List.length_cons] at lengths
          simp [everyEqual, ih (Nat.succ.inj lengths)]

/-- A limit of the regime that is below another one allows no more. -/
theorem Extent.allows_of_below {extent1 extent2 : Extent} {own : List Nat}
    (admitted1 : Extent.Admitted regime extent1)
    (admitted2 : Extent.Admitted regime extent2)
    (below : extent1.below extent2 = some true)
    (allows : extent1.allows own = true) : extent2.allows own = true := by
  cases extent2 with
  | unlimited => rfl
  | size number =>
      cases extent1 with
      | size other =>
          simp only [Extent.below, Extent.allows, Option.some_inj,
            decide_eq_true_eq] at below allows ⊢
          exact allows.trans below
      | _ => simp_all [Extent.below, Extent.Admitted]
  | dimensions others =>
      cases extent1 with
      | dimensions sides =>
          rw [Extent.Admitted] at admitted1 admitted2
          rw [admitted1, Option.some_inj] at admitted2
          rw [Extent.below, Option.some_inj, everyEqual_iff admitted2] at below
          rw [← below]
          exact allows
      | _ => simp [Extent.below] at below

theorem Extent.below_trans {extent1 extent2 extent3 : Extent}
    (admitted1 : Extent.Admitted regime extent1)
    (admitted2 : Extent.Admitted regime extent2)
    (below : extent1.below extent2 = some true)
    (belowToo : extent2.below extent3 = some true) :
    extent1.below extent3 = some true := by
  cases extent1 with
  | dimensions sides =>
      cases extent2 with
      | dimensions others =>
          rw [Extent.Admitted] at admitted1 admitted2
          rw [admitted1, Option.some_inj] at admitted2
          rw [Extent.below, Option.some_inj, everyEqual_iff admitted2] at below
          rw [below]
          exact belowToo
      | unlimited => cases extent3 <;> simp_all [Extent.below]
      | size number => simp_all [Extent.Admitted]
  | _ => cases extent2 <;> cases extent3 <;> simp_all [Extent.below]

theorem satisfiesBound_trans {lower middle upper : Option (Fixnum wordSize)}
    {satisfied : Int → Int → Bool}
    (trans : ∀ {first second third}, satisfied first second = true →
      satisfied second third = true → satisfied first third = true)
    (below : satisfiesBound lower middle satisfied = true)
    (belowToo : satisfiesBound middle upper satisfied = true) :
    satisfiesBound lower upper satisfied = true := by
  cases upper with
  | none => rfl
  | some bound =>
      cases middle with
      | none => simp [satisfiesBound] at belowToo
      | some value =>
          cases lower with
          | none => simp [satisfiesBound] at below
          | some least => exact trans below belowToo

/-- A tagged word lies between bounds that are in order as an integer. -/
theorem limitedIntegerInstance_iff (words : 3 ≤ wordSize)
    {minimum maximum : Option (Fixnum wordSize)}
    (ordered : ∀ low ∈ minimum, ∀ high ∈ maximum, low.value ≤ high.value)
    (integer : Fixnum wordSize) :
    limitedIntegerInstance minimum maximum integer = true ↔
      (∀ low ∈ minimum, low.value ≤ integer.value) ∧
        ∀ high ∈ maximum, integer.value ≤ high.value := by
  cases minimum with
  | none =>
      cases maximum with
      | none => simp [limitedIntegerInstance]
      | some high => simp [limitedIntegerInstance]
  | some low =>
      cases maximum with
      | none => simp [limitedIntegerInstance]
      | some high =>
          have inOrder := ordered low rfl high rfl
          have size : (2 : Int) ^ wordSize = 8 * 2 ^ (wordSize - 3) := by
            rw [show (8 : Int) = 2 ^ 3 from rfl, ← Int.pow_add,
              Nat.add_sub_cancel' words]
          have := integer.lower
          have := integer.upper
          have := low.lower
          have := low.upper
          have := high.lower
          have := high.upper
          simp only [limitedIntegerInstance, unsignedDifference, size,
            Option.mem_some_iff, forall_eq', decide_eq_true_eq]
          have wide : ((high.value - low.value) * 4) %
              (8 * 2 ^ (wordSize - 3)) = (high.value - low.value) * 4 := by
            apply Int.emod_eq_of_lt <;> omega
          rw [wide]
          by_cases least : low.value ≤ integer.value
          · have near : ((integer.value - low.value) * 4) %
                (8 * 2 ^ (wordSize - 3)) = (integer.value - low.value) * 4 := by
              apply Int.emod_eq_of_lt <;> omega
            rw [near]
            omega
          · have far : ((integer.value - low.value) * 4) %
                (8 * 2 ^ (wordSize - 3)) =
                  (integer.value - low.value) * 4 +
                    8 * 2 ^ (wordSize - 3) := by
              rw [← Int.add_emod_right]
              apply Int.emod_eq_of_lt <;> omega
            rw [far]
            omega


/-! ## Transitivity -/

/-- Transitivity up to a size of the types. -/
def TransitiveTo (world : CollectionUniverse wordSize Class Object)
    (regime : Regime) (bound : Nat) : Prop :=
  ∀ type1 type2 type3 : RuntimeType wordSize Class Object,
    sizeOf type1 + sizeOf type2 + sizeOf type3 ≤ bound →
    RuntimeType.Admitted world.classRoot regime type1 →
    RuntimeType.Admitted world.classRoot regime type2 →
    RuntimeType.Admitted world.classRoot regime type3 →
    world.subtype type1 type2 = some true →
    world.subtype type2 type3 = some true →
      world.subtype type1 type3 = some true

theorem TransitiveTo.typeEquivalent {bound : Nat}
    (transitive : TransitiveTo world regime bound)
    {type1 type2 type3 : RuntimeType wordSize Class Object}
    (small : sizeOf type1 + sizeOf type2 + sizeOf type3 ≤ bound)
    (admitted1 : RuntimeType.Admitted world.classRoot regime type1)
    (admitted2 : RuntimeType.Admitted world.classRoot regime type2)
    (admitted3 : RuntimeType.Admitted world.classRoot regime type3)
    (same : world.typeEquivalent type1 type2 = some true)
    (sameToo : world.typeEquivalent type2 type3 = some true) :
    world.typeEquivalent type1 type3 = some true := by
  rw [typeEquivalent_iff admitted1] at same ⊢
  rw [typeEquivalent_iff admitted2] at sameToo
  constructor
  · exact transitive _ _ _ small admitted1 admitted2 admitted3 same.1 sameToo.1
  · exact transitive _ _ _ (by omega) admitted3 admitted2 admitted1 sameToo.2
      same.2

theorem PartBelow.trans {bound : Nat}
    (transitive : TransitiveTo world regime bound)
    {type1 type2 type3 : RuntimeType wordSize Class Object}
    (small : sizeOf type1 + sizeOf type2 + sizeOf type3 ≤ bound + 1)
    (admitted1 : RuntimeType.Admitted world.classRoot regime type1)
    (admitted2 : RuntimeType.Admitted world.classRoot regime type2)
    (admitted3 : RuntimeType.Admitted world.classRoot regime type3)
    (below : PartBelow world type1 type2)
    (belowToo : PartBelow world type2 type3) :
    PartBelow world type1 type3 := by
  cases below with
  | «class» below =>
      cases belowToo with
      | «class» belowToo => exact .class (isSubclass_trans below belowToo)
  | subclass below =>
      cases belowToo with
      | subclass belowToo =>
          exact .subclass (isSubclass_trans below belowToo)
      | subclassClass belowToo => exact .subclassClass belowToo
  | subclassClass below =>
      cases belowToo with
      | «class» belowToo =>
          exact .subclassClass (isSubclass_trans below belowToo)
  | integers least most =>
      cases belowToo with
      | integers leastToo mostToo =>
          apply PartBelow.integers
          · apply satisfiesBound_trans _ least leastToo
            intro first second third isLess isLessToo
            simp only [ge_iff_le, decide_eq_true_eq] at isLess isLessToo ⊢
            exact Int.le_trans isLessToo isLess
          · apply satisfiesBound_trans _ most mostToo
            intro first second third isLess isLessToo
            simp only [decide_eq_true_eq] at isLess isLessToo ⊢
            exact Int.le_trans isLess isLessToo
      | integersClass belowToo => exact .integersClass belowToo
  | integersClass below =>
      cases belowToo with
      | «class» belowToo =>
          exact .integersClass (isSubclass_trans below belowToo)
  | collections below same limits =>
      cases belowToo with
      | collections belowToo sameToo limitsToo =>
          simp only [RuntimeType.Admitted] at admitted1 admitted2 admitted3
          simp only [RuntimeType.limitedCollection.sizeOf_spec] at small
          apply PartBelow.collections (isSubclass_trans below belowToo)
          · exact transitive.typeEquivalent (by omega) admitted1.1 admitted2.1
              admitted3.1 same sameToo
          · exact Extent.below_trans admitted1.2 admitted2.2 limits limitsToo
      | collectionsClass belowToo =>
          exact .collectionsClass (isSubclass_trans below belowToo)
  | collectionsClass below =>
      cases belowToo with
      | «class» belowToo =>
          exact .collectionsClass (isSubclass_trans below belowToo)


theorem satisfiesBound_least {low minimum : Option (Fixnum wordSize)}
    {integer : Fixnum wordSize}
    (least : satisfiesBound low minimum (fun value bound => value ≥ bound) =
      true)
    (above : ∀ bound ∈ low, bound.value ≤ integer.value) :
    ∀ bound ∈ minimum, bound.value ≤ integer.value := by
  intro bound member
  cases low with
  | none => simp_all [satisfiesBound]
  | some value =>
      simp_all [satisfiesBound]
      exact Int.le_trans least above

theorem satisfiesBound_most {high maximum : Option (Fixnum wordSize)}
    {integer : Fixnum wordSize}
    (most : satisfiesBound high maximum (fun value bound => value ≤ bound) =
      true)
    (below : ∀ bound ∈ high, integer.value ≤ bound.value) :
    ∀ bound ∈ maximum, integer.value ≤ bound.value := by
  intro bound member
  cases high with
  | none => simp_all [satisfiesBound]
  | some value =>
      simp_all [satisfiesBound]
      exact Int.le_trans below most

theorem isInstance_class {value : Value wordSize Class Object}
    {class_ : Class} :
    world.isInstance value (.class class_) = some true ↔
      world.isSubclass (world.classOf value) class_ = true := by
  rw [CollectionUniverse.isInstance, Option.some_inj]

/-- Instances of limited collection types. -/
theorem isInstance_limitedCollection {value : Value wordSize Class Object}
    {class_ : Class} {elementType : RuntimeType wordSize Class Object}
    {extent : Extent} :
    world.isInstance value (.limitedCollection class_ elementType extent) =
        some true ↔
      ∃ identity own ownType dimensions,
        value = .collection identity own ownType dimensions ∧
        world.isCollectionClass own = true ∧
        world.isSubclass own class_ = true ∧
        world.typeEquivalent ownType elementType = some true ∧
        extent.allows dimensions = true := by
  cases value with
  | object object => rw [CollectionUniverse.isInstance]; simp
  | collection identity own ownType dimensions =>
      rw [CollectionUniverse.isInstance, bothOf_eq_true, bothOf_eq_true,
        Option.some_inj, Option.some_inj, Bool.and_eq_true]
      constructor
      · rintro ⟨⟨isCollection, below⟩, same, allows⟩
        exact ⟨identity, own, ownType, dimensions, rfl, isCollection, below,
          same, allows⟩
      · rintro ⟨_, _, _, _, equal, isCollection, below, same, allows⟩
        cases equal
        exact ⟨⟨isCollection, below⟩, same, allows⟩

theorem PartBelow.isInstance (words : 3 ≤ wordSize) {bound : Nat}
    (transitive : TransitiveTo world regime bound)
    {value : Value wordSize Class Object}
    {type1 type2 : RuntimeType wordSize Class Object}
    (small : sizeOf value + sizeOf type1 + sizeOf type2 ≤ bound + 1)
    (admitted : Value.Admitted world.classRoot regime value)
    (admitted1 : RuntimeType.Admitted world.classRoot regime type1)
    (admitted2 : RuntimeType.Admitted world.classRoot regime type2)
    (below : PartBelow world type1 type2)
    (isInstance : world.isInstance value type1 = some true) :
    world.isInstance value type2 = some true := by
  cases below with
  | «class» below =>
      rw [isInstance_class] at isInstance ⊢
      exact isSubclass_trans isInstance below
  | subclass below =>
      rw [CollectionUniverse.isInstance, Option.some_inj,
        Option.any_eq_true] at isInstance ⊢
      obtain ⟨self, isClass, isBelow⟩ := isInstance
      exact ⟨self, isClass, isSubclass_trans isBelow below⟩
  | subclassClass below =>
      rw [CollectionUniverse.isInstance, Option.some_inj,
        Option.any_eq_true] at isInstance
      obtain ⟨self, isClass, -⟩ := isInstance
      rw [isInstance_class]
      exact isSubclass_trans (classValue_below isClass) below
  | integers least most =>
      simp only [RuntimeType.Admitted] at admitted1 admitted2
      rw [CollectionUniverse.isInstance, Option.some_inj,
        Option.any_eq_true] at isInstance ⊢
      obtain ⟨integer, isInteger, inside⟩ := isInstance
      rw [limitedIntegerInstance_iff words admitted1.2] at inside
      refine ⟨integer, isInteger, ?_⟩
      rw [limitedIntegerInstance_iff words admitted2.2]
      exact ⟨satisfiesBound_least least inside.1,
        satisfiesBound_most most inside.2⟩
  | integersClass below =>
      rw [CollectionUniverse.isInstance, Option.some_inj,
        Option.any_eq_true] at isInstance
      obtain ⟨integer, isInteger, -⟩ := isInstance
      rw [isInstance_class]
      exact isSubclass_trans (integerValue_below isInteger) below
  | collections below same limits =>
      simp only [RuntimeType.Admitted] at admitted1 admitted2
      simp only [RuntimeType.limitedCollection.sizeOf_spec] at small
      rw [isInstance_limitedCollection] at isInstance ⊢
      obtain ⟨identity, own, ownType, dimensions, rfl, isCollection, isBelow,
        isSame, allows⟩ := isInstance
      rw [Value.Admitted] at admitted
      rw [Value.collection.sizeOf_spec] at small
      refine ⟨identity, own, ownType, dimensions, rfl, isCollection,
        isSubclass_trans isBelow below, ?_, ?_⟩
      · exact transitive.typeEquivalent (by omega) admitted admitted1.1
          admitted2.1 isSame same
      · exact Extent.allows_of_below admitted1.2 admitted2.2 limits allows
  | collectionsClass below =>
      rw [isInstance_limitedCollection] at isInstance
      obtain ⟨identity, own, ownType, dimensions, rfl, -, isBelow, -⟩ :=
        isInstance
      rw [isInstance_class]
      exact isSubclass_trans isBelow below

theorem eq_of_subtype_singleton {type : RuntimeType wordSize Class Object}
    {value : Value wordSize Class Object} (part : isPart type = true)
    (below : world.subtype type (.singleton value) = some true) :
    type = .singleton value := by
  cases type with
  | union _ _ => simp [isPart] at part
  | singleton other =>
      rw [subtype_singleton, CollectionUniverse.isInstance, Option.some_inj,
        decide_eq_true_eq] at below
      rw [below]
  | _ => simp [CollectionUniverse.subtype] at below

theorem subtype_transitive (words : 3 ≤ wordSize) (bound : Nat) :
    TransitiveTo world regime bound := by
  induction bound with
  | zero =>
      intro type1 type2 type3 small
      cases type1 <;> simp at small
  | succ bound ih =>
      intro type1 type2 type3 small admitted1 admitted2 admitted3 below belowToo
      by_cases part1 : isPart type1 = true
      · by_cases part2 : isPart type2 = true
        · by_cases part3 : isPart type3 = true
          · by_cases kind2 : isKind type2 = true
            · have relation := (subtype_kind_iff kind2 part3 admitted2
                admitted3).mp belowToo
              by_cases kind1 : isKind type1 = true
              · rw [subtype_kind_iff kind1 part2 admitted1 admitted2] at below
                rw [subtype_kind_iff kind1 part3 admitted1 admitted3]
                exact below.trans ih small admitted1 admitted2 admitted3
                  relation
              · cases type1 with
                | singleton value =>
                    rw [subtype_singleton] at below ⊢
                    rw [RuntimeType.Admitted] at admitted1
                    rw [RuntimeType.singleton.sizeOf_spec] at small
                    exact relation.isInstance words ih (by omega) admitted1
                      admitted2 admitted3 below
                | union _ _ => simp [isPart] at part1
                | _ => simp [isKind] at kind1
            · cases type2 with
              | singleton value =>
                  rw [eq_of_subtype_singleton part1 below]
                  exact belowToo
              | union _ _ => simp [isPart] at part2
              | _ => simp [isKind] at kind2
          · cases type3 with
            | union left right =>
                rw [RuntimeType.union.sizeOf_spec] at small
                rw [RuntimeType.Admitted] at admitted3
                rw [subtype_of_union_iff part2 admitted2 admitted3.1]
                  at belowToo
                rw [subtype_of_union_iff part1 admitted1 admitted3.1]
                refine belowToo.imp (fun belowToo => ?_) fun belowToo => ?_
                · exact ih _ _ _ (by omega) admitted1 admitted2 admitted3.1
                    below belowToo
                · exact ih _ _ _ (by omega) admitted1 admitted2 admitted3.2
                    below belowToo
            | _ => simp [isPart] at part3
        · cases type2 with
          | union left right =>
              rw [RuntimeType.union.sizeOf_spec] at small
              rw [RuntimeType.Admitted] at admitted2
              rw [subtype_of_union_iff part1 admitted1 admitted2.1] at below
              rw [subtype_union, bothOf_eq_true] at belowToo
              rcases below with below | below
              · exact ih _ _ _ (by omega) admitted1 admitted2.1 admitted3 below
                  belowToo.1
              · exact ih _ _ _ (by omega) admitted1 admitted2.2 admitted3 below
                  belowToo.2
          | _ => simp [isPart] at part2
      · cases type1 with
        | union left right =>
            rw [RuntimeType.union.sizeOf_spec] at small
            rw [RuntimeType.Admitted] at admitted1
            rw [subtype_union, bothOf_eq_true] at below ⊢
            constructor
            · exact ih _ _ _ (by omega) admitted1.1 admitted2 admitted3 below.1
                belowToo
            · exact ih _ _ _ (by omega) admitted1.2 admitted2 admitted3 below.2
                belowToo
        | _ => simp [isPart] at part1

/-! ## The preorder -/

end Order

/-! ## Types that are not clear of each other -/

/-- `<object>`, `<class>` and `<integer>` with these classes as objects, and
`<limited-collection>`. -/
def classUniverse : CollectionUniverse 64 (Fin 4) (Fin 4) where
  allSuperclasses class_ := if class_ = 0 then [0] else [class_, 0]
  objectClass _ := 1
  asClass object := some object
  asInteger _ := none
  objectRoot := 0
  classRoot := 1
  integerRoot := 2
  self_mem := by decide
  nodup := by decide
  trans := by decide
  antisymm := by decide
  object_mem := by decide
  asClass_isSome _ := by simp
  asClass_injective := by simp
  asInteger_isSome _ := by simp
  limitedCollectionRoot := 3
  otherCollectionRoots := []

/-- `limited(<integer>, min: 5)` -/
def fromFive : RuntimeType 64 (Fin 4) (Fin 4) :=
  .limitedInteger (some ⟨5, by decide, by decide⟩) none

/-- A limited array type of `<object>`. -/
def arrayType (dimensions : List Nat) : RuntimeType 64 (Fin 4) (Fin 4) :=
  .limitedCollection 3 (.class 0) (.dimensions dimensions)

end OpenDylan.Runtime.SubtypeOrder
