import Mathlib.Data.List.Basic

/-!
# Folding of multiple-value adjustment

An adjustment takes the values of a multiple-value temporary and yields exactly
`n` of them, or at least `n`, where missing values are `#f`.  Constant folding
removes the adjustment when the type estimate says that it does nothing, and
otherwise computes it when the values come from a `<values>` computation.

Objects, references to them and the types in an estimate are parameters.  The
environment of the computation and the links of the flow graph are left out, and
so is the width of the field that a temporary keeps its number of values in.
-/

namespace OpenDylan.Compiler.ValuesFolding

/-! ## References and values -/

/-- What the references of a flow graph stand for: the object of a reference,
and the objects of a sequence that a reference stands for. -/
structure References (Reference Object : Type) where
  value : Reference → Object
  sequence : Reference → List Object
  /-- The object `#f`. -/
  falseObject : Object
  /-- `make-object-reference(#f)` -/
  falseReference : Reference
  value_false : value falseReference = falseObject

/-- `<values>` -/
structure ValuesComputation (Reference : Type) where
  fixedValues : List Reference
  restValue : Option Reference
deriving DecidableEq

/-- What generates a temporary, as far as folding looks at it. -/
inductive Generator (Reference : Type) where
  | values (computation : ValuesComputation Reference)
  | other

/-- `<multiple-value-temporary>`; a slot that is not initialized is `none`. -/
structure MultipleValueTemporary where
  initializedValues : Option Nat := none
  initializedRest : Option Bool := none
deriving DecidableEq

/-- `required-values` -/
def MultipleValueTemporary.requiredValues (t : MultipleValueTemporary) : Nat :=
  t.initializedValues.getD 0

/-- `required-values-setter` -/
def MultipleValueTemporary.setRequiredValues (t : MultipleValueTemporary)
    (count : Nat) : MultipleValueTemporary :=
  { t with initializedValues := some count }

/-- `rest-values?-setter` -/
def MultipleValueTemporary.setRestValues (t : MultipleValueTemporary)
    (rest : Bool) : MultipleValueTemporary :=
  { t with initializedRest := some rest }

/-! ## Type estimates -/

/-- `<type-estimate-values>` -/
structure ValuesEstimate (Estimate : Type) where
  fixedValues : List Estimate
  restValues : Option Estimate

/-- The estimate of a multiple-value temporary: `<type-estimate-bottom>`,
`<type-estimate-values>` or a `<type-estimate-union>` of these. -/
inductive TypeEstimate (Estimate : Type) where
  | bottom
  | values (estimate : ValuesEstimate Estimate)
  | union (unionees : List (ValuesEstimate Estimate))

/-- The test that both methods make of an estimate with their own
`right-number-of-values?`. -/
def TypeEstimate.isEvery {Estimate : Type}
    (rightNumberOfValues : ValuesEstimate Estimate → Bool) :
    TypeEstimate Estimate → Bool
  | .bottom => false
  | .values estimate => rightNumberOfValues estimate
  | .union unionees => unionees.all rightNumberOfValues

/-- The argument of an adjustment: `computation-value`. -/
structure Argument (Reference Estimate : Type) where
  typeEstimate : TypeEstimate Estimate
  generator : Generator Reference

/-! ## The two methods -/

/-- What `constant-fold` does to the computation. -/
inductive Folding (Reference : Type) where
  /-- The computation stays. -/
  | unchanged
  /-- The argument stands for the computation. -/
  | argument
  /-- A new `<values>` computation stands for it, with a new temporary. -/
  | computation (values : ValuesComputation Reference)
      (temporary : MultipleValueTemporary)

/-- `<adjust-multiple-values>` and `<adjust-multiple-values-rest>` -/
inductive Adjustment where
  | adjustMultipleValues
  | adjustMultipleValuesRest
deriving DecidableEq

/-- `right-number-of-values?` -/
def rightNumberOfValues {Estimate : Type} (adjustment : Adjustment) (n : Nat)
    (estimate : ValuesEstimate Estimate) : Bool :=
  match adjustment with
  | .adjustMultipleValues =>
    decide (estimate.fixedValues.length = n) && !estimate.restValues.isSome
  | .adjustMultipleValuesRest => decide (n ≤ estimate.fixedValues.length)

/-- `replace-subsequence!` at the start of a sequence. -/
def replaceSubsequence {Element : Type} (target insert : List Element)
    (last : Nat) : List Element :=
  insert ++ target.drop last

section Folding

variable {Reference Object Estimate : Type}

/-- The local value `adjusted-fixed-values`. -/
def adjustedFixedValues (references : References Reference Object) (n : Nat)
    (fixedValues : List Reference) : List Reference :=
  replaceSubsequence (List.replicate n references.falseReference) fixedValues
    fixedValues.length

/-- The part of `constant-fold (<adjust-multiple-values>)` for an argument that
a `<values>` computation generates. -/
def foldValues (references : References Reference Object) (n : Nat)
    (generator : ValuesComputation Reference) : Folding Reference :=
  let count := generator.fixedValues.length
  let temporary : MultipleValueTemporary :=
    (MultipleValueTemporary.setRequiredValues {} count).setRestValues false
  if n < count then
    .computation ⟨generator.fixedValues.take n, none⟩ temporary
  else if generator.restValue.isNone then
    .computation
      ⟨adjustedFixedValues references n generator.fixedValues, none⟩ temporary
  else
    .unchanged

/-- The part of `constant-fold (<adjust-multiple-values-rest>)` for an argument
that a `<values>` computation generates. -/
def foldValuesRest (references : References Reference Object) (n : Nat)
    (generator : ValuesComputation Reference) : Folding Reference :=
  let count := generator.fixedValues.length
  if count < n ∧ generator.restValue.isNone then
    .computation
      ⟨adjustedFixedValues references n generator.fixedValues, none⟩
      ((MultipleValueTemporary.setRequiredValues {} n).setRestValues false)
  else
    .unchanged

/-- `constant-fold` of the two adjustments. -/
def constantFold (references : References Reference Object)
    (adjustment : Adjustment) (n : Nat)
    (argument : Argument Reference Estimate) : Folding Reference :=
  if argument.typeEstimate.isEvery (rightNumberOfValues adjustment n) then
    .argument
  else
    match adjustment, argument.generator with
    | .adjustMultipleValues, generator =>
      if n = 0 then
        .computation ⟨[], none⟩ {}
      else
        match generator with
        | .values computation => foldValues references n computation
        | .other => .unchanged
    | .adjustMultipleValuesRest, .values computation =>
      foldValuesRest references n computation
    | .adjustMultipleValuesRest, .other => .unchanged

/-! ## The values of a computation -/

/-- The values that a `<values>` computation yields. -/
def ValuesComputation.yields (references : References Reference Object)
    (computation : ValuesComputation Reference) : List Object :=
  computation.fixedValues.map references.value ++
    computation.restValue.elim [] references.sequence

/-- The values that an adjustment yields: the first `n` values of its argument
or all of them, and `#f` for each of the first `n` that is missing. -/
def Adjustment.yields (references : References Reference Object) (n : Nat)
    (produced : List Object) : Adjustment → List Object
  | .adjustMultipleValues =>
    produced.take n ++
      List.replicate (n - produced.length) references.falseObject
  | .adjustMultipleValuesRest =>
    produced ++ List.replicate (n - produced.length) references.falseObject

/-- A tuple of estimates admits a number of values. -/
def ValuesEstimate.Admits (estimate : ValuesEstimate Estimate) (count : Nat) :
    Prop :=
  estimate.fixedValues.length ≤ count ∧
    (estimate.restValues = none → count = estimate.fixedValues.length)

/-- An estimate admits a number of values.  Nothing is asked of the bottom
estimate, of which the methods make no use. -/
def TypeEstimate.Admits (count : Nat) : TypeEstimate Estimate → Prop
  | .bottom => True
  | .values estimate => estimate.Admits count
  | .union unionees => ∃ estimate ∈ unionees, estimate.Admits count

/-- A run gives these values to the argument: their number is as the type
estimate says, and they are those of the generator. -/
structure Argument.Holds (references : References Reference Object)
    (argument : Argument Reference Estimate) (produced : List Object) :
    Prop where
  estimated : argument.typeEstimate.Admits produced.length
  generated : ∀ computation, argument.generator = .values computation →
    produced = computation.yields references

/-- A folding is faithful: what stands for the computation yields its values in
every run, and a new temporary has the number of values that the new computation
yields. -/
def Folding.Faithful (references : References Reference Object)
    (adjustment : Adjustment) (n : Nat)
    (argument : Argument Reference Estimate) : Folding Reference → Prop
  | .unchanged => True
  | .argument => ∀ produced, argument.Holds references produced →
      produced = adjustment.yields references n produced
  | .computation values temporary =>
      (∀ produced, argument.Holds references produced →
        values.yields references = adjustment.yields references n produced) ∧
      temporary.requiredValues = (values.yields references).length

/-! ## Lists of values -/

@[simp]
theorem requiredValues_set (temporary : MultipleValueTemporary)
    (count : Nat) (rest : Bool) :
    ((temporary.setRequiredValues count).setRestValues rest).requiredValues =
      count := rfl

@[simp]
theorem yields_fixed (references : References Reference Object)
    (fixedValues : List Reference) :
    ValuesComputation.yields references ⟨fixedValues, none⟩ =
      fixedValues.map references.value := by
  simp [ValuesComputation.yields]

/-- A computation without a rest value yields one value for each reference. -/
theorem yields_of_isNone (references : References Reference Object)
    {computation : ValuesComputation Reference}
    (closed : computation.restValue.isNone) :
    computation.yields references =
      computation.fixedValues.map references.value := by
  rw [ValuesComputation.yields, Option.isNone_iff_eq_none.mp closed]
  simp

/-- The padded references stand for the padded values. -/
theorem map_adjustedFixedValues (references : References Reference Object)
    (n : Nat) (fixedValues : List Reference) :
    (adjustedFixedValues references n fixedValues).map references.value =
      fixedValues.map references.value ++
        List.replicate (n - fixedValues.length) references.falseObject := by
  simp [adjustedFixedValues, replaceSubsequence, references.value_false]

/-- An adjustment keeps values of which there are enough, and not too many. -/
theorem Adjustment.yields_of_right (references : References Reference Object)
    (adjustment : Adjustment) {n : Nat} {produced : List Object}
    (enough : n ≤ produced.length)
    (exact : adjustment = .adjustMultipleValues → produced.length = n) :
    adjustment.yields references n produced = produced := by
  cases adjustment with
  | adjustMultipleValues =>
    have count : produced.length = n := exact rfl
    simp [Adjustment.yields, ← count]
  | adjustMultipleValuesRest =>
    simp [Adjustment.yields, Nat.sub_eq_zero_of_le enough]

/-! ## What the estimate says -/

/-- A tuple with the right number of values admits no other number. -/
theorem ValuesEstimate.Admits.keeps {estimate : ValuesEstimate Estimate}
    {produced : List Object} (admits : estimate.Admits produced.length)
    (references : References Reference Object) {adjustment : Adjustment}
    {n : Nat} (right : rightNumberOfValues adjustment n estimate = true) :
    adjustment.yields references n produced = produced := by
  cases adjustment with
  | adjustMultipleValues =>
    simp only [rightNumberOfValues, Bool.and_eq_true, decide_eq_true_eq,
      Bool.not_eq_true', Option.isSome_eq_false_iff,
      Option.isNone_iff_eq_none] at right
    have count : produced.length = n := (admits.2 right.2).trans right.1
    exact Adjustment.yields_of_right references _ (Nat.le_of_eq count.symm)
      fun _ => count
  | adjustMultipleValuesRest =>
    have fixed : n ≤ estimate.fixedValues.length := by
      simpa [rightNumberOfValues] using right
    apply Adjustment.yields_of_right references _ (Nat.le_trans fixed admits.1)
    intro different
    cases different

/-- An estimate with the right number of values in every tuple admits only
values that the adjustment keeps. -/
theorem TypeEstimate.Admits.keeps {estimate : TypeEstimate Estimate}
    {produced : List Object} (admits : estimate.Admits produced.length)
    (references : References Reference Object) {adjustment : Adjustment}
    {n : Nat} (right : estimate.isEvery (rightNumberOfValues adjustment n)) :
    adjustment.yields references n produced = produced := by
  cases estimate with
  | bottom => cases right
  | values tuple => exact ValuesEstimate.Admits.keeps admits references right
  | union unionees =>
    obtain ⟨tuple, member, admitted⟩ := admits
    exact admitted.keeps references (List.all_eq_true.mp right tuple member)

/-! ## What the new computations yield -/

/-- The padded values, when there are no more than `n`. -/
theorem padded_yields (references : References Reference Object)
    (adjustment : Adjustment) {n : Nat}
    {computation : ValuesComputation Reference}
    (few : computation.fixedValues.length ≤ n)
    (closed : computation.restValue.isNone) :
    (adjustedFixedValues references n computation.fixedValues).map
        references.value =
      adjustment.yields references n (computation.yields references) := by
  have short : (computation.yields references).take n =
      computation.yields references := by
    apply List.take_of_length_le
    simpa [yields_of_isNone references closed] using few
  rw [map_adjustedFixedValues]
  cases adjustment with
  | adjustMultipleValues =>
    rw [Adjustment.yields, short, yields_of_isNone references closed,
      List.length_map]
  | adjustMultipleValuesRest =>
    rw [Adjustment.yields, yields_of_isNone references closed,
      List.length_map]

/-- The number of padded references. -/
theorem length_adjustedFixedValues (references : References Reference Object)
    {n : Nat} {fixedValues : List Reference} (few : fixedValues.length ≤ n) :
    (adjustedFixedValues references n fixedValues).length = n := by
  simp only [adjustedFixedValues, replaceSubsequence, List.length_append,
    List.length_drop, List.length_replicate]
  omega

/-! ## When the folding is faithful -/

/-- Folding changes the number of values of a `<values>` computation. -/
def Generator.Resized (n : Nat) : Generator Reference → Prop
  | .values computation =>
    n < computation.fixedValues.length ∨
      (computation.restValue = none ∧ computation.fixedValues.length < n)
  | .other => False

/-- The argument is used, or the computation is for at least `n` values or for
none at all, or the number of fixed values is not changed. -/
def KeepsCount (adjustment : Adjustment) (n : Nat)
    (argument : Argument Reference Estimate) : Prop :=
  adjustment = .adjustMultipleValues →
    argument.typeEstimate.isEvery (rightNumberOfValues adjustment n) = false →
      n = 0 ∨ ¬ argument.generator.Resized n

/-- Using the argument is faithful. -/
theorem argument_faithful (references : References Reference Object)
    {adjustment : Adjustment} {n : Nat}
    {argument : Argument Reference Estimate}
    (right : argument.typeEstimate.isEvery
      (rightNumberOfValues adjustment n)) :
    (Folding.argument).Faithful references adjustment n argument := by
  intro produced holds
  exact (holds.estimated.keeps references right).symm

/-- Yielding no values is faithful for an adjustment to none. -/
theorem empty_faithful (references : References Reference Object)
    (argument : Argument Reference Estimate) :
    (Folding.computation ⟨[], none⟩ {}).Faithful references
      .adjustMultipleValues 0 argument := by
  constructor
  · intro produced _
    simp [Adjustment.yields]
  · simp [MultipleValueTemporary.requiredValues]

/-- The exact form is faithful for a `<values>` computation just when it does
not change the number of its values. -/
theorem foldValues_faithful_iff (references : References Reference Object)
    (n : Nat) {argument : Argument Reference Estimate}
    {computation : ValuesComputation Reference}
    (generated : argument.generator = .values computation) :
    (foldValues references n computation).Faithful references
        .adjustMultipleValues n argument ↔
      ¬ argument.generator.Resized n := by
  rw [generated]
  dsimp only [Generator.Resized, foldValues]
  by_cases more : n < computation.fixedValues.length
  · -- The first values, with the number of all of them.
    rw [if_pos more]
    simp only [Folding.Faithful, requiredValues_set, yields_fixed,
      List.length_map, List.length_take, more, true_or, not_true_eq_false,
      iff_false]
    intro faithful
    omega
  · have few : computation.fixedValues.length ≤ n := Nat.not_lt.mp more
    rw [if_neg more]
    by_cases closed : computation.restValue.isNone
    · -- The padded values, with the number of values before.
      rw [if_pos closed]
      simp only [Folding.Faithful, requiredValues_set, yields_fixed,
        List.length_map, length_adjustedFixedValues references few, more,
        Option.isNone_iff_eq_none.mp closed, true_and, false_or]
      constructor
      · intro faithful fewer
        omega
      · intro same
        constructor
        · intro produced holds
          rw [holds.generated computation generated]
          exact padded_yields references _ few closed
        · omega
    · rw [if_neg closed]
      have isOpen : computation.restValue ≠ none := by
        simpa using closed
      simp [Folding.Faithful, more, isOpen]

/-- The rest form is faithful for a `<values>` computation. -/
theorem foldValuesRest_faithful (references : References Reference Object)
    (n : Nat) {argument : Argument Reference Estimate}
    {computation : ValuesComputation Reference}
    (generated : argument.generator = .values computation) :
    (foldValuesRest references n computation).Faithful references
      .adjustMultipleValuesRest n argument := by
  rw [foldValuesRest]
  split
  · rename_i short
    constructor
    · intro produced holds
      rw [holds.generated computation generated, yields_fixed]
      exact padded_yields references _ (Nat.le_of_lt short.1) short.2
    · simp [length_adjustedFixedValues references (Nat.le_of_lt short.1)]
  · trivial

end Folding

end OpenDylan.Compiler.ValuesFolding
