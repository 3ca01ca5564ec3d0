import Mathlib.Data.List.Dedup

/-!
# Dependencies of forms

A form records which bindings it depends on, under which conditions, and for
names also under which names in which modules.  The entry of a binding is a
chain link of the form, and the binding lists the form as a dependent.
-/

namespace OpenDylan.Compiler.Dependencies

/-! ## Conditions -/

/-- `dep$count` -/
def depCount : Nat := 9

/-- `dep$all` -/
def depAll : Nat := 1 <<< depCount - 1

/-- `dep$name-macro-ref` -/
def depNameMacroRef : Nat := 1 <<< 1

/-- `dep$name-binding-ref` -/
def depNameBindingRef : Nat := 1 <<< 3

/-- `dep$active-definition` -/
def depActiveDefinition : Nat := 1 <<< 4

/-- `dep$defined?` -/
def depDefined : Nat := 1 <<< 5

/-- `dep$refs` -/
def depRefs : Nat := depNameMacroRef + depNameBindingRef

/-- `stage$0` -/
def stage0 : Nat := 0 * depCount

/-- `stage$1` -/
def stage1 : Nat := 1 * depCount

/-- `add-dependency-condition` -/
def addDependencyCondition (conditions condition : Nat) : Nat :=
  conditions ||| condition

/-- `dependency-conditions-kind` -/
def dependencyConditionsKind (condition : Nat) : Nat :=
  depAll &&& (condition >>> stage0 ||| condition >>> stage1)

/-- `dep-conditions-stages` is 0. -/
def noStages (conditions kinds : Nat) : Bool :=
  conditions &&& kinds <<< stage0 == 0 && conditions &&& kinds <<< stage1 == 0

/-! ## Entries -/

/-- `<name-dependency>` -/
structure NameDependency (Name Module : Type) where
  name : Name
  module : Module
  conditions : Nat
deriving DecidableEq

/-- `<qualified-entry>` -/
inductive QualifiedEntry (Name Module : Type) where
  | dependency (dependency : NameDependency Name Module)
  | list (dependencies : List (NameDependency Name Module))
deriving DecidableEq

/-- `<form-binding-dependency>`; the next one is that which follows in the list
of a form. -/
structure FormBindingDependency (Binding Name Module : Type) where
  binding : Binding
  conditions : Nat
  qualified : QualifiedEntry Name Module
deriving DecidableEq

section Notes

variable {Binding Name Module Form : Type} [DecidableEq Binding]
  [DecidableEq Name] [DecidableEq Module]

/-- `dependency-matching-kinds?` -/
def NameDependency.matchingKinds (dependency : NameDependency Name Module)
    (kinds : Nat) : Bool :=
  dependencyConditionsKind dependency.conditions &&& kinds != 0

/-- `add-if` -/
def NameDependency.isFor (dependency : NameDependency Name Module)
    (name : Name) (module : Module) : Bool :=
  dependency.name = name && dependency.module = module

/-- `any?(add-if, entry)`, which adds the condition to the first dependency of
the name -/
def addToFirst (name : Name) (module : Module) (condition : Nat) :
    List (NameDependency Name Module) →
      Option (List (NameDependency Name Module))
  | [] => none
  | dependency :: dependencies =>
      if dependency.isFor name module then
        some ({ dependency with
          conditions := addDependencyCondition dependency.conditions
            condition } :: dependencies)
      else
        (addToFirst name module condition dependencies).map
          (dependency :: ·)

/-- `add-name-dependency` -/
def addNameDependency (entry : QualifiedEntry Name Module) (name : Name)
    (module : Module) (condition : Nat) : QualifiedEntry Name Module :=
  let new : NameDependency Name Module := ⟨name, module, condition⟩
  match entry with
  | .list [] => .dependency new
  | .list dependencies =>
      match addToFirst name module condition dependencies with
      | some dependencies => .list dependencies
      | none => .list (new :: dependencies)
  | .dependency dependency =>
      match addToFirst name module condition [dependency] with
      | some [dependency] => .dependency dependency
      | _ => .list [new, dependency]

/-! ## Forms -/

/-- What the vector of references of a stripped form holds. -/
inductive Element (Name Module : Type) where
  | count (count : Nat)
  | name (name : Name)
  | module (module : Module)
deriving DecidableEq

/-- `<top-level-form>`, with the dependents of the bindings -/
structure FormState (Binding Name Module Form : Type) where
  form : Form
  formDependencies : List (FormBindingDependency Binding Name Module)
  formReferencedVariables : Option (List (Element Name Module))
  formStripped : Bool
  bindingLocalDependents : Binding → List Form

/-- A form that is made, with the dependents of the bindings then. -/
def makeForm (form : Form) (dependents : Binding → List Form) :
    FormState Binding Name Module Form where
  form := form
  formDependencies := []
  formReferencedVariables := none
  formStripped := false
  bindingLocalDependents := dependents

/-- `register-binding-dependent` -/
def registerBindingDependent (dependents : Binding → List Form)
    (binding : Binding) (form : Form) : Binding → List Form :=
  fun other =>
    if other = binding then form :: dependents binding else dependents other

/-- `unregister-binding-dependent` -/
def unregisterBindingDependent [DecidableEq Form]
    (dependents : Binding → List Form) (binding : Binding) (form : Form) :
    Binding → List Form :=
  fun other =>
    if other = binding then (dependents binding).filter (· ≠ form)
    else dependents other

/-- `form-binding-dependencies`: the state with an entry for the binding -/
def formBindingDependencies (state : FormState Binding Name Module Form)
    (binding : Binding) : FormState Binding Name Module Form :=
  if state.formDependencies.any (·.binding = binding) then state
  else
    { state with
      formDependencies :=
        { binding := binding, conditions := 0, qualified := .list [] } ::
          state.formDependencies
      bindingLocalDependents := registerBindingDependent
        state.bindingLocalDependents binding state.form }

/-- A change to the first entry of a binding. -/
def changeEntry (binding : Binding)
    (change : FormBindingDependency Binding Name Module →
      FormBindingDependency Binding Name Module) :
    List (FormBindingDependency Binding Name Module) →
      List (FormBindingDependency Binding Name Module)
  | [] => []
  | dependency :: dependencies =>
      if dependency.binding = binding then change dependency :: dependencies
      else dependency :: changeEntry binding change dependencies

/-- What is known of the current library and its bindings. -/
structure Library (Binding : Type) where
  /-- `current-library-stripable?` -/
  stripable : Bool
  /-- `binding-imported-into-library?` -/
  importedIntoLibrary : Binding → Bool

/-- `note-binding-dependency-of` a form -/
def noteBindingDependencyOf (library : Library Binding)
    (state : FormState Binding Name Module Form) (condition : Nat)
    (binding : Binding) : FormState Binding Name Module Form :=
  if library.stripable || state.formStripped then state
  else
    let kind := dependencyConditionsKind condition
    if (kind == depActiveDefinition || kind == depDefined) &&
        library.importedIntoLibrary binding then
      state
    else
      let state := formBindingDependencies state binding
      { state with
        formDependencies := changeEntry binding
          (fun entry =>
            { entry with
              conditions := addDependencyCondition entry.conditions
                condition })
          state.formDependencies }

/-- `note-name-dependency-of` a form -/
def noteNameDependencyOf (library : Library Binding)
    (state : FormState Binding Name Module Form) (condition : Nat)
    (binding : Binding) (name : Name) (module : Module) :
    FormState Binding Name Module Form :=
  if state.formStripped || library.stripable && noStages condition depRefs then
    state
  else
    let state := formBindingDependencies state binding
    { state with
      formDependencies := changeEntry binding
        (fun entry =>
          { entry with
            qualified := addNameDependency entry.qualified name module
              condition })
        state.formDependencies }

/-- What a form notes. -/
inductive Note (Binding Name Module : Type) where
  | binding (condition : Nat) (binding : Binding)
  | name (condition : Nat) (binding : Binding) (name : Name)
      (module : Module)
deriving DecidableEq

/-- A dependency that a form notes. -/
def note (library : Library Binding)
    (state : FormState Binding Name Module Form) :
    Note Binding Name Module → FormState Binding Name Module Form
  | .binding condition binding =>
      noteBindingDependencyOf library state condition binding
  | .name condition binding name module =>
      noteNameDependencyOf library state condition binding name module

end Notes

end OpenDylan.Compiler.Dependencies
