import Mathlib.Data.List.Perm.Basic
import OpenDylan.Compiler.Dependencies

/-!
# Reference vectors of stripped forms

`strip-incremental-slots` packs the references of a form into a vector: how
long the first of two lists is, and both lists, in which every module comes
before its names.  The functions that unpack the lists take the length for the
index at which the first of them ends, which is one too low.
-/

namespace OpenDylan.Compiler.Dependencies

section Model

variable {Binding Name Module Form : Type} [DecidableEq Binding]
  [DecidableEq Name] [DecidableEq Module] [DecidableEq Form]

/-! ## Packing -/

/-- `find-module`: a name put after its module, if that is in the list -/
def findModule (name : Name) (module : Module) :
    List (Element Name Module) → Option (List (Element Name Module))
  | [] => none
  | .module other :: elements =>
      if other = module then some (.module other :: .name name :: elements)
      else (findModule name module elements).map (.module other :: ·)
  | element :: elements =>
      (findModule name module elements).map (element :: ·)

/-- `add-to-references` -/
def addToReferences (references : List (Element Name Module))
    (dependency : NameDependency Name Module) : List (Element Name Module) :=
  (findModule dependency.name dependency.module references).getD
    (.module dependency.module :: .name dependency.name :: references)

/-- `matching-name-entry`, with the empty list for no entry -/
def matchingNameEntry (entry : QualifiedEntry Name Module) (kinds : Nat) :
    List (NameDependency Name Module) :=
  match entry with
  | .list dependencies => dependencies.filter (·.matchingKinds kinds)
  | .dependency dependency =>
      if dependency.matchingKinds kinds then [dependency] else []

/-- The variables of `strip-incremental-slots`. -/
structure Collected (Binding Name Module Form : Type) where
  macroReferences : List (Element Name Module)
  bindingReferences : List (Element Name Module)
  bindingLocalDependents : Binding → List Form

/-- `collect-reference` -/
def collectReference (collected : Collected Binding Name Module Form)
    (dependency : NameDependency Name Module) :
    Collected Binding Name Module Form :=
  if dependency.matchingKinds depNameMacroRef then
    { collected with
      macroReferences :=
        addToReferences collected.macroReferences dependency }
  else
    { collected with
      bindingReferences :=
        addToReferences collected.bindingReferences dependency }

/-- An entry in the loop of `strip-incremental-slots` -/
def stripEntry (form : Form) (collected : Collected Binding Name Module Form)
    (entry : FormBindingDependency Binding Name Module) :
    Collected Binding Name Module Form :=
  match matchingNameEntry entry.qualified depRefs with
  | [] =>
      { collected with
        bindingLocalDependents := unregisterBindingDependent
          collected.bindingLocalDependents entry.binding form }
  | references => references.foldl collectReference collected

/-- `strip-incremental-slots`; the chain that its loop relinks is dropped in the
end. -/
def stripIncrementalSlots (state : FormState Binding Name Module Form) :
    FormState Binding Name Module Form :=
  if state.formStripped then state
  else
    let collected := state.formDependencies.foldl (stripEntry state.form)
      ⟨[], [], state.bindingLocalDependents⟩
    { state with
      formReferencedVariables :=
        some (.count collected.bindingReferences.length ::
          (collected.bindingReferences ++ collected.macroReferences))
      formDependencies := []
      formStripped := true
      bindingLocalDependents := collected.bindingLocalDependents }

/-! ## Unpacking -/

/-- What stops the unpacking: a slot of a `<referenced-variable>` that is not
given a name or a module, and a vector without the element at an index. -/
inductive Failure (Name Module : Type) where
  | notName (element : Element Name Module)
  | noModule (name : Name)
  | outside (index : Nat)
deriving DecidableEq

/-- `make` of a `<referenced-variable>` -/
def makeReferencedVariable (element : Element Name Module)
    (module : Option Module) : Except (Failure Name Module) (Name × Module) :=
  match element, module with
  | .name name, some module => .ok (name, module)
  | .name name, none => .error (.noModule name)
  | element, _ => .error (.notName element)

/-- `search`, for a number of elements from an index on -/
def search (references : List (Element Name Module)) :
    Nat → Nat → Option Module →
      Except (Failure Name Module) (List (Name × Module))
  | 0, _, _ => .ok []
  | count + 1, index, module =>
      match references[index]? with
      | none => .error (.outside index)
      | some (.module module) => search references count (index + 1) module
      | some element => do
          let first ← makeReferencedVariable element module
          let rest ← search references count (index + 1) module
          return first :: rest

/-- `form-referenced-variables-between` -/
def formReferencedVariablesBetween (references : List (Element Name Module))
    (start below : Nat) : Except (Failure Name Module) (List (Name × Module)) :=
  search references (below - start) start none

/-- `references[0]` -/
def firstCount (references : List (Element Name Module)) :
    Except (Failure Name Module) Nat :=
  match references with
  | .count count :: _ => .ok count
  | element :: _ => .error (.notName element)
  | [] => .error (.outside 0)

/-- `form-referenced-binding-variables` -/
def formReferencedBindingVariables
    (state : FormState Binding Name Module Form) :
    Except (Failure Name Module) (Option (List (Name × Module))) :=
  match state.formReferencedVariables with
  | none => .ok none
  | some references => do
      let below ← firstCount references
      let pairs ← formReferencedVariablesBetween references 1 below
      return some pairs

/-- `form-referenced-macro-variables` -/
def formReferencedMacroVariables (state : FormState Binding Name Module Form) :
    Except (Failure Name Module) (Option (List (Name × Module))) :=
  match state.formReferencedVariables with
  | none => .ok none
  | some references => do
      let start ← firstCount references
      let pairs ←
        formReferencedVariablesBetween references start references.length
      return some pairs

/-! ## What is to be unpacked -/

/-- The conditions under which a name in a module was noted for a binding. -/
def notedConditions (notes : List (Note Binding Name Module))
    (binding : Binding) (name : Name) (module : Module) : Nat :=
  notes.foldl (fun conditions note =>
    match note with
    | .name condition noted notedName notedModule =>
        if noted = binding ∧ notedName = name ∧ notedModule = module then
          addDependencyCondition conditions condition
        else conditions
    | .binding _ _ => conditions) 0

/-- A name in a module was noted for a binding as a reference, to a macro or to
another thing. -/
def IsReference (notes : List (Note Binding Name Module)) (isMacro : Bool)
    (name : Name) (module : Module) (binding : Binding) : Prop :=
  let kind := dependencyConditionsKind
    (notedConditions notes binding name module)
  kind &&& depRefs ≠ 0 ∧ (kind &&& depNameMacroRef ≠ 0 ↔ isMacro = true)

instance (notes : List (Note Binding Name Module)) (isMacro : Bool)
    (name : Name) (module : Module) (binding : Binding) :
    Decidable (IsReference notes isMacro name module binding) :=
  inferInstanceAs (Decidable (_ ∧ _))

/-- The binding of a note. -/
def Note.about : Note Binding Name Module → Binding
  | .binding _ noted => noted
  | .name _ noted _ _ => noted

/-- The bindings for which a name in a module was noted as a reference. -/
def referencedBindings (notes : List (Note Binding Name Module))
    (isMacro : Bool) (name : Name) (module : Module) : List Binding :=
  (notes.map Note.about).dedup.filter (IsReference notes isMacro name module)

/-- The references are unpacked from the vector of a form as they were noted,
and bindings without references do not list the form. -/
structure Decodes (notes : List (Note Binding Name Module))
    (state : FormState Binding Name Module Form) : Prop where
  bindings : ∃ pairs, formReferencedBindingVariables state = .ok (some pairs) ∧
    ∀ name module, pairs.count (name, module) =
      (referencedBindings notes false name module).length
  macros : ∃ pairs, formReferencedMacroVariables state = .ok (some pairs) ∧
    ∀ name module, pairs.count (name, module) =
      (referencedBindings notes true name module).length
  unregistered : ∀ binding ∈ notes.map Note.about,
    (∀ isMacro name module,
      ¬IsReference notes isMacro name module binding) →
        state.form ∉ state.bindingLocalDependents binding

/-- The state of a form after its notes, stripped. -/
def stripped (library : Library Binding) (form : Form)
    (dependents : Binding → List Form)
    (notes : List (Note Binding Name Module)) :
    FormState Binding Name Module Form :=
  stripIncrementalSlots
    (notes.foldl (note library) (makeForm form dependents))

end Model

/-! ## The packed lists -/

section Lists

variable {Name Module : Type}

/-- What a packed list is: groups of a module and at least one of its names. -/
inductive Packed : List (Element Name Module) → Prop
  | nil : Packed []
  | group (module : Module) (name : Name) (names : List Name)
      {rest : List (Element Name Module)} (packed : Packed rest) :
      Packed (.module module :: .name name :: (names.map .name ++ rest))

/-- A packed list is empty or ends with a name. -/
theorem Packed.last {elements : List (Element Name Module)}
    (packed : Packed elements) :
    elements = [] ∨ ∃ front name, elements = front ++ [.name name] := by
  induction packed with
  | nil => exact Or.inl rfl
  | @group module first names rest packed inductionHypothesis =>
      apply Or.inr
      rcases inductionHypothesis with rfl | ⟨front, name, rfl⟩
      · rcases List.eq_nil_or_concat names with rfl | ⟨front, name, rfl⟩
        · exact ⟨[.module module], first, rfl⟩
        · exact ⟨.module module :: .name first :: front.map .name, name,
            by simp⟩
      · exact ⟨.module module :: .name first :: (names.map .name ++ front),
          name, by simp⟩

/-! ## The references of a list -/

/-- The names of a list with the modules before them. -/
def pairs : Option Module → List (Element Name Module) → List (Name × Module)
  | _, [] => []
  | _, .module module :: elements => pairs (some module) elements
  | some module, .name name :: elements =>
      (name, module) :: pairs (some module) elements
  | module, _ :: elements => pairs module elements

theorem pairs_module (current : Option Module)
    (front back : List (Element Name Module)) (module : Module) :
    pairs current (front ++ .module module :: back) =
      pairs current front ++ pairs (some module) back := by
  induction front generalizing current with
  | nil => simp [pairs]
  | cons element front inductionHypothesis =>
      cases element with
      | module other => exact inductionHypothesis (some other)
      | count count =>
          cases current <;> simpa [pairs] using inductionHypothesis _
      | name name =>
          cases current with
          | none => simpa [pairs] using inductionHypothesis none
          | some other =>
              simpa [pairs] using inductionHypothesis (some other)

theorem Packed.pairs_eq {elements : List (Element Name Module)}
    (packed : Packed elements) (current : Option Module) :
    pairs current elements = pairs none elements := by
  cases packed with
  | nil => cases current <;> rfl
  | group module name names packed => cases current <;> rfl

/-! ## Adding to a list -/

section Packing

variable [DecidableEq Module]

/-- A module in a packed list. -/
theorem findModule_of_mem {name : Name} {module : Module}
    {elements found : List (Element Name Module)}
    (isFound : findModule name module elements = some found) :
    ∃ front back, elements = front ++ .module module :: back ∧
      found = front ++ .module module :: .name name :: back := by
  induction elements generalizing found with
  | nil => cases isFound
  | cons element elements inductionHypothesis =>
      have later {rest : List (Element Name Module)}
          (isRest : findModule name module elements = some rest) :
          ∃ front back, element :: elements =
              front ++ .module module :: back ∧
            element :: rest =
              front ++ .module module :: .name name :: back := by
        rcases inductionHypothesis isRest with ⟨front, back, rfl, rfl⟩
        exact ⟨element :: front, back, rfl, rfl⟩
      cases element with
      | count count =>
          rcases Option.map_eq_some_iff.mp isFound with ⟨rest, isRest, rfl⟩
          exact later isRest
      | name other =>
          rcases Option.map_eq_some_iff.mp isFound with ⟨rest, isRest, rfl⟩
          exact later isRest
      | module other =>
          rw [findModule] at isFound
          split at isFound
          · rename_i same
            cases same
            cases isFound
            exact ⟨[], elements, rfl, rfl⟩
          · rcases Option.map_eq_some_iff.mp isFound with ⟨rest, isRest, rfl⟩
            exact later isRest

theorem findModule_names (name : Name) (module : Module) (names : List Name)
    (elements : List (Element Name Module)) :
    findModule name module (names.map .name ++ elements) =
      (findModule name module elements).map (names.map .name ++ ·) := by
  induction names with
  | nil => simp
  | cons first names inductionHypothesis =>
      rw [List.map_cons, List.cons_append, findModule, inductionHypothesis,
        Option.map_map]
      · rfl
      · intro module same
        cases same

theorem Packed.findModule {name : Name} {module : Module}
    {elements found : List (Element Name Module)} (packed : Packed elements)
    (isFound : findModule name module elements = some found) :
    Packed found := by
  induction packed generalizing found with
  | nil => cases isFound
  | @group other first names rest packed inductionHypothesis =>
      rw [Dependencies.findModule] at isFound
      split at isFound
      · cases isFound
        exact Packed.group other name (first :: names) packed
      · have skipped := findModule_names name module (first :: names) rest
        rw [List.map_cons, List.cons_append] at skipped
        rw [skipped, Option.map_map] at isFound
        rcases Option.map_eq_some_iff.mp isFound with ⟨later, isLater, rfl⟩
        exact Packed.group other first names (inductionHypothesis isLater)

theorem Packed.addToReferences {references : List (Element Name Module)}
    (packed : Packed references) (dependency : NameDependency Name Module) :
    Packed (addToReferences references dependency) := by
  rw [Dependencies.addToReferences]
  cases isFound :
    Dependencies.findModule dependency.name dependency.module references with
  | none => exact Packed.group dependency.module dependency.name [] packed
  | some found => exact packed.findModule isFound

/-- A dependency is added to the references of a list. -/
theorem Packed.pairs_addToReferences
    {references : List (Element Name Module)} (packed : Packed references)
    (dependency : NameDependency Name Module) :
    (pairs none (Dependencies.addToReferences references dependency)).Perm
      ((dependency.name, dependency.module) :: pairs none references) := by
  rw [Dependencies.addToReferences]
  cases isFound :
    Dependencies.findModule dependency.name dependency.module references with
  | none =>
      show ((dependency.name, dependency.module) ::
        pairs (some dependency.module) references).Perm _
      rw [packed.pairs_eq]
  | some found =>
      rcases findModule_of_mem isFound with ⟨front, back, rfl, rfl⟩
      show (pairs none (front ++ .module dependency.module ::
        .name dependency.name :: back)).Perm _
      rw [pairs_module, pairs_module]
      exact List.perm_middle

end Packing

/-! ## Unpacking a list -/

/-- `search` in the elements that are left. -/
def unpack : Option Module → List (Element Name Module) →
    Except (Failure Name Module) (List (Name × Module))
  | _, [] => .ok []
  | _, .module module :: elements => unpack (some module) elements
  | module, element :: elements => do
      let first ← makeReferencedVariable element module
      let rest ← unpack module elements
      return first :: rest

theorem search_eq (front middle back : List (Element Name Module))
    (module : Option Module) :
    search (front ++ (middle ++ back)) middle.length front.length module =
      unpack module middle := by
  induction middle generalizing front module with
  | nil => simp [search, unpack]
  | cons element middle inductionHypothesis =>
      have here : (front ++ (element :: middle ++ back))[front.length]? =
          some element := by
        simp
      have next (module : Option Module) :
          search (front ++ (element :: middle ++ back)) middle.length
              (front.length + 1) module =
            unpack module middle := by
        have shifted := inductionHypothesis (front ++ [element]) module
        simpa using shifted
      rw [List.length_cons, search, here]
      cases element with
      | module other => exact next (some other)
      | count count =>
          simp only [next]
          rfl
      | name name =>
          simp only [next]
          rfl

/-! ## Vectors -/

/-- The vector of two lists. -/
def vector (bindings macros : List (Element Name Module)) :
    List (Element Name Module) :=
  .count bindings.length :: (bindings ++ macros)

/-- Where the macro references are looked for, there is no module first. -/
theorem Packed.between_macros {bindings : List (Element Name Module)}
    (packed : Packed bindings) (macros : List (Element Name Module)) :
    ∃ failure, formReferencedVariablesBetween (vector bindings macros)
      bindings.length (vector bindings macros).length = .error failure := by
  rcases packed.last with rfl | ⟨front, name, rfl⟩
  · have searched :=
      search_eq [] (.count 0 :: macros) [] (none : Option Module)
    rw [List.append_nil] at searched
    exact ⟨.notName (.count 0), searched⟩
  · have searched := search_eq (.count (front.length + 1) :: front)
      (.name name :: macros) [] (none : Option Module)
    have failed : Dependencies.unpack none (.name name :: macros) =
        (.error (.noModule name) :
          Except (Failure Name Module) (List (Name × Module))) :=
      rfl
    refine ⟨.noModule name, ?_⟩
    rw [List.append_nil, failed] at searched
    rw [formReferencedVariablesBetween]
    simpa [vector] using searched

end Lists

/-! ## Stripping -/

section Stripping

variable {Binding Name Module Form : Type}

/-- The references among dependencies, to macros or to other things. -/
def references (isMacro : Bool)
    (dependencies : List (NameDependency Name Module)) :
    List (Name × Module) :=
  (dependencies.filter fun dependency =>
    dependency.matchingKinds depNameMacroRef == isMacro).map
      fun dependency => (dependency.name, dependency.module)

/-- The name dependencies of a form that are references. -/
def formReferences
    (entries : List (FormBindingDependency Binding Name Module)) :
    List (NameDependency Name Module) :=
  entries.flatMap fun entry => matchingNameEntry entry.qualified depRefs

/-- Packed lists that hold the references among dependencies. -/
structure Holds (collected : Collected Binding Name Module Form)
    (dependencies : List (NameDependency Name Module)) : Prop where
  macroPacked : Packed collected.macroReferences
  bindingPacked : Packed collected.bindingReferences
  macroPairs : (pairs none collected.macroReferences).Perm
    (references true dependencies)
  bindingPairs : (pairs none collected.bindingReferences).Perm
    (references false dependencies)

theorem references_append (isMacro : Bool)
    (dependencies : List (NameDependency Name Module))
    (dependency : NameDependency Name Module) :
    references isMacro (dependencies ++ [dependency]) =
      references isMacro dependencies ++
        if dependency.matchingKinds depNameMacroRef = isMacro then
          [(dependency.name, dependency.module)]
        else [] := by
  rw [references, List.filter_append, List.map_append, ← references]
  split
  · rename_i same
    simp [same]
  · rename_i different
    simp [different]

section Collecting

variable [DecidableEq Module]

theorem Holds.collectReference
    {collected : Collected Binding Name Module Form}
    {dependencies : List (NameDependency Name Module)}
    (holds : Holds collected dependencies)
    (dependency : NameDependency Name Module) :
    Holds (collectReference collected dependency)
      (dependencies ++ [dependency]) := by
  cases isMacro : dependency.matchingKinds depNameMacroRef with
  | true =>
      rw [Dependencies.collectReference, if_pos isMacro]
      constructor
      case macroPacked => exact holds.macroPacked.addToReferences dependency
      case bindingPacked => exact holds.bindingPacked
      case macroPairs =>
          rw [references_append, if_pos isMacro]
          apply (holds.macroPacked.pairs_addToReferences dependency).trans
          exact (holds.macroPairs.cons _).trans
            (List.perm_append_singleton _ _).symm
      case bindingPairs =>
          rw [references_append, if_neg (by simp [isMacro]), List.append_nil]
          exact holds.bindingPairs
  | false =>
      rw [Dependencies.collectReference, if_neg (by simp [isMacro])]
      constructor
      case macroPacked => exact holds.macroPacked
      case bindingPacked =>
          exact holds.bindingPacked.addToReferences dependency
      case macroPairs =>
          rw [references_append, if_neg (by simp [isMacro]), List.append_nil]
          exact holds.macroPairs
      case bindingPairs =>
          rw [references_append, if_pos isMacro]
          apply (holds.bindingPacked.pairs_addToReferences dependency).trans
          exact (holds.bindingPairs.cons _).trans
            (List.perm_append_singleton _ _).symm

theorem Holds.foldl_collectReference
    {collected : Collected Binding Name Module Form}
    {dependencies : List (NameDependency Name Module)}
    (holds : Holds collected dependencies)
    (more : List (NameDependency Name Module)) :
    Holds (more.foldl Dependencies.collectReference collected)
      (dependencies ++ more) := by
  induction more generalizing collected dependencies with
  | nil =>
      rw [List.append_nil]
      exact holds
  | cons dependency more inductionHypothesis =>
      have next := inductionHypothesis (holds.collectReference dependency)
      rwa [List.append_assoc] at next

variable [DecidableEq Binding] [DecidableEq Form]

theorem Holds.stripEntry {collected : Collected Binding Name Module Form}
    {dependencies : List (NameDependency Name Module)}
    (holds : Holds collected dependencies) (form : Form)
    (entry : FormBindingDependency Binding Name Module) :
    Holds (stripEntry form collected entry)
      (dependencies ++ matchingNameEntry entry.qualified depRefs) := by
  rw [Dependencies.stripEntry]
  split
  · rename_i none
    rw [none, List.append_nil]
    exact ⟨holds.macroPacked, holds.bindingPacked, holds.macroPairs,
      holds.bindingPairs⟩
  · exact holds.foldl_collectReference _

theorem Holds.foldl_stripEntry
    {collected : Collected Binding Name Module Form}
    {dependencies : List (NameDependency Name Module)}
    (holds : Holds collected dependencies) (form : Form)
    (entries : List (FormBindingDependency Binding Name Module)) :
    Holds (entries.foldl (Dependencies.stripEntry form) collected)
      (dependencies ++ formReferences entries) := by
  induction entries generalizing collected dependencies with
  | nil =>
      rw [formReferences, List.flatMap_nil, List.append_nil]
      exact holds
  | cons entry entries inductionHypothesis =>
      have next := inductionHypothesis (holds.stripEntry form entry)
      rwa [List.append_assoc] at next

/-- The vector of a form that is stripped. -/
theorem stripIncrementalSlots_vector
    (state : FormState Binding Name Module Form)
    (fresh : state.formStripped = false) :
    ∃ collected : Collected Binding Name Module Form,
      Holds collected (formReferences state.formDependencies) ∧
      (stripIncrementalSlots state).formReferencedVariables =
        some (vector collected.bindingReferences
          collected.macroReferences) := by
  have empty : Holds (⟨[], [], state.bindingLocalDependents⟩ :
      Collected Binding Name Module Form) [] :=
    ⟨Packed.nil, Packed.nil, List.Perm.nil, List.Perm.nil⟩
  refine ⟨_, empty.foldl_stripEntry state.form state.formDependencies, ?_⟩
  rw [stripIncrementalSlots, fresh]
  rfl

/-- The macro references of a stripped form cannot be unpacked. -/
theorem formReferencedMacroVariables_fails
    (state : FormState Binding Name Module Form)
    (fresh : state.formStripped = false) :
    ∃ failure, formReferencedMacroVariables (stripIncrementalSlots state) =
      .error failure := by
  rcases stripIncrementalSlots_vector state fresh with
    ⟨collected, holds, isVector⟩
  rcases holds.bindingPacked.between_macros collected.macroReferences with
    ⟨failure, failed⟩
  refine ⟨failure, ?_⟩
  rw [formReferencedMacroVariables, isVector]
  show formReferencedVariablesBetween _ _ _ >>= _ = _
  rw [failed]
  rfl

end Collecting

end Stripping

/-! ## References of forms -/

section Forms

variable {Binding Name Module Form : Type} [DecidableEq Binding]
  [DecidableEq Name] [DecidableEq Module]

theorem formStripped_note (library : Library Binding)
    (state : FormState Binding Name Module Form)
    (noted : Note Binding Name Module) :
    (note library state noted).formStripped = state.formStripped := by
  have entered (binding : Binding) :
      (formBindingDependencies state binding).formStripped =
        state.formStripped := by
    rw [formBindingDependencies]
    split <;> rfl
  cases noted with
  | binding condition noted =>
      rw [note, noteBindingDependencyOf]
      split
      · rfl
      · dsimp only
        split
        · rfl
        · exact entered noted
  | name condition noted name module =>
      rw [note, noteNameDependencyOf]
      split
      · rfl
      · exact entered noted

theorem formStripped_notes (library : Library Binding)
    (notes : List (Note Binding Name Module))
    (state : FormState Binding Name Module Form) :
    (notes.foldl (note library) state).formStripped = state.formStripped := by
  induction notes generalizing state with
  | nil => rfl
  | cons noted notes inductionHypothesis =>
      rw [List.foldl_cons, inductionHypothesis, formStripped_note]

variable [DecidableEq Form]

/-- Whatever a form notes, its references are not unpacked as they were
noted. -/
theorem not_decodes (library : Library Binding) (form : Form)
    (dependents : Binding → List Form)
    (notes : List (Note Binding Name Module)) :
    ¬Decodes notes (stripped library form dependents notes) := by
  intro decodes
  have fresh : (notes.foldl (note library)
      (makeForm form dependents)).formStripped = false :=
    formStripped_notes library notes _
  rcases formReferencedMacroVariables_fails _ fresh with ⟨failure, fails⟩
  rcases decodes.macros with ⟨found, succeeds, -⟩
  rw [stripped, fails] at succeeds
  cases succeeds

end Forms

/-- A form that refers to two names of a module. -/
theorem not_decodes_two_names :
    ¬Decodes
      [.name depNameBindingRef "binding" "first" "module",
        .name depNameMacroRef "other" "second" "module"]
      (stripped ⟨false, fun _ => false⟩ ("form" : String) (fun _ => [])
        [.name depNameBindingRef "binding" "first" "module",
          .name depNameMacroRef "other" "second" "module"]) := by
  intro decodes
  rcases decodes.macros with ⟨found, succeeds, -⟩
  cases succeeds

end OpenDylan.Compiler.Dependencies
