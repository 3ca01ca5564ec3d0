import OpenDylan.Compiler.NamespaceLookups

/-!
# Making namespaces

The imports of a new namespace are its first candidates, and the namespaces
stay well formed when it is added.
-/

namespace OpenDylan.Compiler.Namespaces

open Runtime.Symbols NameFilters Lib.KeyedMap

variable {spellings : Spellings} {order : Order} {spaces : List Space}

/-! ## Collecting the imports -/

/-- The import of a name is kept when the name is brought in again. -/
theorem updateLocalName_imports (new : Binding)
    (imports : Table × List Warning) (localName : Name) :
    (updateLocalName new imports localName).1 =
      keep nameTest localName new imports.1 := by
  rw [updateLocalName, keep]
  cases lookup nameTest localName imports.1 with
  | none => rfl
  | some old =>
      show (if old = new then imports else _).1 = _
      split
      · rfl
      · rfl

theorem updateName_imports (use : Use) (imports : Table × List Warning)
    (originalName : Name) (new : Binding) :
    (updateName spellings use imports originalName new).1 =
      (renamings (filterName spellings use.filter) (originalName, new)).foldl
        (fun imports entry => keep nameTest entry.1 entry.2 imports)
        imports.1 := by
  rw [updateName, renamings]
  generalize filterName spellings use.filter originalName = names
  induction names generalizing imports with
  | nil => rfl
  | cons name names inductionHypothesis =>
      rw [List.map_cons, List.foldl_cons, List.foldl_cons,
        inductionHypothesis, updateLocalName_imports]

theorem updateNames_imports (use : Use) (entries : Table)
    (imports : Table × List Warning) :
    (entries.foldl (fun imports entry =>
        updateName spellings use imports entry.1 entry.2) imports).1 =
      (entries.flatMap (renamings
        (filterName spellings use.filter))).foldl
          (fun imports entry => keep nameTest entry.1 entry.2 imports)
          imports.1 := by
  induction entries generalizing imports with
  | nil => rfl
  | cons entry entries inductionHypothesis =>
      rw [List.foldl_cons, inductionHypothesis, List.flatMap_cons,
        List.foldl_append, updateName_imports]

/-- What holds while the imports are collected: they are the first candidates
of the uses resolved so far. -/
structure Collecting (spellings : Spellings) (order : Order)
    (spaces : List Space) (progress : Progress) : Prop where
  valid : Valid spellings order spaces progress.caches
  known : ∀ use ∈ progress.resolvedUses,
    use.namespaceName < spaces.length
  imports : progress.imports.1 =
    (progress.resolvedUses.flatMap (Use.broughtIn spellings
      (allOffers spellings order spaces))).foldl
        (fun imports entry => keep nameTest entry.1 entry.2 imports) []

theorem Collecting.updateImports
    (wellFormed : WellFormed spellings order spaces) {progress : Progress}
    (collecting : Collecting spellings order spaces progress) (use : Use) :
    ∃ later, updateImports spellings order spaces progress use =
        some later ∧ Collecting spellings order spaces later := by
  rw [Namespaces.updateImports]
  cases found : spaces[use.namespaceName]? with
  | none =>
      exact ⟨_, rfl, collecting.valid, collecting.known, collecting.imports⟩
  | some usedSpace =>
      have isKnown := (List.getElem?_eq_some_iff.mp found).1
      have defined : ∀ name ∈ order.names usedSpace.exportedNames,
          ∃ value, usedSpace.nameDefinition name = some value := by
        intro name member
        apply wellFormed.defined usedSpace (List.mem_of_getElem? found)
        exact (order.names_perm _).mem_iff.mp member
      obtain ⟨caches, made, touched, kept⟩ := makesTables wellFormed
        (use.namespaceName + 1) use.namespaceName (Nat.lt_succ_self _)
        usedSpace _ found (collecting.valid.mono isKnown)
      simp only [Option.bind_eq_bind]
      rw [foldlM_definitions _ _ _ defined, made]
      refine ⟨_, rfl, collecting.valid.extend touched kept, ?_, ?_⟩
      · intro other member
        rw [List.mem_append, List.mem_singleton] at member
        cases member with
        | inl earlier => exact collecting.known other earlier
        | inr same =>
            rw [same]
            exact isKnown
      · have brought : (progress.resolvedUses ++ [use]).flatMap
            (Use.broughtIn spellings (allOffers spellings order spaces)) =
            progress.resolvedUses.flatMap (Use.broughtIn spellings
              (allOffers spellings order spaces)) ++
            use.broughtIn spellings (allOffers spellings order spaces) := by
          simp
        simp only []
        rw [brought, ← List.foldl_append, updateNames_imports,
          collecting.imports, List.foldl_append, Use.broughtIn,
          Use.offers_eq wellFormed.backward found]
        rfl

/-- The imports are the first candidates. -/
theorem computeImports_collects
    (wellFormed : WellFormed spellings order spaces) (uses : List Use)
    {progress : Progress}
    (collecting : Collecting spellings order spaces progress) :
    ∃ later, uses.foldlM (updateImports spellings order spaces) progress =
        some later ∧ Collecting spellings order spaces later := by
  induction uses generalizing progress with
  | nil => exact ⟨progress, rfl, collecting⟩
  | cons use uses inductionHypothesis =>
      obtain ⟨middle, isMiddle, after⟩ :=
        collecting.updateImports wellFormed use
      rw [List.foldlM_cons, isMiddle]
      exact inductionHypothesis after

/-! ## Exports -/

/-- What holds while a namespace is made: its exported names are defined, and
the names cached are imports. -/
structure Draft.Sound (uses : List Use) (imports : Table) (draft : Draft) :
    Prop where
  keepsUses : draft.space.uses = uses
  keepsImports : draft.space.imports = imports
  defined : ∀ name ∈ draft.space.exportedNames,
    ∃ value, draft.space.nameDefinition name = some value
  names : ∀ name value,
    lookup nameTest name draft.importedNameCache = some value →
      value = lookup nameTest name imports

section Drafts

variable {uses : List Use} {imports : Table} {draft : Draft}

theorem Draft.Sound.defineName (sound : draft.Sound uses imports)
    (name : Name) (value : Binding) :
    (draft.defineName name value).Sound uses imports ∧
      (draft.defineName name value).space.nameDefinition name =
        some value := by
  have definition : ∀ other,
      (draft.defineName name value).space.nameDefinition other =
        if nameTest.same other name then some value
        else draft.space.nameDefinition other := fun other => lookup_store
  constructor
  · constructor
    · exact sound.keepsUses
    · exact sound.keepsImports
    · intro other member
      rw [definition]
      split
      · exact ⟨value, rfl⟩
      · exact sound.defined other member
    · intro other cached found
      rw [Draft.defineName, lookup_erase] at found
      split at found
      · cases found
      · exact sound.names other cached found
  · rw [definition, if_pos (nameTest.refl name)]

theorem Draft.Sound.ensureDefined (sound : draft.Sound uses imports)
    (index : Nat) (name : Name) :
    (draft.ensureDefined index name).Sound uses imports ∧
      ∃ value, (draft.ensureDefined index name).space.nameDefinition name =
        some value := by
  rw [Draft.ensureDefined]
  cases isValue : draft.space.nameDefinition name with
  | none =>
      have after := sound.defineName name ⟨index, name⟩
      exact ⟨after.1, _, after.2⟩
  | some value => exact ⟨sound, value, isValue⟩

theorem Draft.Sound.exportName (sound : draft.Sound uses imports)
    {name : Name} {value : Binding}
    (isValue : draft.space.nameDefinition name = some value) (kind : Kind) :
    (draft.exportName name kind).Sound uses imports := by
  constructor
  · exact sound.keepsUses
  · exact sound.keepsImports
  · intro other member
    cases List.mem_insert_iff.mp member with
    | inl same =>
        rw [same]
        exact ⟨value, isValue⟩
    | inr earlier => exact sound.defined other earlier
  · exact sound.names

theorem Draft.Sound.doName (sound : draft.Sound uses imports) (index : Nat)
    (kind : Kind) (name : Name) :
    (draft.doName index kind name).Sound uses imports := by
  rw [Draft.doName]
  cases found : lookup nameTest name draft.space.imports with
  | none =>
      obtain ⟨after, value, isValue⟩ := sound.ensureDefined index name
      exact after.exportName isValue kind
  | some value =>
      constructor
      · exact sound.keepsUses
      · exact sound.keepsImports
      · exact sound.defined
      · intro other cached isCached
        rw [lookup_store] at isCached
        split at isCached
        case isTrue same =>
            rw [of_decide_eq_true same, ← sound.keepsImports, found]
            exact (Option.some.inj isCached).symm
        case isFalse => exact sound.names other cached isCached

/-- What each step keeps, a loop over names keeps. -/
theorem Draft.Sound.foldl {step : Draft → Name → Draft}
    (keeps : ∀ draft : Draft, draft.Sound uses imports →
      ∀ name, (step draft name).Sound uses imports)
    (sound : draft.Sound uses imports) (names : List Name) :
    (names.foldl step draft).Sound uses imports := by
  induction names generalizing draft with
  | nil => exact sound
  | cons name names inductionHypothesis =>
      exact inductionHypothesis (keeps draft sound name)

theorem Draft.Sound.updateExports (sound : draft.Sound uses imports)
    (index : Nat) (definition : Definition) :
    (draft.updateExports index definition).Sound uses imports := by
  apply Draft.Sound.foldl
  · intro draft sound
    exact sound.doName index .created
  · apply Draft.Sound.foldl
    · intro draft sound
      exact sound.doName index .exported
    · exact sound

/-- The imports that are noted are imports. -/
theorem lookup_noteNamespaceImports (definition : Definition)
    (distinct : Distinct nameTest imports) (name : Name)
    (value : Option Binding)
    (found : lookup nameTest name
      (noteNamespaceImports definition imports) = some value) :
    value = lookup nameTest name imports := by
  have noted : ∀ (entries : Table) (cache : List (Name × Option Binding)),
      (∀ entry ∈ entries, entry ∈ imports) →
      (∀ value, lookup nameTest name cache = some value →
        value = lookup nameTest name imports) →
      ∀ value, lookup nameTest name (entries.foldl (fun cache entry =>
          if definition.noted entry.1 then
            store nameTest entry.1 (some entry.2) cache
          else cache) cache) = some value →
        value = lookup nameTest name imports := by
    intro entries
    induction entries with
    | nil => exact fun cache _ sound => sound
    | cons entry entries inductionHypothesis =>
        intro cache members sound
        apply inductionHypothesis
        · intro other member
          exact members other (List.mem_cons_of_mem entry member)
        · intro value isValue
          by_cases isNoted : definition.noted entry.1 = true
          · simp only [isNoted, if_true, lookup_store] at isValue
            split at isValue
            case isTrue same =>
                rw [← Option.some.inj isValue]
                symm
                apply lookup_of_mem distinct _ same
                exact members entry List.mem_cons_self
            case isFalse => exact sound value isValue
          · simp only [isNoted] at isValue
            exact sound value isValue
  apply noted imports [] (fun _ member => member) _ value found
  intro value isValue
  cases isValue

end Drafts

/-! ## Adding a namespace -/

theorem Cache.Valid.congr {offers others : Offers} {space : Space}
    {cache : Cache} (valid : cache.Valid spellings offers space)
    (same : ∀ use ∈ space.uses, use.offers others = use.offers offers) :
    cache.Valid spellings others space := by
  constructor
  · rw [exportedImports_congr same]
    exact valid.table
  · intro name
    rw [leadsTo_congr same]
    exact valid.names name

/-- The namespaces are well formed, and what they cache is valid. -/
structure World.Sound (spellings : Spellings) (order : Order)
    (world : World) : Prop where
  wellFormed : WellFormed spellings order world.spaces
  valid : Valid spellings order world.spaces world.caches

theorem World.Sound.empty : World.empty.Sound spellings order := by
  constructor
  · constructor
    · intro index space found
      cases found
    · intro space member
      cases member
    · intro space member
      cases member
  · intro index below
    cases below

theorem WellFormed.concat (wellFormed : WellFormed spellings order spaces)
    {space : Space}
    (known : ∀ use ∈ space.uses, use.namespaceName < spaces.length)
    (defined : ∀ name ∈ space.exportedNames,
      ∃ value, space.nameDefinition name = some value)
    (imports : ∀ name, lookup nameTest name space.imports =
      lookup nameTest name
        (space.broughtIn spellings (allOffers spellings order spaces))) :
    WellFormed spellings order (spaces ++ [space]) := by
  have sameCandidates : ∀ other : Space,
      (∀ use ∈ other.uses, use.namespaceName < spaces.length) →
        other.broughtIn spellings
          (allOffers spellings order (spaces ++ [space])) =
        other.broughtIn spellings (allOffers spellings order spaces) := by
    intro other isKnown
    rw [allOffers_concat]
    apply broughtIn_congr
    apply offers_append
    rw [length_allOffers]
    exact isKnown
  constructor
  · intro index other found
    by_cases earlier : index < spaces.length
    · rw [List.getElem?_append_left earlier] at found
      exact wellFormed.backward index other found
    · have bound := (List.getElem?_eq_some_iff.mp found).1
      rw [List.length_append, List.length_singleton] at bound
      have isLast : index = spaces.length := by omega
      rw [isLast, List.getElem?_concat_length] at found
      cases found
      rw [isLast]
      exact known
  · intro other member
    rw [List.mem_append, List.mem_singleton] at member
    cases member with
    | inl earlier => exact wellFormed.defined other earlier
    | inr same =>
        rw [same]
        exact defined
  · intro other member name
    rw [List.mem_append, List.mem_singleton] at member
    cases member with
    | inl earlier =>
        obtain ⟨index, found⟩ := List.mem_iff_getElem?.mp earlier
        rw [sameCandidates other (wellFormed.backward.known found)]
        exact wellFormed.imports other earlier name
    | inr same =>
        rw [same, sameCandidates space known]
        exact imports name

theorem ValidBelow.concat (wellFormed : WellFormed spellings order spaces)
    {caches : Caches} (valid : Valid spellings order spaces caches)
    {space : Space} {cache : Cache}
    (table : cache.cachedExportedImportsTable = none)
    (names : ∀ name value,
      lookup nameTest name cache.importedNameCache = some value →
        value = lookup nameTest name space.imports) :
    Valid spellings order (spaces ++ [space])
      (Function.update caches spaces.length cache) := by
  intro index below other found
  rw [List.length_append, List.length_singleton] at below
  by_cases earlier : index < spaces.length
  · rw [List.getElem?_append_left earlier] at found
    rw [Function.update_of_ne (Nat.ne_of_lt earlier), allOffers_concat]
    apply (valid index earlier other found).congr
    apply offers_append
    rw [length_allOffers]
    exact wellFormed.backward.known found
  · have isLast : index = spaces.length := by omega
    rw [isLast, List.getElem?_concat_length] at found
    cases found
    rw [isLast, Function.update_self]
    constructor
    · intro some isTable
      rw [table] at isTable
      cases isTable
    · intro name value isValue
      exact Or.inl (names name value isValue)

/-- A namespace can be made, and the namespaces stay well formed. -/
theorem World.Sound.makeNamespace {world : World}
    (sound : world.Sound spellings order) (definition : Definition) :
    ∃ later, world.makeNamespace spellings order definition = some later ∧
      later.Sound spellings order ∧
      later.spaces.length = world.spaces.length + 1 := by
  have start : Collecting spellings order world.spaces
      { imports := ([], []), resolvedUses := [],
        caches := world.caches } := by
    constructor
    · exact sound.valid
    · intro use member
      cases member
    · rfl
  obtain ⟨progress, computed, collecting⟩ :=
    computeImports_collects sound.wellFormed definition.uses start
  have distinct : Distinct nameTest progress.imports.1 := by
    rw [collecting.imports]
    exact Distinct.foldl_keep List.Pairwise.nil _
  have draftSound : ∀ draft : Draft,
      draft.Sound progress.resolvedUses progress.imports.1 →
      (definition.definedNames.foldl
        (Draft.ensureDefined world.spaces.length)
        (draft.updateExports world.spaces.length definition)).Sound
          progress.resolvedUses progress.imports.1 := by
    intro draft isSound
    apply Draft.Sound.foldl
    · intro draft sound name
      exact (sound.ensureDefined world.spaces.length name).1
    · exact isSound.updateExports world.spaces.length definition
  rw [World.makeNamespace, computeImports, computed]
  refine ⟨_, rfl, ?_, List.length_append⟩
  have final := draftSound {
    space := {
      uses := progress.resolvedUses
      imports := progress.imports.1
      namespaceLocalBindings := []
      exportedNames := []
      createdNames := [] }
    importedNameCache :=
      noteNamespaceImports definition progress.imports.1
    warnings := world.warnings ++ progress.imports.2 } ⟨rfl, rfl,
      fun _ member => absurd member List.not_mem_nil,
      lookup_noteNamespaceImports definition distinct⟩
  constructor
  · apply sound.wellFormed.concat
    · rw [final.keepsUses]
      exact collecting.known
    · exact final.defined
    · intro name
      rw [final.keepsImports, Space.broughtIn, final.keepsUses,
        collecting.imports,
        lookup_foldl_keep]
      exact Option.none_or
  · apply ValidBelow.concat sound.wellFormed collecting.valid rfl
    rw [final.keepsImports]
    exact final.names

end OpenDylan.Compiler.Namespaces
