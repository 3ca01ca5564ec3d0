import OpenDylan.Compiler.NamespaceTables

/-!
# Lookups in namespaces

A lookup is answered by the table of exported imports, by the cache or by the
filters, whichever is there first.  The three agree on a name if the last
candidate for the exported name and the first binding to which the clauses lead
are the first candidate for the name.
-/

namespace OpenDylan.Compiler.Namespaces

open Runtime.Symbols NameFilters Lib.KeyedMap

variable {spellings : Spellings} {order : Order} {spaces : List Space}

/-! ## Exported names -/

theorem lookup_definitions (space : Space) (names : List Name)
    (name : Name) :
    lookup nameTest name (names.filterMap fun name =>
        (space.nameDefinition name).map fun value => (name, value)) =
      if name ∈ names then space.nameDefinition name else none := by
  induction names with
  | nil => rfl
  | cons first names inductionHypothesis =>
      by_cases same : name = first
      · subst same
        rw [if_pos List.mem_cons_self, List.filterMap_cons]
        cases isValue : space.nameDefinition name with
        | none =>
            rw [isValue] at inductionHypothesis
            simpa using inductionHypothesis
        | some value =>
            show lookup nameTest name ((name, value) :: _) = _
            rw [lookup_cons, if_pos (nameTest.refl name)]
      · have member : name ∈ first :: names ↔ name ∈ names := by
          rw [List.mem_cons, or_iff_right same]
        simp only [member]
        rw [← inductionHypothesis, List.filterMap_cons]
        cases space.nameDefinition first with
        | none => rfl
        | some value =>
            show lookup nameTest name ((first, value) :: _) = _
            rw [lookup_cons, if_neg]
            intro isFirst
            exact same (of_decide_eq_true isFirst)

/-- What a namespace offers under a name. -/
theorem lookup_offered {space : Space} {table : Table}
    (defined : ∀ name ∈ space.exportedNames,
      ∃ value, space.nameDefinition name = some value)
    (distinct : Distinct nameTest table) (name : Name) :
    lookup nameTest name (offered order space table) =
      if name ∈ space.exportedNames then space.nameDefinition name
      else lookup nameTest name table := by
  have same : lookup nameTest name (order.entries table) =
      lookup nameTest name table :=
    lookup_perm (distinct.perm (order.entries_perm table).symm)
      (order.entries_perm table)
  rw [offered, lookup_append, lookup_definitions, same]
  simp only [(order.names_perm _).mem_iff]
  split
  case isTrue member =>
      cases defined name member with
      | intro value isValue => rw [isValue, Option.some_or]
  case isFalse => exact Option.none_or

theorem exportedImports_distinct (offers : Offers) (space : Space) :
    Distinct nameTest (exportedImports spellings offers space) :=
  Distinct.foldl_store List.Pairwise.nil _

/-- The caches of all namespaces are valid. -/
abbrev Valid (spellings : Spellings) (order : Order) (spaces : List Space)
    (caches : Caches) : Prop :=
  ValidBelow spellings order spaces spaces.length caches

section Lookups

variable {caches : Caches} {index : Nat} {space : Space}

theorem lookupExportedName_eq (wellFormed : WellFormed spellings order spaces)
    (valid : Valid spellings order spaces caches)
    (found : spaces[index]? = some space) (name : Name) :
    ∃ later, lookupExportedName spellings order spaces index name caches =
        some (lookup nameTest name (offered order space (exportedImports
          spellings (allOffers spellings order spaces) space)), later) ∧
      Valid spellings order spaces later := by
  have defined := wellFormed.defined space (List.mem_of_getElem? found)
  rw [lookup_offered defined (exportedImports_distinct _ _),
    lookupExportedName, found]
  simp only [Option.bind_eq_bind, Option.bind_some]
  split
  case isTrue member =>
      cases defined name member with
      | intro value isValue =>
          rw [isValue]
          exact ⟨caches, rfl, valid⟩
  case isFalse =>
      have known := (List.getElem?_eq_some_iff.mp found).1
      obtain ⟨later, made, touched, kept⟩ := makesTables wellFormed
        (index + 1) index (Nat.lt_succ_self index) space caches found
        (valid.mono known)
      rw [made]
      exact ⟨later, rfl, valid.extend touched kept⟩

/-- On demand a name is looked up through the clauses that lead from it. -/
theorem lookupImportedName_eq
    (wellFormed : WellFormed spellings order spaces)
    (valid : Valid spellings order spaces caches) (name : Name)
    (uses : List Use)
    (known : ∀ use ∈ uses, use.namespaceName < spaces.length) :
    ∃ later, lookupImportedName spellings order spaces name uses caches =
        some ((uses.filterMap (Use.leadsTo spellings
          (allOffers spellings order spaces) name)).head?, later) ∧
      Valid spellings order spaces later := by
  induction uses generalizing caches with
  | nil => exact ⟨caches, rfl, valid⟩
  | cons use uses inductionHypothesis =>
      have rest : ∀ other ∈ uses, other.namespaceName < spaces.length := by
        intro other member
        exact known other (List.mem_cons_of_mem use member)
      rw [lookupImportedName, List.filterMap_cons, Use.leadsTo]
      cases unfilterName spellings use.filter name with
      | none => exact inductionHypothesis valid rest
      | some usedName =>
          have isKnown := known use List.mem_cons_self
          have found := List.getElem?_eq_getElem isKnown
          generalize spaces[use.namespaceName] = usedSpace at found
          obtain ⟨middle, isMiddle, after⟩ :=
            lookupExportedName_eq wellFormed valid found usedName
          rw [← Use.offers_eq wellFormed.backward found] at isMiddle
          simp only [found, Option.bind_eq_bind, Option.bind_some, isMiddle]
          cases lookup nameTest usedName (use.offers
            (allOffers spellings order spaces)) with
          | none => exact inductionHypothesis after rest
          | some value => exact ⟨middle, rfl, after⟩

/-! ## Names -/

/-- Three ways in which a name is looked up. -/
inductive Found (spellings : Spellings) (offers : Offers) (space : Space)
    (name : Name) : Option Binding → Prop where
  | reexported (binding : Binding)
      (last : lookup nameTest name
        (space.reexported spellings offers).reverse = some binding) :
      Found spellings offers space name (some binding)
  | imported : Found spellings offers space name
      (lookup nameTest name space.imports)
  | demanded : Found spellings offers space name
      (space.leadsTo spellings offers name)

theorem lookup_exportedImports (offers : Offers) (space : Space)
    (name : Name) :
    lookup nameTest name (exportedImports spellings offers space) =
      lookup nameTest name (space.reexported spellings offers).reverse := by
  rw [exportedImports, lookup_foldl_store]
  exact Option.or_none

theorem ValidBelow.storeName {bound : Nat}
    (valid : ValidBelow spellings order spaces bound caches)
    (found : spaces[index]? = some space) (name : Name) :
    ValidBelow spellings order spaces bound (Function.update caches index {
      importedNameCache := store nameTest name
        (space.leadsTo spellings (allOffers spellings order spaces) name)
        (caches index).importedNameCache
      cachedExportedImportsTable :=
        (caches index).cachedExportedImportsTable }) := by
  intro other earlier otherSpace isOther
  by_cases same : other = index
  · subst same
    rw [found] at isOther
    cases isOther
    have own := valid other earlier space found
    rw [Function.update_self]
    constructor
    · exact own.table
    · intro cachedName value isValue
      rw [lookup_store] at isValue
      split at isValue
      case isTrue isName =>
          rw [of_decide_eq_true isName]
          exact Or.inr (Option.some.inj isValue).symm
      case isFalse => exact own.names cachedName value isValue
  · rw [Function.update_of_ne same]
    exact valid other earlier otherSpace isOther

theorem lookupUncachedName_eq
    (wellFormed : WellFormed spellings order spaces)
    (valid : Valid spellings order spaces caches)
    (found : spaces[index]? = some space) (name : Name) (supplied : Bool) :
    ∃ later, lookupUncachedName spellings order spaces index name supplied
        caches = some (Answer.of supplied (space.leadsTo spellings
          (allOffers spellings order spaces) name), later) ∧
      Valid spellings order spaces later := by
  obtain ⟨middle, isMiddle, after⟩ := lookupImportedName_eq wellFormed valid
    name space.uses (wellFormed.backward.known found)
  rw [lookupUncachedName, found]
  simp only [Option.bind_eq_bind, Option.bind_some, isMiddle]
  exact ⟨_, rfl, after.storeName found name⟩

theorem lookupCachedName_found
    (wellFormed : WellFormed spellings order spaces)
    (valid : Valid spellings order spaces caches)
    (found : spaces[index]? = some space) (name : Name) (supplied : Bool) :
    ∃ value later, lookupCachedName spellings order spaces index name
        supplied caches = some (Answer.of supplied value, later) ∧
      Found spellings (allOffers spellings order spaces) space name value ∧
      Valid spellings order spaces later := by
  have uncached := lookupUncachedName_eq wellFormed valid found name supplied
  have known := (List.getElem?_eq_some_iff.mp found).1
  have own := (valid index known space found).names name
  rw [lookupCachedName]
  cases cached : lookup nameTest name (caches index).importedNameCache with
  | none =>
      obtain ⟨later, isLater, after⟩ := uncached
      exact ⟨_, later, isLater, .demanded, after⟩
  | some value =>
      have way : Found spellings (allOffers spellings order spaces) space
          name value := by
        cases own value cached with
        | inl imported =>
            rw [imported]
            exact .imported
        | inr demanded =>
            rw [demanded]
            exact .demanded
      cases value with
      | some binding => exact ⟨some binding, caches, rfl, way, valid⟩
      | none =>
          cases supplied with
          | true => exact ⟨none, caches, rfl, way, valid⟩
          | false =>
              obtain ⟨later, isLater, after⟩ := uncached
              exact ⟨_, later, isLater, .demanded, after⟩

/-- A name that is not defined is looked up in one of three ways. -/
theorem lookupName_found (wellFormed : WellFormed spellings order spaces)
    (valid : Valid spellings order spaces caches)
    (found : spaces[index]? = some space) {name : Name}
    (undefined : space.nameDefinition name = none) (supplied : Bool) :
    ∃ value later, lookupName spellings order spaces index name supplied
        false caches = some (Answer.of supplied value, later) ∧
      Found spellings (allOffers spellings order spaces) space name value ∧
      Valid spellings order spaces later := by
  have cached :=
    lookupCachedName_found wellFormed valid found name supplied
  have known := (List.getElem?_eq_some_iff.mp found).1
  have own := (valid index known space found).table
  rw [lookupName, found]
  simp only [Option.bind_eq_bind, Option.bind_some, undefined]
  rw [if_neg Bool.false_ne_true]
  cases isTable : (caches index).cachedExportedImportsTable with
  | none => exact cached
  | some table =>
      rw [own table isTable, Option.bind_some]
      cases last : lookup nameTest name (exportedImports spellings
          (allOffers spellings order spaces) space) with
      | none => exact cached
      | some binding =>
          rw [lookup_exportedImports] at last
          exact ⟨some binding, caches, rfl, .reexported binding last, valid⟩

/-- A name that is not defined is looked up for clients in the table of
exported imports. -/
theorem lookupName_exported (wellFormed : WellFormed spellings order spaces)
    (valid : Valid spellings order spaces caches)
    (found : spaces[index]? = some space) {name : Name}
    (undefined : space.nameDefinition name = none) (supplied : Bool) :
    ∃ later, lookupName spellings order spaces index name supplied true
        caches = some (Answer.of supplied (lookup nameTest name
          (space.reexported spellings
            (allOffers spellings order spaces)).reverse), later) ∧
      Valid spellings order spaces later := by
  have defined := wellFormed.defined space (List.mem_of_getElem? found)
  obtain ⟨later, isLater, after⟩ :=
    lookupExportedName_eq wellFormed valid found name
  have notExported : name ∉ space.exportedNames := by
    intro member
    cases defined name member with
    | intro value isValue =>
        rw [undefined] at isValue
        cases isValue
  rw [lookup_offered defined (exportedImports_distinct _ _),
    if_neg notExported, lookup_exportedImports] at isLater
  rw [lookupName, found]
  simp only [Option.bind_eq_bind, Option.bind_some, isLater]
  exact ⟨later, rfl, after⟩

end Lookups

end OpenDylan.Compiler.Namespaces
