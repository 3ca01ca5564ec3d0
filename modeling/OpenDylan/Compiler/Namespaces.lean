import OpenDylan.Compiler.NameFilters
import OpenDylan.Lib.KeyedMap

/-!
# Namespaces

A namespace sees the names that the namespaces it uses export, through the
filters of its use clauses.  When it is made, its imports are collected, noted
and thrown away; from then on they are looked up lazily.  A lookup is answered
by the imports that the namespace exports again, if the table of these is
there, else by a cache, else by the filters.

Namespaces are numbered in the order in which they are made.  The name in a
use clause stands for the number of the namespace that it is resolved to.
-/

namespace OpenDylan.Compiler.Namespaces

open Runtime.Symbols NameFilters Lib.KeyedMap

/-- The value of a name: the binding made for it in its home. -/
structure Binding where
  home : Nat
  name : Name
deriving DecidableEq

abbrev nameTest : KeyTest Name := KeyTest.equality Name

abbrev Table := List (Name × Binding)

/-- The orders in which the elements of a set and of a table come. -/
structure Order where
  names : List Name → List Name
  entries : Table → Table
  names_perm (set : List Name) : (names set).Perm set
  entries_perm (table : Table) : (entries table).Perm table

/-- A filter of the `uses`. -/
structure Use where
  filter : Filter
  namespaceName : Nat

/-- A `<full-namespace>` without what it caches.  The `imports` are what
`compute-imports` answered when it was made. -/
structure Space where
  uses : List Use
  imports : Table
  namespaceLocalBindings : Table
  exportedNames : List Name
  createdNames : List Name

/-- What a namespace caches; `none` stands for `$name-not-imported`. -/
structure Cache where
  importedNameCache : List (Name × Option Binding)
  cachedExportedImportsTable : Option Table

abbrev Caches := Nat → Cache

/-- The warnings when a namespace is made. -/
inductive Warning where
  | usedNamespaceNotFound (used : Nat)
  | importedNameClash (name : Name) (first other : Binding)
  | exportImportConflict (name : Name) (binding : Binding)
  | createImportConflict (name : Name) (binding : Binding)
deriving DecidableEq

section Lookups

variable (spellings : Spellings) (order : Order) (spaces : List Space)

/-- `name-definition` -/
def Space.nameDefinition (space : Space) (name : Name) : Option Binding :=
  lookup nameTest name space.namespaceLocalBindings

/-! ## Exported imports -/

/-- `do-exported-names` -/
def doExportedNames (cache : Cache) (names : List Name) (value : Binding) :
    Cache :=
  names.foldl (fun cache localName => {
      importedNameCache := erase nameTest localName cache.importedNameCache
      cachedExportedImportsTable :=
        cache.cachedExportedImportsTable.map
          (store nameTest localName value) }) cache

/-- The body of the loops of `make-exported-imports-table`. -/
def addExportedNames (index : Nat) (use : Use) (caches : Caches)
    (originalName : Name) (value : Binding) : Caches :=
  Function.update caches index (doExportedNames (caches index)
    (filterExportedName spellings use.filter originalName) value)

/-- `make-exported-imports-table` for one of the uses; the first argument is
`exported-imports-table`. -/
def addExportedImports (exportedImportsTable : Nat → Caches →
      Option (Table × Caches)) (index : Nat) (caches : Caches) (use : Use) :
    Option Caches := do
  let usedSpace ← spaces[use.namespaceName]?
  let caches ← (order.names usedSpace.exportedNames).foldlM
    (fun caches originalName => do
      let value ← usedSpace.nameDefinition originalName
      pure (addExportedNames spellings index use caches originalName value))
    caches
  let (table, caches) ← exportedImportsTable use.namespaceName caches
  pure ((order.entries table).foldl (fun caches entry =>
    addExportedNames spellings index use caches entry.1 entry.2) caches)

/-- `exported-imports-table`.  The first argument bounds the number of
namespaces each of which uses the next. -/
def exportedImportsTable : Nat → Nat → Caches → Option (Table × Caches)
  | 0, _, _ => none
  | depth + 1, index, caches => do
      match (caches index).cachedExportedImportsTable with
      | some table => pure (table, caches)
      | none =>
          let space ← spaces[index]?
          let caches := Function.update caches index
            { caches index with cachedExportedImportsTable := some [] }
          let caches ← space.uses.foldlM
            (addExportedImports spellings order spaces
              (exportedImportsTable depth) index) caches
          let table ← (caches index).cachedExportedImportsTable
          pure (table, caches)

/-! ## Lookups -/

/-- `lookup-exported-name`, for the default `$unfound`. -/
def lookupExportedName (index : Nat) (name : Name) (caches : Caches) :
    Option (Option Binding × Caches) := do
  let space ← spaces[index]?
  if name ∈ space.exportedNames then
    let value ← space.nameDefinition name
    pure (some value, caches)
  else
    let (table, caches) ←
      exportedImportsTable spellings order spaces (index + 1) index caches
    pure (lookup nameTest name table, caches)

/-- `lookup-imported-name` -/
def lookupImportedName (name : Name) :
    List Use → Caches → Option (Option Binding × Caches)
  | [], caches => some (none, caches)
  | use :: uses, caches =>
      match unfilterName spellings use.filter name with
      | none => lookupImportedName name uses caches
      | some usedName =>
          match spaces[use.namespaceName]? with
          | none => lookupImportedName name uses caches
          | some _ => do
              let (value, caches) ← lookupExportedName spellings order spaces
                use.namespaceName usedName caches
              match value with
              | some value => pure (some value, caches)
              | none => lookupImportedName name uses caches

/-- What `lookup-name` answers: a value, the default, or the error that the
name is not found. -/
inductive Answer where
  | value (binding : Binding)
  | default
  | notFound
deriving DecidableEq

/-- The answer for what was found. -/
def Answer.of (supplied : Bool) : Option Binding → Answer
  | some binding => .value binding
  | none => if supplied then .default else .notFound

/-- `lookup-name` where the name was not found in the cache. -/
def lookupUncachedName (index : Nat) (name : Name) (supplied : Bool)
    (caches : Caches) : Option (Answer × Caches) := do
  let space ← spaces[index]?
  let (importedValue, caches) ←
    lookupImportedName spellings order spaces name space.uses caches
  let cache : Cache := {
    importedNameCache :=
      store nameTest name importedValue (caches index).importedNameCache
    cachedExportedImportsTable := (caches index).cachedExportedImportsTable }
  pure (Answer.of supplied importedValue, Function.update caches index cache)

/-- `lookup-name` where the name was not found in the exported imports. -/
def lookupCachedName (index : Nat) (name : Name) (supplied : Bool)
    (caches : Caches) : Option (Answer × Caches) :=
  match lookup nameTest name (caches index).importedNameCache with
  | some (some value) => some (.value value, caches)
  | some none =>
      if supplied then some (.default, caches)
      else lookupUncachedName spellings order spaces index name supplied caches
  | none =>
      lookupUncachedName spellings order spaces index name supplied caches

/-- `lookup-name` -/
def lookupName (index : Nat) (name : Name) (supplied exported : Bool)
    (caches : Caches) : Option (Answer × Caches) := do
  let space ← spaces[index]?
  if exported then
    let (value, caches) ←
      lookupExportedName spellings order spaces index name caches
    pure (Answer.of supplied value, caches)
  else
    match space.nameDefinition name with
    | some value => pure (.value value, caches)
    | none =>
        match (caches index).cachedExportedImportsTable.bind
            (lookup nameTest name) with
        | some value => pure (.value value, caches)
        | none =>
            lookupCachedName spellings order spaces index name supplied caches

/-! ## Imports -/

/-- The body of the loop of `update-name`. -/
def updateLocalName (new : Binding) (imports : Table × List Warning)
    (localName : Name) : Table × List Warning :=
  match lookup nameTest localName imports.1 with
  | none => (store nameTest localName new imports.1, imports.2)
  | some old =>
      if old = new then imports
      else (imports.1, imports.2 ++ [.importedNameClash localName old new])

/-- `update-name` -/
def updateName (use : Use) (imports : Table × List Warning)
    (originalName : Name) (new : Binding) : Table × List Warning :=
  (filterName spellings use.filter originalName).foldl (updateLocalName new)
    imports

/-- What the loop of `compute-imports` has collected. -/
structure Progress where
  imports : Table × List Warning
  resolvedUses : List Use
  caches : Caches

/-- `update-imports` -/
def updateImports (progress : Progress) (use : Use) : Option Progress := do
  match spaces[use.namespaceName]? with
  | none =>
      pure { progress with
        imports := (progress.imports.1, progress.imports.2 ++
          [.usedNamespaceNotFound use.namespaceName]) }
  | some usedSpace =>
      let imports ← (order.names usedSpace.exportedNames).foldlM
        (fun imports originalName => do
          let new ← usedSpace.nameDefinition originalName
          pure (updateName spellings use imports originalName new))
        progress.imports
      let (table, caches) ← exportedImportsTable spellings order spaces
        (use.namespaceName + 1) use.namespaceName progress.caches
      pure {
        imports := (order.entries table).foldl (fun imports entry =>
          updateName spellings use imports entry.1 entry.2) imports
        resolvedUses := progress.resolvedUses ++ [use]
        caches := caches }

/-- `compute-imports` -/
def computeImports (uses : List Use) (caches : Caches) : Option Progress :=
  uses.foldlM (updateImports spellings order spaces)
    { imports := ([], []), resolvedUses := [], caches := caches }

end Lookups

/-! ## Making a namespace -/

/-- A namespace definition: its use, export and create clauses, the names
defined in the namespace itself, and the imports that
`note-namespace-imports` caches: in a library all of them, in a module those
that name a definer. -/
structure Definition where
  useClauses : List (Nat × Options) := []
  exportClauses : List (List Name) := []
  createClauses : List (List Name) := []
  definedNames : List Name := []
  noted : Name → Bool := fun _ => false

/-- A namespace while it is made. -/
structure Draft where
  space : Space
  importedNameCache : List (Name × Option Binding)
  warnings : List Warning

/-- `define-name` -/
def Draft.defineName (draft : Draft) (name : Name) (value : Binding) :
    Draft := { draft with
  space := { draft.space with
    namespaceLocalBindings :=
      store nameTest name value draft.space.namespaceLocalBindings }
  importedNameCache := erase nameTest name draft.importedNameCache }

/-- `define-name` of a binding whose home is the namespace, unless the name is
defined. -/
def Draft.ensureDefined (index : Nat) (draft : Draft) (name : Name) : Draft :=
  match draft.space.nameDefinition name with
  | some _ => draft
  | none => draft.defineName name ⟨index, name⟩

/-- The kinds of external names. -/
inductive Kind where
  | exported
  | created
deriving DecidableEq

/-- `export-name` -/
def Draft.exportName (draft : Draft) (name : Name) (kind : Kind) : Draft :=
  { draft with
    space := { draft.space with
      exportedNames := draft.space.exportedNames.insert name
      createdNames :=
        if kind = .created then draft.space.createdNames.insert name
        else draft.space.createdNames } }

/-- `do-clause` of `update-exports!`, for one name. -/
def Draft.doName (index : Nat) (kind : Kind) (draft : Draft) (name : Name) :
    Draft :=
  match lookup nameTest name draft.space.imports with
  | some value => { draft with
      importedNameCache :=
        store nameTest name (some value) draft.importedNameCache
      warnings := draft.warnings ++ [match kind with
        | .created => .createImportConflict name value
        | .exported => .exportImportConflict name value] }
  | none => (draft.ensureDefined index name).exportName name kind

/-- `update-exports!` -/
def Draft.updateExports (index : Nat) (definition : Definition)
    (draft : Draft) : Draft :=
  let draft := definition.exportClauses.flatten.foldl
    (Draft.doName index .exported) draft
  definition.createClauses.flatten.foldl (Draft.doName index .created) draft

/-- The namespaces with what they cache, and the warnings so far. -/
structure World where
  spaces : List Space
  caches : Caches
  warnings : List Warning

/-- No namespaces. -/
def World.empty : World where
  spaces := []
  caches _ := ⟨[], none⟩
  warnings := []

/-- The filters for the use clauses. -/
def Definition.uses (definition : Definition) : List Use :=
  definition.useClauses.map fun clause => ⟨makeFilter clause.2, clause.1⟩

/-- `note-namespace-imports` -/
def noteNamespaceImports (definition : Definition) (imports : Table) :
    List (Name × Option Binding) :=
  imports.foldl (fun cache entry =>
    if definition.noted entry.1 then
      store nameTest entry.1 (some entry.2) cache
    else cache) []

/-- `make-namespace`, and the definitions in the namespace. -/
def World.makeNamespace (spellings : Spellings) (order : Order)
    (world : World) (definition : Definition) : Option World := do
  let index := world.spaces.length
  let progress ← computeImports spellings order world.spaces definition.uses
    world.caches
  let imports := progress.imports.1
  let draft : Draft := {
    space := {
      uses := progress.resolvedUses
      imports := imports
      namespaceLocalBindings := []
      exportedNames := []
      createdNames := [] }
    importedNameCache := noteNamespaceImports definition imports
    warnings := world.warnings ++ progress.imports.2 }
  let draft := definition.definedNames.foldl (Draft.ensureDefined index)
    (draft.updateExports index definition)
  pure {
    spaces := world.spaces ++ [draft.space]
    caches := Function.update progress.caches index
      ⟨draft.importedNameCache, none⟩
    warnings := draft.warnings }

end OpenDylan.Compiler.Namespaces
