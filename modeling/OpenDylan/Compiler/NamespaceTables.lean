import OpenDylan.Compiler.Namespaces

/-!
# What namespaces bring in and export again

The use clauses of a namespace list candidates for its names: bindings that the
used namespaces offer, under the names that the filters give them.  Of the
candidates for a name the imports keep the first, and the table of exported
imports the last.  The table does not depend on what was cached when it was
made.
-/

namespace OpenDylan.Compiler.Namespaces

open Runtime.Symbols NameFilters Lib.KeyedMap

section Candidates

variable (spellings : Spellings) (order : Order)

/-- What a namespace offers, if its table of exported imports is known. -/
def offered (space : Space) (table : Table) : Table :=
  ((order.names space.exportedNames).filterMap fun name =>
    (space.nameDefinition name).map fun value => (name, value)) ++
    order.entries table

/-- What an entry offered is brought in as. -/
def renamings (filtered : Name → List Name) (entry : Name × Binding) :
    Table :=
  (filtered entry.1).map fun localName => (localName, entry.2)

/-- What namespaces offer, in the order of their numbers. -/
abbrev Offers := List Table

/-- What the namespace used by a clause offers. -/
def Use.offers (offers : Offers) (use : Use) : Table :=
  offers[use.namespaceName]?.getD []

/-- The candidates of a clause for the names of a namespace. -/
def Use.broughtIn (offers : Offers) (use : Use) : Table :=
  (use.offers offers).flatMap (renamings (filterName spellings use.filter))

/-- The candidates of a clause for the exported names of a namespace. -/
def Use.reexported (offers : Offers) (use : Use) : Table :=
  (use.offers offers).flatMap
    (renamings (filterExportedName spellings use.filter))

/-- The candidates for the names of a namespace. -/
def Space.broughtIn (offers : Offers) (space : Space) : Table :=
  space.uses.flatMap (Use.broughtIn spellings offers)

/-- The candidates for the exported names of a namespace. -/
def Space.reexported (offers : Offers) (space : Space) : Table :=
  space.uses.flatMap (Use.reexported spellings offers)

/-- The table of exported imports of a namespace. -/
def exportedImports (offers : Offers) (space : Space) : Table :=
  (space.reexported spellings offers).foldl
    (fun table entry => store nameTest entry.1 entry.2 table) []

/-- What the namespaces offer. -/
def allOffers (spaces : List Space) : Offers :=
  spaces.foldl (fun offers space => offers ++
    [offered order space (exportedImports spellings offers space)]) []

/-- The binding to which a clause leads from a name. -/
def Use.leadsTo (offers : Offers) (name : Name) (use : Use) :
    Option Binding := do
  let usedName ← unfilterName spellings use.filter name
  lookup nameTest usedName (use.offers offers)

/-- The binding to which the clauses lead from a name. -/
def Space.leadsTo (offers : Offers) (space : Space) (name : Name) :
    Option Binding :=
  (space.uses.filterMap (Use.leadsTo spellings offers name)).head?

/-- The namespaces use those before them. -/
def Backward (spaces : List Space) : Prop :=
  ∀ (index : Nat) (space : Space), spaces[index]? = some space →
    ∀ use ∈ space.uses, use.namespaceName < index

/-- The namespaces use those before them, their exported names are defined,
and their imports are the first candidates. -/
structure WellFormed (spaces : List Space) : Prop where
  backward : Backward spaces
  defined : ∀ space ∈ spaces, ∀ name ∈ space.exportedNames,
    ∃ value, space.nameDefinition name = some value
  imports : ∀ space ∈ spaces, ∀ name,
    lookup nameTest name space.imports = lookup nameTest name
      (space.broughtIn spellings (allOffers spellings order spaces))

/-- What is cached is the table of exported imports, and for each name either
its import or the binding to which the clauses lead. -/
structure Cache.Valid (offers : Offers) (space : Space) (cache : Cache) :
    Prop where
  table : ∀ table, cache.cachedExportedImportsTable = some table →
    table = exportedImports spellings offers space
  names : ∀ name value,
    lookup nameTest name cache.importedNameCache = some value →
      value = lookup nameTest name space.imports ∨
        value = space.leadsTo spellings offers name

/-- The caches of the namespaces below a bound are valid. -/
def ValidBelow (spaces : List Space) (bound : Nat) (caches : Caches) : Prop :=
  ∀ index < bound, ∀ space, spaces[index]? = some space →
    (caches index).Valid spellings (allOffers spellings order spaces) space

end Candidates

variable {spellings : Spellings} {order : Order} {spaces : List Space}

/-! ## Offers -/

theorem allOffers_concat (space : Space) :
    allOffers spellings order (spaces ++ [space]) =
      allOffers spellings order spaces ++ [offered order space
        (exportedImports spellings (allOffers spellings order spaces)
          space)] := by
  rw [allOffers, List.foldl_append]
  rfl

theorem length_allOffers :
    (allOffers spellings order spaces).length = spaces.length := by
  induction spaces using List.reverseRecOn with
  | nil => rfl
  | append_singleton spaces space inductionHypothesis =>
      rw [allOffers_concat, List.length_append, List.length_append,
        inductionHypothesis]
      rfl

section Congruence

variable {space : Space} {offers others : Offers}

theorem exportedImports_congr
    (same : ∀ use ∈ space.uses, use.offers offers = use.offers others) :
    exportedImports spellings offers space =
      exportedImports spellings others space := by
  have candidates : space.reexported spellings offers =
      space.reexported spellings others := by
    apply List.flatMap_congr
    intro use member
    rw [Use.reexported, Use.reexported, same use member]
  rw [exportedImports, exportedImports, candidates]

theorem broughtIn_congr
    (same : ∀ use ∈ space.uses, use.offers offers = use.offers others) :
    space.broughtIn spellings offers =
      space.broughtIn spellings others := by
  apply List.flatMap_congr
  intro use member
  rw [Use.broughtIn, Use.broughtIn, same use member]

theorem leadsTo_congr
    (same : ∀ use ∈ space.uses, use.offers offers = use.offers others)
    (name : Name) :
    space.leadsTo spellings offers name =
      space.leadsTo spellings others name := by
  rw [Space.leadsTo, Space.leadsTo]
  congr 1
  apply List.filterMap_congr
  intro use member
  rw [Use.leadsTo, Use.leadsTo, same use member]

end Congruence

theorem offers_append {uses : List Use} {offers : Offers}
    (known : ∀ use ∈ uses, use.namespaceName < offers.length)
    (more : Offers) :
    ∀ use ∈ uses, use.offers (offers ++ more) = use.offers offers := by
  intro use member
  rw [Use.offers, Use.offers, List.getElem?_append_left (known use member)]

theorem Backward.init {space : Space}
    (backward : Backward (spaces ++ [space])) : Backward spaces := by
  intro index other found
  apply backward
  have known := (List.getElem?_eq_some_iff.mp found).1
  rw [List.getElem?_append_left known, found]

theorem Backward.known {space : Space} {index : Nat}
    (backward : Backward spaces) (found : spaces[index]? = some space) :
    ∀ use ∈ space.uses, use.namespaceName < spaces.length := by
  intro use member
  have known := (List.getElem?_eq_some_iff.mp found).1
  exact Nat.lt_trans (backward index space found use member) known

/-- What a namespace offers follows from what all namespaces offer. -/
theorem allOffers_eq (backward : Backward spaces) {index : Nat}
    {space : Space} (found : spaces[index]? = some space) :
    (allOffers spellings order spaces)[index]? = some (offered order space
      (exportedImports spellings (allOffers spellings order spaces)
        space)) := by
  induction spaces using List.reverseRecOn with
  | nil => cases found
  | append_singleton spaces last inductionHypothesis =>
      have bound := (List.getElem?_eq_some_iff.mp found).1
      rw [List.length_append, List.length_singleton] at bound
      have known : ∀ use ∈ space.uses, use.namespaceName <
          (allOffers spellings order spaces).length := by
        intro use member
        rw [length_allOffers]
        exact Nat.lt_of_lt_of_le (backward index space found use member)
          (Nat.le_of_lt_succ bound)
      rw [allOffers_concat, exportedImports_congr (offers_append known _)]
      by_cases earlier : index < spaces.length
      · rw [List.getElem?_append_left earlier] at found
        rw [List.getElem?_append_left (by rwa [length_allOffers])]
        exact inductionHypothesis backward.init found
      · have isLast : index = spaces.length := by omega
        rw [isLast, List.getElem?_concat_length] at found
        rw [isLast, ← @length_allOffers spellings order spaces,
          List.getElem?_concat_length]
        cases found
        rfl

theorem Use.offers_eq (backward : Backward spaces) {use : Use}
    {space : Space} (found : spaces[use.namespaceName]? = some space) :
    use.offers (allOffers spellings order spaces) = offered order space
      (exportedImports spellings (allOffers spellings order spaces)
        space) := by
  rw [Use.offers, allOffers_eq backward found]
  rfl

/-! ## Filling a table -/

/-- A cache has the given table, and it has no names but those of another. -/
structure Filled (before : Cache) (table : Table) (cache : Cache) : Prop where
  table : cache.cachedExportedImportsTable = some table
  names : ∀ name value,
    lookup nameTest name cache.importedNameCache = some value →
      lookup nameTest name before.importedNameCache = some value

theorem Filled.doExportedNames {before cache : Cache} {table : Table}
    (filled : Filled before table cache) (names : List Name)
    (value : Binding) :
    Filled before ((names.map fun name => (name, value)).foldl
      (fun table entry => store nameTest entry.1 entry.2 table) table)
      (doExportedNames cache names value) := by
  induction names generalizing cache table with
  | nil => exact filled
  | cons name names inductionHypothesis =>
      apply inductionHypothesis
      constructor
      · show Option.map _ cache.cachedExportedImportsTable = _
        rw [filled.table]
        rfl
      · intro other found known
        rw [lookup_erase] at known
        apply filled.names
        split at known
        · cases known
        · exact known

/-- What holds while the table of a namespace is made: the caches below are
valid, those above are as before, and the table has been filled so far. -/
structure Making (spellings : Spellings) (order : Order)
    (spaces : List Space) (index : Nat) (before : Caches) (table : Table)
    (caches : Caches) : Prop where
  below : ValidBelow spellings order spaces index caches
  above : ∀ other, index < other → caches other = before other
  filled : Filled (before index) table (caches index)

section Loops

variable {index : Nat} {before caches : Caches} {table : Table}

theorem Making.addExportedNames
    (making : Making spellings order spaces index before table caches)
    (use : Use) (entry : Name × Binding) :
    Making spellings order spaces index before
      ((renamings (filterExportedName spellings use.filter) entry).foldl
        (fun table entry => store nameTest entry.1 entry.2 table) table)
      (addExportedNames spellings index use caches entry.1 entry.2) := by
  constructor
  · intro other earlier space found
    rw [Namespaces.addExportedNames,
      Function.update_of_ne (Nat.ne_of_lt earlier)]
    exact making.below other earlier space found
  · intro other later
    rw [Namespaces.addExportedNames,
      Function.update_of_ne (Nat.ne_of_gt later)]
    exact making.above other later
  · rw [Namespaces.addExportedNames, Function.update_self]
    exact making.filled.doExportedNames _ _

/-- The loop over the entries of a table. -/
theorem Making.entries
    (making : Making spellings order spaces index before table caches)
    (use : Use) (entries : Table) :
    Making spellings order spaces index before
      ((entries.flatMap (renamings (filterExportedName spellings
        use.filter))).foldl
          (fun table entry => store nameTest entry.1 entry.2 table) table)
      (entries.foldl (fun caches entry => Namespaces.addExportedNames
        spellings index use caches entry.1 entry.2) caches) := by
  induction entries generalizing table caches with
  | nil => exact making
  | cons entry entries inductionHypothesis =>
      rw [List.flatMap_cons, List.foldl_append, List.foldl_cons]
      apply inductionHypothesis
      exact making.addExportedNames use entry

/-- The loop over the exported names of a namespace is one over its
definitions. -/
theorem foldlM_definitions {State : Type} {space : Space}
    (step : State → Name → Binding → State) (names : List Name)
    (state : State)
    (defined : ∀ name ∈ names,
      ∃ value, space.nameDefinition name = some value) :
    names.foldlM (fun state name => (space.nameDefinition name).bind
        fun value => pure (step state name value)) state =
      some ((names.filterMap fun name =>
        (space.nameDefinition name).map fun value => (name, value)).foldl
          (fun state entry => step state entry.1 entry.2) state) := by
  induction names generalizing state with
  | nil => rfl
  | cons name names inductionHypothesis =>
      cases defined name List.mem_cons_self with
      | intro value isValue =>
          rw [List.foldlM_cons, isValue, List.filterMap_cons, isValue]
          apply inductionHypothesis
          intro other member
          exact defined other (List.mem_cons_of_mem name member)

end Loops

/-! ## Making a table -/

/-- Below a bound, tables are made as if nothing had been cached, and only the
caches up to the namespace are touched. -/
def MakesTables (spellings : Spellings) (order : Order)
    (spaces : List Space) (bound : Nat)
    (makes : Nat → Caches → Option (Table × Caches)) : Prop :=
  ∀ index < bound, ∀ space caches, spaces[index]? = some space →
    ValidBelow spellings order spaces (index + 1) caches →
      ∃ later, makes index caches = some (exportedImports spellings
          (allOffers spellings order spaces) space, later) ∧
        ValidBelow spellings order spaces (index + 1) later ∧
        ∀ other, index < other → later other = caches other

section Making

variable {index : Nat} {before caches later : Caches} {table : Table}
  {use : Use} {makes : Nat → Caches → Option (Table × Caches)}

theorem ValidBelow.mono {bound larger : Nat}
    (valid : ValidBelow spellings order spaces larger caches)
    (smaller : bound ≤ larger) :
    ValidBelow spellings order spaces bound caches := by
  intro other earlier
  exact valid other (Nat.lt_of_lt_of_le earlier smaller)

/-- What is valid after the caches up to a namespace were touched. -/
theorem ValidBelow.extend {bound : Nat}
    (valid : ValidBelow spellings order spaces bound caches)
    (touched : ValidBelow spellings order spaces (index + 1) later)
    (kept : ∀ other, index < other → later other = caches other) :
    ValidBelow spellings order spaces bound later := by
  intro other earlier space found
  by_cases small : other < index + 1
  · exact touched other small space found
  · rw [kept other (Nat.lt_of_succ_le (Nat.le_of_not_lt small))]
    exact valid other earlier space found

/-- A call for an earlier namespace while the table is made. -/
theorem Making.call {called : Nat}
    (making : Making spellings order spaces index before table caches)
    (earlier : called < index)
    (valid : ValidBelow spellings order spaces (called + 1) later)
    (kept : ∀ other, called < other → later other = caches other) :
    Making spellings order spaces index before table later := by
  constructor
  · exact making.below.extend valid kept
  · intro other above
    rw [kept other (Nat.lt_trans earlier above)]
    exact making.above other above
  · rw [kept index earlier]
    exact making.filled

/-- One of the uses of a namespace whose table is made. -/
theorem Making.addExportedImports
    (wellFormed : WellFormed spellings order spaces)
    (made : MakesTables spellings order spaces index makes)
    (making : Making spellings order spaces index before table caches)
    (earlier : use.namespaceName < index)
    (known : use.namespaceName < spaces.length) :
    ∃ later, Namespaces.addExportedImports spellings order spaces makes index
        caches use = some later ∧
      Making spellings order spaces index before
        ((use.reexported spellings (allOffers spellings order spaces)).foldl
          (fun table entry => store nameTest entry.1 entry.2 table) table)
        later := by
  have found := List.getElem?_eq_getElem known
  generalize spaces[use.namespaceName] = usedSpace at found
  have defined : ∀ name ∈ order.names usedSpace.exportedNames,
      ∃ value, usedSpace.nameDefinition name = some value := by
    intro name member
    apply wellFormed.defined usedSpace (List.mem_of_getElem? found)
    exact (order.names_perm _).mem_iff.mp member
  have definitions := making.entries use
    ((order.names usedSpace.exportedNames).filterMap fun name =>
      (usedSpace.nameDefinition name).map fun value => (name, value))
  obtain ⟨next, isNext, valid, kept⟩ := made use.namespaceName earlier
    usedSpace _ found (definitions.below.mono (Nat.succ_le_of_lt earlier))
  have all := (definitions.call earlier valid kept).entries use
    (order.entries (exportedImports spellings
      (allOffers spellings order spaces) usedSpace))
  rw [← List.foldl_append, ← List.flatMap_append] at all
  apply Exists.intro _
  constructor
  rotate_left
  · rw [Use.reexported, Use.offers_eq wellFormed.backward found]
    exact all
  · rw [Namespaces.addExportedImports, found]
    simp only [Option.bind_eq_bind, Option.bind_some]
    rw [foldlM_definitions _ _ _ defined]
    simp only [Option.bind_some, isNext]
    rfl

/-- The uses of a namespace whose table is made. -/
theorem Making.uses (wellFormed : WellFormed spellings order spaces)
    (made : MakesTables spellings order spaces index makes)
    (making : Making spellings order spaces index before table caches)
    (uses : List Use) (earlier : ∀ use ∈ uses, use.namespaceName < index)
    (known : index < spaces.length) :
    ∃ later, uses.foldlM (Namespaces.addExportedImports spellings order
        spaces makes index) caches = some later ∧
      Making spellings order spaces index before
        ((uses.flatMap (Use.reexported spellings
          (allOffers spellings order spaces))).foldl
            (fun table entry => store nameTest entry.1 entry.2 table) table)
        later := by
  induction uses generalizing table caches with
  | nil => exact ⟨caches, rfl, making⟩
  | cons use uses inductionHypothesis =>
      have first := earlier use List.mem_cons_self
      obtain ⟨middle, isMiddle, after⟩ := making.addExportedImports
        wellFormed made first (Nat.lt_trans first known)
      rw [List.foldlM_cons, isMiddle, List.flatMap_cons, List.foldl_append]
      apply inductionHypothesis after
      intro other member
      exact earlier other (List.mem_cons_of_mem use member)

end Making

/-- The table that is made does not depend on what was cached. -/
theorem makesTables (wellFormed : WellFormed spellings order spaces)
    (depth : Nat) : MakesTables spellings order spaces depth
      (exportedImportsTable spellings order spaces depth) := by
  induction depth with
  | zero =>
      intro index below
      exact absurd below (Nat.not_lt_zero index)
  | succ depth inductionHypothesis =>
      intro index below space caches found valid
      have known := (List.getElem?_eq_some_iff.mp found).1
      have own := valid index (Nat.lt_succ_self index) space found
      rw [exportedImportsTable]
      cases cached : (caches index).cachedExportedImportsTable with
      | some table =>
          rw [own.table table cached]
          exact ⟨caches, rfl, valid, fun _ _ => rfl⟩
      | none =>
          generalize isStart : Function.update caches index
            { caches index with
              cachedExportedImportsTable := some [] } = start
          have making :
              Making spellings order spaces index caches [] start := by
            subst isStart
            constructor
            · intro other earlier
              rw [Function.update_of_ne (Nat.ne_of_lt earlier)]
              exact valid other (Nat.lt_succ_of_lt earlier)
            · intro other later
              exact Function.update_of_ne (Nat.ne_of_gt later) _ _
            · rw [Function.update_self]
              exact ⟨rfl, fun _ _ same => same⟩
          have made : MakesTables spellings order spaces index
              (exportedImportsTable spellings order spaces depth) := by
            intro other earlier
            exact inductionHypothesis other
              (Nat.lt_of_lt_of_le earlier (Nat.le_of_lt_succ below))
          obtain ⟨later, isLater, after⟩ := making.uses wellFormed made
            space.uses (wellFormed.backward index space found) known
          refine ⟨later, ?_, ?_, after.above⟩
          · simp only [Option.bind_eq_bind, found, Option.bind_some,
              isLater, after.filled.table]
            rfl
          · intro other earlier otherSpace isOther
            by_cases same : other = index
            · subst same
              rw [found] at isOther
              cases isOther
              constructor
              · intro table isTable
                rw [after.filled.table] at isTable
                exact (Option.some.inj isTable).symm
              · intro name value isValue
                exact own.names name value
                  (after.filled.names name value isValue)
            · exact after.below other (by omega) otherSpace isOther

end OpenDylan.Compiler.Namespaces
