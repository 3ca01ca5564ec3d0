import Mathlib.Data.List.Infix
import OpenDylan.Runtime.Symbols

/-!
# Use-clause filters

A filter stands for the options of a use clause.  Pulling a name through the
filter gives the names under which a client sees it; pushing a name of the
client gives the name under which it is looked up in the used namespace.  Both
functions are composed of stages for the import, the exclude, and the rename
and prefix options.
-/

namespace OpenDylan.Compiler.NameFilters

open Runtime.Symbols

/-- `subsequence-position`: the first position of a pattern in a string. -/
def subsequencePosition (string pattern : List Char) : Option Nat :=
  (List.range (string.length + 1)).find? fun position =>
    decide (pattern <+: string.drop position)

/-! ## Options -/

/-- An entry of the rename list: the old name and the new one. -/
abbrev Rename := Name × Name

/-- An entry of the import list. -/
inductive ImportEntry where
  | name (name : Name)
  | renamed (rename : Rename)
deriving DecidableEq

/-- The init keywords of a filter; `none` stands for `#"all"`. -/
structure Options where
  importSpec : Option (List ImportEntry) := none
  excludeSpec : List Name := []
  prefixSpec : List Char := []
  renameSpec : List Rename := []
  exportSpec : Option (List Name) := some []

/-- `<filter>`, once it is valid. -/
structure Filter where
  importSpec : Option (List Name)
  excludeSpec : List Name
  prefixSpec : List Char
  renameSpec : List Rename
  exportSpec : Option (List Name)

/-- The warnings for the options of a filter. -/
inductive Note where
  | importAndExcludeSpecified
  | renameExcludeConflict (names : List Name)
deriving DecidableEq

/-- The entries of an import list that are pairs. -/
def ImportEntry.rename? : ImportEntry → Option Rename
  | .name _ => none
  | .renamed entry => some entry

/-- The entries of an import list that are not. -/
def ImportEntry.name? : ImportEntry → Option Name
  | .name entry => some entry
  | .renamed _ => none

/-- `remove-duplicates`, which keeps the last of equal names. -/
def removeDuplicates : List Name → List Name
  | [] => []
  | name :: remaining =>
      if name ∈ remaining then removeDuplicates remaining
      else name :: removeDuplicates remaining

/-- `intersection` -/
def intersection (names others : List Name) : List Name :=
  names.foldl (fun result item =>
    if item ∈ others then item :: result else result) []

/-- `ensure-valid-filter` -/
def ensureValidFilter (options : Options) : Filter × List Note :=
  let bothSpecified := options.excludeSpec ≠ [] ∧ options.importSpec ≠ none
  let excludeSpec := if bothSpecified then [] else options.excludeSpec
  let conflicts := intersection (options.renameSpec.map Prod.fst) excludeSpec
  let renames := (options.importSpec.getD []).filterMap ImportEntry.rename?
  let renameSpec := options.renameSpec ++ renames
  let importSpec := options.importSpec.map fun entries =>
    removeDuplicates
      (entries.filterMap ImportEntry.name? ++ renameSpec.map Prod.fst)
  (⟨importSpec, excludeSpec, options.prefixSpec, renameSpec,
      options.exportSpec⟩,
    (if bothSpecified then [.importAndExcludeSpecified] else []) ++
      if conflicts ≠ [] then [.renameExcludeConflict conflicts] else [])

/-! ## Stages -/

/-- A stage of a filter. -/
abbrev Stage := List Name → List Name

/-- `renaming-expander` -/
def renamingExpander (spellings : Spellings) (renames : List Rename)
    (before : List Char) : Stage := fun keys =>
  keys.foldl (fun aliases key =>
    let localAliases := renames.foldl (fun localAliases rename =>
      if key = rename.1 then rename.2 :: localAliases else localAliases) []
    let localAliases :=
      if localAliases = [] then
        [asSymbol (before ++ spellings.asString key)]
      else
        localAliases
    localAliases ++ aliases) []

/-- `unrenaming-expander` -/
def unrenamingExpander (spellings : Spellings) (renames : List Rename)
    (before : List Char) (excluded : List Name) : Stage := fun keys =>
  keys.foldl (fun unaliases key =>
    let localUnaliases := renames.foldl (fun localUnaliases rename =>
      if key = rename.2 then rename.1 :: localUnaliases
      else localUnaliases) []
    let localUnaliases :=
      if localUnaliases = [] then
        let string := spellings.asString key
        if subsequencePosition string before = some 0 then
          let symbol := asSymbol (string.drop before.length)
          if symbol ∈ excluded ∨ ∃ rename ∈ renames, symbol = rename.1 then
            []
          else
            [symbol]
        else
          []
      else
        localUnaliases
    localUnaliases ++ unaliases) []

/-- `choose(rcurry(member?, imported), keys)`, unless all are imported. -/
def importStage (imported : Option (List Name)) : Stage := fun keys =>
  match imported with
  | none => keys
  | some imported => keys.filter fun key => decide (key ∈ imported)

/-- `choose(complement(rcurry(member?, excluded)), keys)` -/
def excludeStage (excluded : List Name) : Stage := fun keys =>
  keys.filter fun key => decide (key ∉ excluded)

/-- `as(<string>, as(<symbol>, f.prefix-spec))` -/
def Filter.before (spellings : Spellings) (filter : Filter) : List Char :=
  spellings.asString (asSymbol filter.prefixSpec)

/-- The function in the slot `key->filtered-key`, on a list of names. -/
def Filter.keyToFilteredKey (spellings : Spellings) (filter : Filter) :
    Stage := fun keys =>
  let keys := excludeStage filter.excludeSpec
    (importStage filter.importSpec keys)
  if filter.renameSpec = [] ∧ filter.before spellings = [] then
    keys
  else
    renamingExpander spellings filter.renameSpec (filter.before spellings) keys

/-- The function in the slot `filtered-key->key`, on a list of names. -/
def Filter.filteredKeyToKey (spellings : Spellings) (filter : Filter) :
    Stage := fun keys =>
  let keys :=
    if filter.renameSpec = [] ∧ filter.before spellings = [] then
      keys
    else
      unrenamingExpander spellings filter.renameSpec
        (filter.before spellings) filter.excludeSpec keys
  excludeStage filter.excludeSpec (importStage filter.importSpec keys)

/-- The function in the slot `key->exported-filtered-key`, on a list of
names. -/
def Filter.keyToExportedFilteredKey (spellings : Spellings)
    (filter : Filter) : Stage := fun keys =>
  importStage filter.exportSpec (filter.keyToFilteredKey spellings keys)

/-! ## Filter functions -/

/-- `filter-name` -/
def filterName (spellings : Spellings) (filter : Filter) (name : Name) :
    List Name :=
  filter.keyToFilteredKey spellings [name]

/-- `unfilter-name` -/
def unfilterName (spellings : Spellings) (filter : Filter) (name : Name) :
    Option Name :=
  (filter.filteredKeyToKey spellings [name]).head?

/-- `filter-exported-name` -/
def filterExportedName (spellings : Spellings) (filter : Filter)
    (name : Name) : List Name :=
  filter.keyToExportedFilteredKey spellings [name]

/-- `make(<filter>, …)` -/
def makeFilter (options : Options) : Filter :=
  (ensureValidFilter options).1

end OpenDylan.Compiler.NameFilters

/-!
# Pushing and pulling names

A name that is pushed through a filter can be pulled back.  The converse fails
for two kinds of names: a name with the prefix of the filter whose spelling
differs from that of the prefix in the case of a letter, and the visible name
of a used name onto which only excluded names are renamed.
-/

namespace OpenDylan.Compiler.NameFilters

open Runtime.Symbols

variable {spellings : Spellings} {filter : Filter}

/-! ## Stages -/

theorem mem_foldl_append {α β : Type} (local' : α → List β) (keys : List α)
    (start : List β) (value : β) :
    value ∈ keys.foldl (fun values key => local' key ++ values) start ↔
      value ∈ start ∨ ∃ key ∈ keys, value ∈ local' key := by
  induction keys generalizing start with
  | nil => simp
  | cons key keys inductionHypothesis =>
      rw [List.foldl_cons, inductionHypothesis, List.mem_append]
      simp only [List.mem_cons, exists_eq_or_imp]
      constructor
      · rintro ((here | before) | later)
        · exact Or.inr (Or.inl here)
        · exact Or.inl before
        · exact Or.inr (Or.inr later)
      · rintro (before | here | later)
        · exact Or.inl (Or.inr before)
        · exact Or.inl (Or.inl here)
        · exact Or.inr later

theorem mem_foldl_matching {α : Type} (matching : α → Prop)
    [DecidablePred matching] (result : α → Name) (entries : List α)
    (start : List Name) (value : Name) :
    value ∈ entries.foldl (fun values entry =>
        if matching entry then result entry :: values else values) start ↔
      value ∈ start ∨
        ∃ entry ∈ entries, matching entry ∧ result entry = value := by
  induction entries generalizing start with
  | nil => simp
  | cons entry entries inductionHypothesis =>
      rw [List.foldl_cons, inductionHypothesis]
      simp only [List.mem_cons, exists_eq_or_imp]
      by_cases here : matching entry
      · simp only [here, if_true, List.mem_cons, true_and]
        constructor
        · rintro ((same | before) | later)
          · exact Or.inr (Or.inl same.symm)
          · exact Or.inl before
          · exact Or.inr (Or.inr later)
        · rintro (before | same | later)
          · exact Or.inl (Or.inr before)
          · exact Or.inl (Or.inl same.symm)
          · exact Or.inr later
      · simp only [here, if_false, false_and, false_or]

theorem subsequencePosition_eq_zero_iff (string pattern : List Char) :
    subsequencePosition string pattern = some 0 ↔ pattern <+: string := by
  unfold subsequencePosition
  rw [List.range_succ_eq_map, List.find?_cons]
  by_cases first : pattern <+: string
  · simp [first]
  · simp only [List.drop_zero, first, decide_false, iff_false]
    intro found
    have member := List.mem_of_find?_eq_some found
    simp at member

/-- A used name is imported and not excluded. -/
def Filter.Visible (filter : Filter) (name : Name) : Prop :=
  (∀ names, filter.importSpec = some names → name ∈ names) ∧
    name ∉ filter.excludeSpec

/-- The name that has the prefix. -/
def Filter.prefixed (spellings : Spellings) (filter : Filter) (name : Name) :
    Name :=
  asSymbol (filter.before spellings ++ spellings.asString name)

theorem mem_importStage {names : Option (List Name)} {keys : List Name}
    {name : Name} : name ∈ importStage names keys ↔
      name ∈ keys ∧ ∀ imported, names = some imported → name ∈ imported := by
  unfold importStage
  cases names with
  | none => simp
  | some imported => simp

theorem mem_visible {keys : List Name} {name : Name} :
    name ∈ excludeStage filter.excludeSpec
        (importStage filter.importSpec keys) ↔
      name ∈ keys ∧ filter.Visible name := by
  unfold excludeStage Filter.Visible
  rw [List.mem_filter, mem_importStage, decide_eq_true_iff, and_assoc]

theorem mem_renamingExpander {renames : List Rename} {before : List Char}
    {keys : List Name} {name : Name} :
    name ∈ renamingExpander spellings renames before keys ↔
      ∃ key ∈ keys, (key, name) ∈ renames ∨
        (∀ rename ∈ renames, rename.1 ≠ key) ∧
          name = asSymbol (before ++ spellings.asString key) := by
  unfold renamingExpander
  rw [mem_foldl_append]
  simp only [List.not_mem_nil, false_or]
  apply exists_congr
  intro key
  apply and_congr_right
  intro _
  have aliases := mem_foldl_matching (fun rename : Rename => key = rename.1)
    Prod.snd renames []
  simp only [List.not_mem_nil, false_or] at aliases
  split
  case isTrue none =>
      have unrenamed : ∀ rename ∈ renames, rename.1 ≠ key := by
        intro rename member same
        have found := (aliases rename.2).mpr ⟨rename, member, same.symm, rfl⟩
        rw [none] at found
        exact List.not_mem_nil found
      have absent : (key, name) ∉ renames := fun member =>
        unrenamed _ member rfl
      rw [List.mem_singleton]
      simp only [absent, false_or, and_iff_right unrenamed]
  case isFalse some =>
      rw [aliases]
      constructor
      · rintro ⟨rename, member, same, rfl⟩
        rw [same]
        exact Or.inl member
      · rintro (member | ⟨unrenamed, _⟩)
        · exact ⟨_, member, rfl, rfl⟩
        · obtain ⟨alias', member⟩ := List.exists_mem_of_ne_nil _ some
          obtain ⟨rename, known, same, _⟩ := (aliases alias').mp member
          exact absurd same.symm (unrenamed rename known)

theorem mem_unrenamingExpander {renames : List Rename} {before : List Char}
    {excluded keys : List Name} {name : Name} :
    name ∈ unrenamingExpander spellings renames before excluded keys ↔
      ∃ key ∈ keys, (name, key) ∈ renames ∨
        (∀ rename ∈ renames, rename.2 ≠ key) ∧
          before <+: spellings.asString key ∧
          name = asSymbol ((spellings.asString key).drop before.length) ∧
          name ∉ excluded ∧ ∀ rename ∈ renames, rename.1 ≠ name := by
  unfold unrenamingExpander
  rw [mem_foldl_append]
  simp only [List.not_mem_nil, false_or]
  apply exists_congr
  intro key
  apply and_congr_right
  intro _
  have unaliases := mem_foldl_matching (fun rename : Rename => key = rename.2)
    Prod.fst renames []
  simp only [List.not_mem_nil, false_or] at unaliases
  by_cases none : renames.foldl (fun localUnaliases rename =>
      if key = rename.2 then rename.1 :: localUnaliases
      else localUnaliases) [] = []
  · have unrenamed : ∀ rename ∈ renames, rename.2 ≠ key := by
      intro rename member same
      have found := (unaliases rename.1).mpr ⟨rename, member, same.symm, rfl⟩
      rw [none] at found
      exact List.not_mem_nil found
    have absent : (name, key) ∉ renames := fun member =>
      unrenamed _ member rfl
    simp only [none, if_true, absent, false_or, and_iff_right unrenamed,
      subsequencePosition_eq_zero_iff]
    by_cases begins : before <+: spellings.asString key
    · simp only [begins, if_true, true_and]
      split
      case isTrue hidden =>
          simp only [List.not_mem_nil, false_iff, not_and]
          rintro rfl kept free
          cases hidden with
          | inl member => exact kept member
          | inr renamed =>
              obtain ⟨rename, member, same⟩ := renamed
              exact free rename member same.symm
      case isFalse shown =>
          rw [not_or] at shown
          rw [List.mem_singleton]
          constructor
          · rintro rfl
            exact ⟨rfl, shown.1, fun rename member same =>
              shown.2 ⟨rename, member, same.symm⟩⟩
          · exact fun all => all.1
    · simp [begins]
  · simp only [none, if_false]
    rw [unaliases]
    constructor
    · rintro ⟨rename, member, same, rfl⟩
      rw [same]
      exact Or.inl member
    · rintro (member | ⟨unrenamed, _⟩)
      · exact ⟨_, member, rfl, rfl⟩
      · obtain ⟨unalias, member⟩ := List.exists_mem_of_ne_nil _ none
        obtain ⟨rename, known, same, _⟩ := (unaliases unalias).mp member
        exact absurd same.symm (unrenamed rename known)

/-! ## Both directions -/

/-- The client may see a used name under a name, if the used name is
visible. -/
def Filter.Names (spellings : Spellings) (filter : Filter)
    (name client : Name) : Prop :=
  (name, client) ∈ filter.renameSpec ∨
    (∀ rename ∈ filter.renameSpec, rename.1 ≠ name) ∧
      client = filter.prefixed spellings name

/-- A name of the client leads to a used name, if that is visible. -/
def Filter.LeadsTo (spellings : Spellings) (filter : Filter)
    (client name : Name) : Prop :=
  (name, client) ∈ filter.renameSpec ∨
    (∀ rename ∈ filter.renameSpec, rename.2 ≠ client) ∧
      filter.before spellings <+: spellings.asString client ∧
      (∀ rename ∈ filter.renameSpec, rename.1 ≠ name) ∧
      client = filter.prefixed spellings name

/-- What is left of a name without the prefix is the name that has it. -/
theorem drop_eq_iff {client name : Name}
    (begins : filter.before spellings <+: spellings.asString client) :
    name = asSymbol ((spellings.asString client).drop
        (filter.before spellings).length) ↔
      client = filter.prefixed spellings name := by
  obtain ⟨rest, spelling⟩ := begins
  have whole : client.lowercase =
      (asSymbol (filter.before spellings)).lowercase ++
        (asSymbol rest).lowercase := by
    rw [← asSymbol_append, spelling, lowercase_asString]
  rw [← spelling, List.drop_left]
  constructor
  · intro left
    apply Name.ext_lowercase
    rw [whole, Filter.prefixed, asSymbol_append, lowercase_asString, ← left]
  · intro has
    apply Name.ext_lowercase
    apply List.append_cancel_left
    rw [← whole, has, Filter.prefixed, asSymbol_append, lowercase_asString]

theorem prefixed_of_no_prefix (none : filter.before spellings = [])
    (name : Name) : filter.prefixed spellings name = name := by
  rw [Filter.prefixed, none, List.nil_append, spellings.spelled]

theorem mem_filterName {name client : Name} :
    client ∈ filterName spellings filter name ↔
      filter.Visible name ∧ filter.Names spellings name client := by
  unfold filterName Filter.keyToFilteredKey Filter.Names
  by_cases plain : filter.renameSpec = [] ∧ filter.before spellings = []
  · simp only [plain, and_self, if_true, List.not_mem_nil, false_or,
      IsEmpty.forall_iff, implies_true, true_and,
      prefixed_of_no_prefix plain.2]
    rw [mem_visible, List.mem_singleton]
    constructor
    · rintro ⟨rfl, visible⟩
      exact ⟨visible, rfl⟩
    · rintro ⟨visible, rfl⟩
      exact ⟨rfl, visible⟩
  · simp only [if_neg plain]
    rw [mem_renamingExpander]
    simp only [mem_visible, List.mem_singleton, and_assoc, exists_eq_left]
    rfl

theorem mem_filteredKeyToKey {name client : Name} :
    name ∈ filter.filteredKeyToKey spellings [client] ↔
      filter.Visible name ∧ filter.LeadsTo spellings client name := by
  unfold Filter.filteredKeyToKey Filter.LeadsTo
  rw [mem_visible, and_comm]
  apply and_congr_right
  intro visible
  by_cases plain : filter.renameSpec = [] ∧ filter.before spellings = []
  · simp only [plain, and_self, if_true, List.not_mem_nil, false_or,
      IsEmpty.forall_iff, implies_true, true_and, List.nil_prefix,
      prefixed_of_no_prefix plain.2, List.mem_singleton]
    exact eq_comm
  · simp only [if_neg plain]
    rw [mem_unrenamingExpander]
    simp only [List.mem_singleton, exists_eq_left]
    apply or_congr_right
    apply and_congr_right
    intro _
    apply and_congr_right
    intro begins
    rw [drop_eq_iff begins]
    constructor
    · rintro ⟨same, _, free⟩
      exact ⟨free, same⟩
    · rintro ⟨free, same⟩
      exact ⟨same, visible.2, free⟩

theorem Filter.LeadsTo.names {client name : Name}
    (leads : filter.LeadsTo spellings client name) :
    filter.Names spellings name client := by
  cases leads with
  | inl renamed => exact Or.inl renamed
  | inr stripped => exact Or.inr stripped.2.2

/-- A name that has been looked up is one under which the client sees the
result. -/
theorem mem_filterName_of_unfilterName {name client : Name}
    (pushed : unfilterName spellings filter client = some name) :
    client ∈ filterName spellings filter name := by
  have member := mem_filteredKeyToKey.mp (List.mem_of_head? pushed)
  exact mem_filterName.mpr ⟨member.1, member.2.names⟩

theorem filterExportedName_eq (name : Name) :
    filterExportedName spellings filter name =
      importStage filter.exportSpec (filterName spellings filter name) := rfl

/-! ## Names that can be pushed -/

/-- Pushing and pulling agree on a name of the client. -/
def PushesAndPulls (spellings : Spellings) (filter : Filter)
    (client : Name) : Prop :=
  (∀ name, unfilterName spellings filter client = some name →
    client ∈ filterName spellings filter name) ∧
  (∀ name, client ∈ filterName spellings filter name →
    ∃ found, unfilterName spellings filter client = some found ∧
      client ∈ filterName spellings filter found ∧
      ((∀ other, client ∈ filterName spellings filter other →
        other = name) → found = name)) ∧
  ∀ name, client ∈ filterExportedName spellings filter name ↔
    client ∈ filterName spellings filter name ∧
      ∀ exported, filter.exportSpec = some exported → client ∈ exported

/-- A visible name is renamed to the name of the client; or the name is no new
name and begins with the prefix, letter for letter; or it is not the prefixed
form of a visible name that is not renamed. -/
def Filter.Pushable (spellings : Spellings) (filter : Filter)
    (client : Name) : Prop :=
  (∃ name, filter.Visible name ∧ (name, client) ∈ filter.renameSpec) ∨
  ((∀ rename ∈ filter.renameSpec, rename.2 ≠ client) ∧
    filter.before spellings <+: spellings.asString client) ∨
  ¬∃ name, filter.Visible name ∧
    (∀ rename ∈ filter.renameSpec, rename.1 ≠ name) ∧
    client = filter.prefixed spellings name

/-- A name that leads to some visible name can be pushed. -/
theorem unfilterName_of_leadsTo {name client : Name}
    (visible : filter.Visible name)
    (leads : filter.LeadsTo spellings client name) :
    ∃ found, unfilterName spellings filter client = some found := by
  have member := mem_filteredKeyToKey.mpr ⟨visible, leads⟩
  have nonempty := List.ne_nil_of_mem member
  exact ⟨_, List.head?_eq_some_head nonempty⟩

theorem Filter.Pushable.unfilterName {name client : Name}
    (pushable : filter.Pushable spellings client)
    (pulled : client ∈ filterName spellings filter name) :
    ∃ found, unfilterName spellings filter client = some found := by
  obtain ⟨visible, named⟩ := mem_filterName.mp pulled
  cases named with
  | inl renamed => exact unfilterName_of_leadsTo visible (Or.inl renamed)
  | inr prefixed =>
      rcases pushable with ⟨old, oldVisible, renamed⟩ | ⟨free, begins⟩ | none
      · exact unfilterName_of_leadsTo oldVisible (Or.inl renamed)
      · exact unfilterName_of_leadsTo visible
          (Or.inr ⟨free, begins, prefixed⟩)
      · exact absurd ⟨name, visible, prefixed⟩ none

/-- Pushing and pulling agree on exactly the names that can be pushed. -/
theorem pushesAndPulls_iff (spellings : Spellings) (options : Options)
    (client : Name) :
    PushesAndPulls spellings (makeFilter options) client ↔
      (makeFilter options).Pushable spellings client := by
  constructor
  · intro agrees
    by_cases some : ∃ name, (makeFilter options).Visible name ∧
        (∀ rename ∈ (makeFilter options).renameSpec, rename.1 ≠ name) ∧
        client = (makeFilter options).prefixed spellings name
    · obtain ⟨name, visible, prefixed⟩ := some
      obtain ⟨found, pushed, _⟩ := agrees.2.1 name
        (mem_filterName.mpr ⟨visible, Or.inr prefixed⟩)
      have leads := mem_filteredKeyToKey.mp (List.mem_of_head? pushed)
      cases leads.2 with
      | inl renamed => exact Or.inl ⟨found, leads.1, renamed⟩
      | inr stripped => exact Or.inr (Or.inl ⟨stripped.1, stripped.2.1⟩)
    · exact Or.inr (Or.inr some)
  · intro pushable
    refine ⟨fun name => mem_filterName_of_unfilterName, ?_, ?_⟩
    · intro name pulled
      obtain ⟨found, pushed⟩ := pushable.unfilterName pulled
      have back := mem_filterName_of_unfilterName pushed
      exact ⟨found, pushed, back, fun only => only found back⟩
    · intro name
      rw [filterExportedName_eq]
      exact mem_importStage

/-- Spellings in lower case, but for a symbol that was interned with capital
letters first. -/
def capitalSpellings : Spellings where
  asString name :=
    if name = asSymbol "foo-bar".toList then "Foo-Bar".toList
    else name.lowercase
  spelled name := by
    split
    case isTrue same =>
        rw [same]
        decide
    case isFalse =>
        apply Name.ext_lowercase
        exact name.isLowercase

/-- `use foo, prefix: "foo-"` -/
def prefixOptions : Options := { prefixSpec := "foo-".toList }

/-- `use foo, exclude: { old }, rename: { old => new }`, where the used
namespace also has a name `new`. -/
def excludedOptions : Options where
  excludeSpec := [asSymbol "old".toList]
  renameSpec := [(asSymbol "old".toList, asSymbol "new".toList)]

/-- The name with the prefix is visible, and so is the used name onto which an
excluded one is renamed, but neither can be looked up. -/
theorem visible_but_not_found :
    ¬PushesAndPulls capitalSpellings (makeFilter prefixOptions)
        (asSymbol "foo-bar".toList) ∧
      ¬PushesAndPulls capitalSpellings (makeFilter excludedOptions)
        (asSymbol "new".toList) := by
  constructor
  · intro agrees
    obtain ⟨found, pushed, _⟩ :=
      agrees.2.1 (asSymbol "bar".toList) (by decide)
    have none : unfilterName capitalSpellings (makeFilter prefixOptions)
        (asSymbol "foo-bar".toList) = none := by decide
    rw [none] at pushed
    contradiction
  · intro agrees
    obtain ⟨found, pushed, _⟩ :=
      agrees.2.1 (asSymbol "new".toList) (by decide)
    have none : unfilterName capitalSpellings (makeFilter excludedOptions)
        (asSymbol "new".toList) = none := by decide
    rw [none] at pushed
    contradiction

end OpenDylan.Compiler.NameFilters
