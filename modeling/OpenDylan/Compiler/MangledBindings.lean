import OpenDylan.Compiler.Mangling

/-!
# Mangled bindings

The symbol of a binding is made of the names of its variable, its module and
its library.  The module is left out when it is named like the library, and
the modules of the Dylan library are abbreviated.
-/

namespace OpenDylan.Compiler.Mangling

/-! ## Names -/

/-- A name of the Dylan language, a `<symbol>` in some spelling; no name has a
hash sign. -/
structure DylanName where
  spelling : ByteString
  nonempty : spelling ≠ []
  noHash : byte '#' ∉ spelling

/-- `as-lowercase(as(<byte-string>, name))`; two symbols are the same when
these texts are. -/
def DylanName.text (name : DylanName) : ByteString :=
  name.spelling.map asLowercase

theorem DylanName.text_nonempty (name : DylanName) : name.text ≠ [] := by
  simp [DylanName.text, name.nonempty]

theorem DylanName.hash_notMem_text (name : DylanName) :
    byte '#' ∉ name.text := by
  have kept : ∀ character : ByteCharacter,
      asLowercase character = byte '#' → character = byte '#' := by
    decide +kernel
  intro member
  obtain ⟨character, inside, lowered⟩ := List.mem_map.mp member
  rw [kept character lowered] at inside
  exact name.noHash inside

/-! ## Mangling and demangling bindings -/

/-- The local method `non-dylan-mangle` -/
def nonDylanMangle (mangler : Mangler) (moduleName libraryName : DylanName) :
    Mangler :=
  let mangler :=
    if moduleName.text = libraryName.text then
      mangler
    else
      mangleNameInto (mangleRawInto mangler [moduleMarker]) moduleName.text
  mangleNameInto (mangleRawInto mangler [libraryMarker]) libraryName.text

/-- `mangle-namespace-spread-into` -/
def mangleNamespaceSpreadInto (mangler : Mangler)
    (moduleName libraryName : DylanName) : Mangler :=
  if libraryName.text = bytes "dylan" then
    match mangleDylanModule.find? fun entry => entry.1 = moduleName.text with
    | some entry =>
        mangleRawInto
          (mangleRawInto (mangleRawInto mangler [libraryMarker])
            [dylanModuleMarker])
          [entry.2]
    | none => nonDylanMangle mangler moduleName libraryName
  else
    nonDylanMangle mangler moduleName libraryName

/-- `mangle-binding-spread` -/
def mangleBindingSpread (mangler : Mangler)
    (variableName moduleName libraryName : DylanName) : ByteString :=
  (mangleNamespaceSpreadInto
    (mangleNameInto (manglerReset mangler) variableName.text)
    moduleName libraryName).buffer

/-- `find-key` of a character. -/
def findKey (name : ByteString) (character : ByteCharacter) : Option Nat :=
  name.findIdx? fun other => other = character

/-- `copy-sequence` -/
def copySequence (name : ByteString) (start stop : Nat) : ByteString :=
  (name.drop start).take (stop - start)

/-- `$demangle-dylan-module` -/
def demangleDylanModule (abbreviation : ByteCharacter) : Option ByteString :=
  (mangleDylanModule.find? fun entry => entry.2 = abbreviation).map Prod.fst

/-- The names that `demangle-binding-spread` returns. -/
structure Spread where
  variableName : ByteString
  moduleName : Option ByteString
  libraryName : Option ByteString
deriving DecidableEq

/-- `demangle-binding-spread` -/
def demangleBindingSpread (mangler : Mangler) (name : ByteString) :
    Option Spread :=
  let bindingEnd := (findKey name methodMangledMarker).getD name.length
  let whole := (demangleNameRaw mangler name).map fun vname =>
    { variableName := vname
      moduleName := none
      libraryName := none }
  match findKey name libraryMarker with
  | none => whole
  | some lsep =>
      if bindingEnd > lsep + 1 then
        match (findKey name moduleMarker).filter fun msep => lsep > msep with
        | some msep => do
            let vname ← demangleNameRaw mangler (copySequence name 0 msep)
            let mname ← demangleNameRaw mangler
              (copySequence name (msep + 1) lsep)
            let lname ← demangleNameRaw mangler
              (copySequence name (lsep + 1) bindingEnd)
            return {
              variableName := vname
              moduleName := some mname
              libraryName := some lname }
        | none => do
            let isDylan := (← name[lsep + 1]?) = dylanModuleMarker
            let lname ← demangleNameRaw mangler <|
              if isDylan then
                bytes "dylan"
              else
                copySequence name (lsep + 1) bindingEnd
            let mname ←
              if isDylan then
                (name[lsep + 2]?).bind demangleDylanModule
              else
                some lname
            let vname ← demangleNameRaw mangler (copySequence name 0 lsep)
            return {
              variableName := vname
              moduleName := some mname
              libraryName := some lname }
      else
        whole

/-! ## Markers -/

/-- The mangled form of a name. -/
abbrev mangled (name : ByteString) : ByteString :=
  name.flatMap manglerTable

/-- The demangler expects every mangled character; only a hash sign becomes the
marker of a method. -/
theorem manglerTable_expected {character other : ByteCharacter}
    (member : other ∈ manglerTable character) :
    demanglerTable other ≠ .unexpected ∧
      (character ≠ byte '#' → other ≠ methodMangledMarker) := by
  have replaced : ∀ character : ByteCharacter,
      (replacement character).all (fun other =>
        demanglerTable other ≠ .unexpected ∧
          (character ≠ byte '#' → other ≠ methodMangledMarker)) = true := by
    decide +kernel
  have digits : ∀ other : ByteCharacter,
      allowable other = true ∨ other = escapeMarker →
        demanglerTable other ≠ .unexpected ∧
          other ≠ methodMangledMarker := by
    decide +kernel
  rw [manglerTable] at member
  cases single : replacement character with
  | some replacement =>
      rw [single, List.mem_singleton] at member
      rw [member]
      have all := replaced character
      rw [single, Option.all_some] at all
      exact of_decide_eq_true all
  | none =>
      rw [single] at member
      simp only [List.mem_cons, List.mem_append, List.not_mem_nil,
        or_false] at member
      have code : allowable other = true ∨ other = escapeMarker := by
        rcases member with marker | digit | marker
        · exact Or.inr marker
        · exact Or.inl (mangleInteger_allowable _ other digit)
        · exact Or.inr marker
      exact ⟨(digits other code).1, fun _ => (digits other code).2⟩

section Markers

variable {name : ByteString}

theorem expected_of_mem_mangled {character : ByteCharacter}
    (member : character ∈ mangled name) :
    demanglerTable character ≠ .unexpected := by
  obtain ⟨source, -, inside⟩ := List.mem_flatMap.mp member
  exact (manglerTable_expected inside).1

theorem moduleMarker_notMem_mangled : moduleMarker ∉ mangled name :=
  fun member => expected_of_mem_mangled member (by decide)

theorem libraryMarker_notMem_mangled : libraryMarker ∉ mangled name :=
  fun member => expected_of_mem_mangled member (by decide)

theorem dylanModuleMarker_notMem_mangled : dylanModuleMarker ∉ mangled name :=
  fun member => expected_of_mem_mangled member (by decide)

theorem methodMangledMarker_notMem_mangled (noHash : byte '#' ∉ name) :
    methodMangledMarker ∉ mangled name := by
  intro member
  obtain ⟨character, there, inside⟩ := List.mem_flatMap.mp member
  refine (manglerTable_expected inside).2 ?_ rfl
  rintro rfl
  exact noHash there

theorem mangled_nonempty (nonempty : name ≠ []) : mangled name ≠ [] := by
  have single : ∀ character, manglerTable character ≠ [] := by
    intro character
    rw [manglerTable]
    split
    · simp
    · simp
  cases name with
  | nil => exact absurd rfl nonempty
  | cons character rest =>
      rw [mangled, List.flatMap_cons]
      exact fun empty => single character (List.append_eq_nil_iff.mp empty).1

end Markers

/-! ## Separators -/

theorem findKey_append_cons {before after : ByteString}
    {character : ByteCharacter} (fresh : character ∉ before) :
    findKey (before ++ character :: after) character =
      some before.length := by
  rw [findKey, List.findIdx?_append, List.findIdx?_cons]
  have none_ : before.findIdx? (fun other => other = character) = none := by
    rw [List.findIdx?_eq_none_iff]
    intro other member
    simpa using fun same : other = character => fresh (same ▸ member)
  simp [none_]

theorem findKey_none {name : ByteString} {character : ByteCharacter}
    (fresh : character ∉ name) : findKey name character = none := by
  rw [findKey, List.findIdx?_eq_none_iff]
  intro other member
  simpa using fun same : other = character => fresh (same ▸ member)

theorem copySequence_front (before after : ByteString) :
    copySequence (before ++ after) 0 before.length = before := by
  simp [copySequence]

/-- What stands between two parts of a name. -/
theorem copySequence_between (before : ByteString) (character : ByteCharacter)
    (between after : ByteString) :
    copySequence (before ++ character :: (between ++ after))
      (before.length + 1) (before ++ character :: between).length =
        between := by
  have split : before ++ character :: (between ++ after) =
      (before ++ [character]) ++ (between ++ after) := by simp
  have start : before.length + 1 = (before ++ [character]).length := by simp
  have stop : (before ++ character :: between).length -
      (before ++ [character]).length = between.length := by
    simp only [List.length_append, List.length_cons, List.length_nil]
    omega
  rw [copySequence, split, start, List.drop_left, stop, List.take_left]

theorem copySequence_back (before : ByteString) (character : ByteCharacter)
    (after : ByteString) :
    copySequence (before ++ character :: after) (before.length + 1)
      (before ++ character :: after).length = after := by
  have between := copySequence_between before character after []
  rwa [List.append_nil] at between

/-- What follows a binding in a symbol: the method marker or nothing. -/
def EndsBinding (rest : ByteString) : Prop :=
  rest = [] ∨ ∃ after, rest = methodMangledMarker :: after

theorem bindingEnd_eq {binding rest : ByteString}
    (noMethod : methodMangledMarker ∉ binding) (ends : EndsBinding rest) :
    (findKey (binding ++ rest) methodMangledMarker).getD
      (binding ++ rest).length = binding.length := by
  rcases ends with nothing | ⟨after, marked⟩
  · rw [nothing, List.append_nil, findKey_none noMethod]
    rfl
  · rw [marked, findKey_append_cons noMethod]
    rfl

/-- What stands before the first separator of a symbol: the text of a variable,
without any of the markers. -/
structure Front (mangler : Mangler) (front vname : ByteString) : Prop where
  read : demangleNameRaw mangler front = some vname
  noModule : moduleMarker ∉ front
  noLibrary : libraryMarker ∉ front
  noMethod : methodMangledMarker ∉ front

theorem front_mangled (mangler : Mangler) {vname : ByteString}
    (vhash : byte '#' ∉ vname) : Front mangler (mangled vname) vname where
  read := demangleNameRaw_mangled mangler vname
  noModule := moduleMarker_notMem_mangled
  noLibrary := libraryMarker_notMem_mangled
  noMethod := methodMangledMarker_notMem_mangled vhash

/-! ## Round trip of bindings -/

section Reading

variable {mangler : Mangler} {front vname rest : ByteString}

/-- Three names with a marker before the second and the third. -/
theorem demangleBindingSpread_modules (isFront : Front mangler front vname)
    (ends : EndsBinding rest) {mname lname : ByteString}
    (lnonempty : lname ≠ []) (mhash : byte '#' ∉ mname)
    (lhash : byte '#' ∉ lname) :
    demangleBindingSpread mangler
        (front ++ moduleMarker ::
          (mangled mname ++ libraryMarker :: (mangled lname ++ rest))) =
      some { variableName := vname
             moduleName := some mname
             libraryName := some lname } := by
  -- The same text with the library marker in front of the last name.
  have regroup : front ++ moduleMarker ::
      (mangled mname ++ libraryMarker :: (mangled lname ++ rest)) =
        (front ++ moduleMarker :: mangled mname) ++
          libraryMarker :: (mangled lname ++ rest) := by simp
  have grouped : front ++ moduleMarker ::
      (mangled mname ++ libraryMarker :: (mangled lname ++ rest)) =
        (front ++ moduleMarker ::
          (mangled mname ++ libraryMarker :: mangled lname)) ++ rest := by
    simp
  have library : findKey (front ++ moduleMarker ::
      (mangled mname ++ libraryMarker :: (mangled lname ++ rest)))
        libraryMarker =
        some (front ++ moduleMarker :: mangled mname).length := by
    rw [regroup]
    apply findKey_append_cons
    simp only [List.mem_append, List.mem_cons, not_or]
    exact ⟨isFront.noLibrary, by decide, libraryMarker_notMem_mangled⟩
  have bindingEnd : (findKey (front ++ moduleMarker ::
      (mangled mname ++ libraryMarker :: (mangled lname ++ rest)))
        methodMangledMarker).getD (front ++ moduleMarker ::
          (mangled mname ++ libraryMarker :: (mangled lname ++ rest))).length =
        (front ++ moduleMarker :: mangled mname ++
          libraryMarker :: mangled lname).length := by
    rw [grouped, bindingEnd_eq _ ends]
    · simp
    · simp only [List.mem_append, List.mem_cons, not_or]
      exact ⟨isFront.noMethod, by decide,
        methodMangledMarker_notMem_mangled mhash, by decide,
        methodMangledMarker_notMem_mangled lhash⟩
  have length : 0 < (mangled lname).length :=
    List.length_pos_iff.mpr (mangled_nonempty lnonempty)
  have middle := copySequence_between front moduleMarker (mangled mname)
    (libraryMarker :: (mangled lname ++ rest))
  have last := copySequence_between (front ++ moduleMarker :: mangled mname)
    libraryMarker (mangled lname) rest
  rw [← regroup] at last
  simp only [demangleBindingSpread, library, bindingEnd,
    findKey_append_cons isFront.noModule]
  rw [if_pos (by simp only [List.length_append, List.length_cons]; omega),
    Option.filter_some, if_pos (by simp)]
  simp only [copySequence_front, middle, last, demangleNameRaw_mangled,
    isFront.read]
  rfl

/-- A variable and what follows the library marker, without a module. -/
theorem findKeys_library (isFront : Front mangler front vname)
    (ends : EndsBinding rest) {after : ByteString}
    (noModule : moduleMarker ∉ after)
    (noMethod : methodMangledMarker ∉ after) :
    findKey (front ++ libraryMarker :: (after ++ rest)) libraryMarker =
        some front.length ∧
      (findKey (front ++ libraryMarker :: (after ++ rest))
        moduleMarker).filter (fun msep => front.length > msep) = none ∧
      (findKey (front ++ libraryMarker :: (after ++ rest))
        methodMangledMarker).getD
          (front ++ libraryMarker :: (after ++ rest)).length =
        (front ++ libraryMarker :: after).length := by
  have grouped : front ++ libraryMarker :: (after ++ rest) =
      (front ++ libraryMarker :: after) ++ rest := by simp
  refine ⟨findKey_append_cons isFront.noLibrary, ?_, ?_⟩
  · rw [Option.filter_eq_none_iff]
    intro msep found
    rw [grouped, findKey, List.findIdx?_append] at found
    have none_ : (front ++ libraryMarker :: after).findIdx?
        (fun other => other = moduleMarker) = none := by
      apply findKey_none
      simp only [List.mem_append, List.mem_cons, not_or]
      exact ⟨isFront.noModule, by decide, noModule⟩
    rw [none_, Option.none_or, Option.map_eq_some_iff] at found
    obtain ⟨index, -, rfl⟩ := found
    simp only [List.length_append, List.length_cons, decide_eq_true_eq]
    omega
  · rw [grouped, bindingEnd_eq _ ends]
    simp only [List.mem_append, List.mem_cons, not_or]
    exact ⟨isFront.noMethod, by decide, noMethod⟩

/-- A module that is named like its library. -/
theorem demangleBindingSpread_library (isFront : Front mangler front vname)
    (ends : EndsBinding rest) {lname : ByteString}
    (lnonempty : lname ≠ []) (lhash : byte '#' ∉ lname) :
    demangleBindingSpread mangler
        (front ++ libraryMarker :: (mangled lname ++ rest)) =
      some { variableName := vname
             moduleName := some lname
             libraryName := some lname } := by
  have noModule : moduleMarker ∉ mangled lname := moduleMarker_notMem_mangled
  have noDylan : dylanModuleMarker ∉ mangled lname :=
    dylanModuleMarker_notMem_mangled
  obtain ⟨library, module_, bindingEnd⟩ := findKeys_library isFront ends
    noModule (methodMangledMarker_notMem_mangled lhash)
  have next : ∃ character, (front ++ libraryMarker ::
      (mangled lname ++ rest))[front.length + 1]? = some character ∧
        character ≠ dylanModuleMarker := by
    rw [List.getElem?_append_right (by omega), Nat.add_sub_cancel_left,
      List.getElem?_cons_succ]
    cases shape : mangled lname with
    | nil => exact absurd shape (mangled_nonempty lnonempty)
    | cons character rest =>
        refine ⟨character, rfl, fun same => ?_⟩
        apply noDylan
        rw [shape, same]
        exact List.mem_cons_self ..
  obtain ⟨character, found, different⟩ := next
  have length : 0 < (mangled lname).length :=
    List.length_pos_iff.mpr (mangled_nonempty lnonempty)
  have last := copySequence_between front libraryMarker (mangled lname) rest
  simp only [demangleBindingSpread, library, bindingEnd, module_, found]
  rw [if_pos (by simp only [List.length_append, List.length_cons]; omega),
    copySequence_front, last]
  simp [different, demangleNameRaw_mangled, isFront.read]

/-- An abbreviated module of the Dylan library. -/
theorem demangleBindingSpread_dylan (isFront : Front mangler front vname)
    (ends : EndsBinding rest) {entry : ByteString × ByteCharacter}
    (member : entry ∈ mangleDylanModule) :
    demangleBindingSpread mangler
        (front ++ libraryMarker ::
          ([dylanModuleMarker, entry.2] ++ rest)) =
      some { variableName := vname
             moduleName := some entry.1
             libraryName := some (bytes "dylan") } := by
  have known : ∀ entry ∈ mangleDylanModule,
      moduleMarker ∉ [dylanModuleMarker, entry.2] ∧
        methodMangledMarker ∉ [dylanModuleMarker, entry.2] ∧
          demangleDylanModule entry.2 = some entry.1 := by decide +kernel
  obtain ⟨noModule, noMethod, back⟩ := known entry member
  obtain ⟨library, module_, bindingEnd⟩ :=
    findKeys_library isFront ends noModule noMethod
  have marker : (front ++ libraryMarker ::
      ([dylanModuleMarker, entry.2] ++ rest))[front.length + 1]? =
        some dylanModuleMarker := by
    rw [List.getElem?_append_right (by omega), Nat.add_sub_cancel_left]
    rfl
  have abbreviation : (front ++ libraryMarker ::
      ([dylanModuleMarker, entry.2] ++ rest))[front.length + 2]? =
        some entry.2 := by
    rw [List.getElem?_append_right (by omega), Nat.add_sub_cancel_left]
    rfl
  have dylan : demangleNameRaw mangler (bytes "dylan") =
      some (bytes "dylan") := by
    have same : (bytes "dylan").flatMap manglerTable = bytes "dylan" := by
      decide
    have read := demangleNameRaw_mangled mangler (bytes "dylan")
    rwa [same] at read
  simp only [demangleBindingSpread, library, bindingEnd, module_, marker,
    abbreviation]
  rw [if_pos (by simp), copySequence_front]
  simp [dylan, back, isFront.read]

end Reading

/-- The three forms of a mangled binding. -/
theorem mangleBindingSpread_cases (mangler : Mangler)
    (variableName moduleName libraryName : DylanName) :
    (∃ entry ∈ mangleDylanModule, entry.1 = moduleName.text ∧
        libraryName.text = bytes "dylan" ∧
        mangleBindingSpread mangler variableName moduleName libraryName =
          mangled variableName.text ++
            libraryMarker :: [dylanModuleMarker, entry.2]) ∨
    (moduleName.text = libraryName.text ∧
        mangleBindingSpread mangler variableName moduleName libraryName =
          mangled variableName.text ++
            libraryMarker :: mangled libraryName.text) ∨
    mangleBindingSpread mangler variableName moduleName libraryName =
      mangled variableName.text ++ moduleMarker ::
        (mangled moduleName.text ++
          libraryMarker :: mangled libraryName.text) := by
  have variable_ : (mangleNameInto (manglerReset mangler)
      variableName.text).buffer = mangled variableName.text := by
    rw [mangleNameInto_buffer]
    rfl
  have plain : ∀ symbol, symbol = (nonDylanMangle
      (mangleNameInto (manglerReset mangler) variableName.text)
      moduleName libraryName).buffer →
      (moduleName.text = libraryName.text ∧ symbol =
        mangled variableName.text ++
          libraryMarker :: mangled libraryName.text) ∨
      symbol = mangled variableName.text ++ moduleMarker ::
        (mangled moduleName.text ++
          libraryMarker :: mangled libraryName.text) := by
    rintro symbol rfl
    rw [nonDylanMangle]
    split
    case isTrue alike =>
      left
      refine ⟨alike, ?_⟩
      simp [mangleNameInto_buffer, mangleRawInto, manglerReset]
    case isFalse different =>
      right
      simp [mangleNameInto_buffer, mangleRawInto, manglerReset]
  by_cases dylan : libraryName.text = bytes "dylan"
  · cases found : mangleDylanModule.find?
      fun entry => entry.1 = moduleName.text with
    | some entry =>
        left
        have keyed : entry.1 = moduleName.text := by
          simpa using List.find?_some found
        refine ⟨entry, List.mem_of_find?_eq_some found, keyed, dylan, ?_⟩
        rw [mangleBindingSpread, mangleNamespaceSpreadInto, if_pos dylan,
          found]
        simp [mangleRawInto, variable_]
    | none =>
        right
        apply plain
        rw [mangleBindingSpread, mangleNamespaceSpreadInto, if_pos dylan,
          found]
  · right
    apply plain
    rw [mangleBindingSpread, mangleNamespaceSpreadInto, if_neg dylan]

/-- What a symbol is made of. -/
theorem mem_mangleBindingSpread {mangler : Mangler} {v m l : DylanName}
    {character : ByteCharacter}
    (member : character ∈ mangleBindingSpread mangler v m l) :
    (∃ name : DylanName, character ∈ mangled name.text) ∨
      character ∈ [moduleMarker, libraryMarker, dylanModuleMarker] ++
        mangleDylanModule.map Prod.snd := by
  rcases mangleBindingSpread_cases mangler v m l with
    ⟨entry, known, -, -, shape⟩ | ⟨-, shape⟩ | shape
  · rw [shape, List.mem_append, List.mem_cons, List.mem_cons,
      List.mem_singleton] at member
    rcases member with named | rfl | rfl | rfl
    · exact .inl ⟨v, named⟩
    · exact .inr (by decide)
    · exact .inr (by decide)
    · exact .inr (List.mem_append_right _ (List.mem_map_of_mem known))
  · rw [shape, List.mem_append, List.mem_cons] at member
    rcases member with named | rfl | named
    · exact .inl ⟨v, named⟩
    · exact .inr (by decide)
    · exact .inl ⟨l, named⟩
  · simp only [shape, List.mem_append, List.mem_cons] at member
    rcases member with named | rfl | named | rfl | named
    · exact .inl ⟨v, named⟩
    · exact .inr (by decide)
    · exact .inl ⟨m, named⟩
    · exact .inr (by decide)
    · exact .inl ⟨l, named⟩

/-- A mangled binding is read back from a symbol, also with a text that
demangles to nothing before it, and with the parts of a method behind it. -/
theorem demangleBindingSpread_symbol (mangler demangler : Mangler)
    (variableName moduleName libraryName : DylanName)
    {before rest : ByteString}
    (isFront : Front demangler (before ++ mangled variableName.text)
      variableName.text) (ends : EndsBinding rest) :
    demangleBindingSpread demangler
        (before ++ (mangleBindingSpread mangler variableName moduleName
          libraryName ++ rest)) =
      some { variableName := variableName.text
             moduleName := some moduleName.text
             libraryName := some libraryName.text } := by
  rcases mangleBindingSpread_cases mangler variableName moduleName
    libraryName with ⟨entry, member, keyed, dylan, shape⟩ | ⟨alike, shape⟩ |
      shape
  · have read := demangleBindingSpread_dylan isFront ends member
    rw [shape, ← keyed, dylan]
    simpa using read
  · have read := demangleBindingSpread_library isFront ends
      libraryName.text_nonempty libraryName.hash_notMem_text
    rw [shape, alike]
    simpa using read
  · have read := demangleBindingSpread_modules isFront ends
      libraryName.text_nonempty moduleName.hash_notMem_text
      libraryName.hash_notMem_text
    rw [shape]
    simpa using read

theorem demangleBindingSpread_mangled (mangler demangler : Mangler)
    (variableName moduleName libraryName : DylanName) :
    demangleBindingSpread demangler
        (mangleBindingSpread mangler variableName moduleName libraryName) =
      some { variableName := variableName.text
             moduleName := some moduleName.text
             libraryName := some libraryName.text } := by
  have read := @demangleBindingSpread_symbol mangler demangler variableName
    moduleName libraryName [] []
    (front_mangled demangler variableName.hash_notMem_text) (Or.inl rfl)
  simpa using read

/-- A mangled binding is read back, so different bindings have different
symbols. -/
theorem bindings_never_collide (mangler demangler : Mangler) :
    (∀ variableName moduleName libraryName : DylanName,
      demangleBindingSpread demangler
          (mangleBindingSpread mangler variableName moduleName libraryName) =
        some { variableName := variableName.text
               moduleName := some moduleName.text
               libraryName := some libraryName.text }) ∧
    ∀ v m l v' m' l' : DylanName,
      mangleBindingSpread mangler v m l =
          mangleBindingSpread mangler v' m' l' →
        v.text = v'.text ∧ m.text = m'.text ∧ l.text = l'.text := by
  refine ⟨demangleBindingSpread_mangled mangler demangler, ?_⟩
  intro v m l v' m' l' same
  have first := demangleBindingSpread_mangled mangler demangler v m l
  rw [same, demangleBindingSpread_mangled] at first
  have equal := Option.some.inj first
  simp only [Spread.mk.injEq, Option.some.injEq] at equal
  exact ⟨equal.1.symm, equal.2.1.symm, equal.2.2.symm⟩

end OpenDylan.Compiler.Mangling
