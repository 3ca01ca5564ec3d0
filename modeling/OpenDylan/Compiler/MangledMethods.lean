import OpenDylan.Compiler.MangledBindings

/-!
# Mangled methods

The symbol of a method is that of its generic function, the library that the
method is from and the number of the method, with a marker before each of the
two.  The library is left out where it is that of the generic function; it is
then taken from the binding.
-/

namespace OpenDylan.Compiler.Mangling

/-! ## Mangling methods -/

/-- `$constant-marker` -/
def constantMarker : ByteCharacter := byte 'K'

/-- `$wrapper-marker` -/
def wrapperMarker : ByteCharacter := byte 'W'

/-- `$iep-marker` -/
def iepMarker : ByteCharacter := byte 'I'

/-- `mangle-generic-method` -/
def mangleGenericMethod (mangler : Mangler) (name : ByteString)
    (methodNumber : Nat) (methodLibraryName genericLibraryName : DylanName) :
    ByteString :=
  let libraryName :=
    if genericLibraryName.text = methodLibraryName.text then
      []
    else
      mangleNameRaw mangler methodLibraryName.text
  [constantMarker] ++ name ++ [methodMangledMarker] ++ libraryName ++
    [methodMangledMarker] ++ mangleInteger methodNumber

/-! ## Demangling methods -/

/-- The results of `demangler-extract-characteristics`. -/
structure Characteristics where
  isConstant : Bool
  isWrapper : Bool
  isIep : Bool
  isMethod : Bool
deriving DecidableEq

/-- `demangler-extract-characteristics` -/
def demanglerExtractCharacteristics (name : ByteString) : Characteristics :=
  if name.length = 0 then
    { isConstant := false
      isWrapper := false
      isIep := false
      isMethod := false }
  else
    { isConstant := name.head? = some constantMarker
      isWrapper := name.getLast? = some wrapperMarker
      isIep := name.getLast? = some iepMarker
      isMethod := methodMangledMarker ∈ name }

/-- `demangler-extract-callable-object-name` -/
def demanglerExtractCallableObjectName (name : ByteString) : ByteString :=
  if (demanglerExtractCharacteristics name).isIep then
    copySequence name 0 (name.length - 1)
  else
    name

/-- The results of `demangler-extract-method-details`. -/
structure MethodDetails where
  methodLibrary : Option ByteString
  methodIndex : ByteString
deriving DecidableEq

/-- The local value `method-lib-part`, which may be false. -/
def methodLibPart (demangler : Mangler) (cname libPart : ByteString) :
    Option (Option ByteString) :=
  if libPart = [] then
    (demangleBindingSpread demangler cname).map Spread.libraryName
  else
    some (some libPart)

/-- `method-lib-part & demangle-name-raw(demangler, method-lib-part)` -/
def demangleLibPart (demangler : Mangler) :
    Option ByteString → Option (Option ByteString)
  | none => some none
  | some libPart => (demangleNameRaw demangler libPart).map some

/-- `demangler-extract-method-details` -/
def demanglerExtractMethodDetails (demangler : Mangler) (name : ByteString) :
    Option MethodDetails :=
  let cname := demanglerExtractCallableObjectName name
  let noDetails : MethodDetails :=
    { methodLibrary := none
      methodIndex := bytes "0" }
  match findKey cname methodMangledMarker with
  | none => some noDetails
  | some mm =>
      let detailPart := copySequence cname (mm + 1) cname.length
      match findKey detailPart methodMangledMarker with
      | none => some noDetails
      | some mm2 => do
          let libPart ← methodLibPart demangler cname
            (copySequence detailPart 0 mm2)
          let library ← demangleLibPart demangler libPart
          return {
            methodLibrary := library
            methodIndex :=
              copySequence detailPart (mm2 + 1) detailPart.length }

/-! ## Decimal texts -/

/-- The decimal text of a number. -/
def decimalText (number : Nat) : ByteString :=
  (Nat.toDigits 10 number).map byte

theorem mangleInteger_eq (number : Nat) :
    mangleInteger number = decimalText number := by
  have digits : ∀ digit : Fin 10,
      numberCharacter digit = byte (Nat.digitChar digit) := by
    decide
  have digitEq : ∀ digit, digit < 10 →
      Nat.toDigits 10 digit = [Nat.digitChar digit] := fun digit small =>
    Nat.toDigits_of_lt_base small
  induction number using Nat.strongRecOn with
  | ind number ih =>
      have small : number % 10 < 10 := Nat.mod_lt _ (by decide)
      have last : numberCharacter (number % 10) =
          byte (Nat.digitChar (number % 10)) := digits ⟨number % 10, small⟩
      rw [mangleInteger, decimalText]
      split
      case isTrue single =>
        have same : number % 10 = number := by omega
        rw [digitEq number (by omega), List.map_singleton, last, same]
      case isFalse several =>
        have parts := Nat.toDigits_append_toDigits (b := 10)
          (n := number / 10) (d := number % 10) (by decide) (by omega) small
        rw [Nat.div_add_mod, digitEq _ small] at parts
        rw [ih _ (by omega), ← parts, List.map_append, List.map_singleton,
          last, decimalText]

/-! ## Lower-case texts -/

/-- What demangling makes of a character of a lower-case text. -/
def hyphened (character : ByteCharacter) : ByteCharacter :=
  if character = byte '_' then byte '-' else character

theorem demanglerTable_asLowercase (character : ByteCharacter) :
    demanglerTable (asLowercase character) =
        .character (hyphened (asLowercase character)) ∨
      demanglerTable (asLowercase character) = .unexpected ∧
        defaultDemanglerHandlerFunction (asLowercase character) =
          [hyphened (asLowercase character)] := by
  revert character
  decide +kernel

theorem demangleNameInto_lowered (mangler : Mangler)
    (spelling : ByteString) :
    demangleNameInto mangler (spelling.map asLowercase) =
      some (mangleRawInto mangler
        ((spelling.map asLowercase).map hyphened)) := by
  induction spelling generalizing mangler with
  | nil => simp [demangleNameInto, mangleRawInto]
  | cons character spelling ih =>
      rw [List.map_cons, demangleNameInto]
      rcases demanglerTable_asLowercase character with known | ⟨known, copied⟩
      · rw [known]
        simp only [ih]
        simp [mangleRawInto]
      · rw [known]
        simp only [copied, ih]
        simp [mangleRawInto]

/-- A name that is no longer mangled loses its underscores. -/
theorem demangleNameRaw_text (demangler : Mangler) (name : DylanName) :
    demangleNameRaw demangler name.text = some (name.text.map hyphened) := by
  rw [demangleNameRaw, DylanName.text, demangleNameInto_lowered]
  rfl

theorem map_hyphened_eq_iff (name : ByteString) :
    name.map hyphened = name ↔ byte '_' ∉ name := by
  have kept : ∀ character : ByteCharacter,
      hyphened character = character ↔ byte '_' ≠ character := by
    decide +kernel
  induction name with
  | nil => simp
  | cons character name ih =>
      simp only [List.map_cons, List.cons.injEq, kept, ih, List.mem_cons,
        not_or]

/-! ## The parts of a method -/

theorem methodMangledMarker_notMem_binding (mangler : Mangler)
    (variableName moduleName libraryName : DylanName) :
    methodMangledMarker ∉
      mangleBindingSpread mangler variableName moduleName libraryName := by
  intro member
  rcases mem_mangleBindingSpread member with ⟨name, named⟩ | marker
  · exact methodMangledMarker_notMem_mangled name.hash_notMem_text named
  · exact absurd marker (by decide)

theorem mangleInteger_nonempty (number : Nat) : mangleInteger number ≠ [] := by
  rw [mangleInteger]
  split
  · exact List.cons_ne_nil _ _
  · exact List.append_ne_nil_of_right_ne_nil _ (List.cons_ne_nil _ _)

/-- The marker of an entry point is not the last character of a number. -/
theorem isIep_iff (front : ByteString) (number : Nat) :
    (demanglerExtractCharacteristics
      (front ++ mangleInteger number)).isIep = false := by
  have nonempty := mangleInteger_nonempty number
  have last : (mangleInteger number).getLast? ≠ some iepMarker := by
    intro found
    have digit := mangleInteger_allowable number _
      (List.mem_of_getLast? found)
    exact absurd digit (by decide)
  unfold demanglerExtractCharacteristics
  split
  · rfl
  · rw [List.getLast?_append_of_ne_nil _ nonempty]
    exact decide_eq_false last

/-- The suffix of an entry point is taken off again, and nothing else is. -/
theorem callableObjectName_eq (front : ByteString) (number : Nat)
    {suffix : ByteString} (isSuffix : suffix = [] ∨ suffix = [iepMarker]) :
    demanglerExtractCallableObjectName
        (front ++ mangleInteger number ++ suffix) =
      front ++ mangleInteger number := by
  unfold demanglerExtractCallableObjectName
  rcases isSuffix with nothing | marked
  · rw [nothing, List.append_nil, isIep_iff]
    rfl
  · have isIep : (demanglerExtractCharacteristics
        (front ++ mangleInteger number ++ [iepMarker])).isIep = true := by
      simp [demanglerExtractCharacteristics]
    rw [marked, if_pos isIep, List.length_append, List.length_singleton,
      Nat.add_sub_cancel, copySequence_front]

/-- The details of a symbol that has both markers. -/
theorem methodDetails_eq (demangler : Mangler)
    {front libPart : ByteString} (number : Nat)
    {suffix : ByteString} (isSuffix : suffix = [] ∨ suffix = [iepMarker])
    (frontFree : methodMangledMarker ∉ front)
    (libraryFree : methodMangledMarker ∉ libPart) :
    demanglerExtractMethodDetails demangler
        (front ++ methodMangledMarker ::
          (libPart ++ methodMangledMarker :: mangleInteger number) ++
            suffix) =
      (methodLibPart demangler
        (front ++ methodMangledMarker ::
          (libPart ++ methodMangledMarker :: mangleInteger number))
        libPart).bind fun part =>
          (demangleLibPart demangler part).map fun library =>
            { methodLibrary := library
              methodIndex := decimalText number } := by
  have callable := callableObjectName_eq
    (front ++ methodMangledMarker :: (libPart ++ [methodMangledMarker]))
    number isSuffix
  have regroup : front ++ methodMangledMarker ::
      (libPart ++ [methodMangledMarker]) ++ mangleInteger number =
        front ++ methodMangledMarker ::
          (libPart ++ methodMangledMarker :: mangleInteger number) := by
    simp
  rw [regroup] at callable
  unfold demanglerExtractMethodDetails
  simp only [callable, findKey_append_cons frontFree, copySequence_back,
    findKey_append_cons libraryFree, copySequence_front]
  rw [mangleInteger_eq]
  cases methodLibPart demangler _ libPart with
  | none => rfl
  | some part =>
      show (demangleLibPart demangler part >>= _) =
        (demangleLibPart demangler part).map _
      cases demangleLibPart demangler part with
      | none => rfl
      | some library => rfl

/-! ## Round trip of methods -/

theorem front_constant (demangler : Mangler) (variableName : DylanName) :
    Front demangler ([constantMarker] ++ mangled variableName.text)
      variableName.text where
  read := by
    have unexpected : demanglerTable constantMarker = .unexpected := by
      decide
    have dropped : defaultDemanglerHandlerFunction constantMarker = [] := by
      decide
    have read := demangleNameRaw_mangled demangler variableName.text
    rw [demangleNameRaw] at read
    rw [List.singleton_append, demangleNameRaw, demangleNameInto, unexpected]
    simp only [dropped]
    simpa [mangleRawInto, manglerReset] using read
  noModule := by
    simp only [List.mem_append, List.mem_singleton, not_or]
    exact ⟨by decide, moduleMarker_notMem_mangled⟩
  noLibrary := by
    simp only [List.mem_append, List.mem_singleton, not_or]
    exact ⟨by decide, libraryMarker_notMem_mangled⟩
  noMethod := by
    simp only [List.mem_append, List.mem_singleton, not_or]
    exact ⟨by decide,
      methodMangledMarker_notMem_mangled variableName.hash_notMem_text⟩

/-- What is read from the symbol of a method: a library that is left out is
demangled twice. -/
theorem methodDetails_mangled (mangler demangler : Mangler)
    (v m l methodLibrary : DylanName) (number : Nat) {suffix : ByteString}
    (isSuffix : suffix = [] ∨ suffix = [iepMarker]) :
    demanglerExtractMethodDetails demangler
        (mangleGenericMethod mangler (mangleBindingSpread mangler v m l)
          number methodLibrary l ++ suffix) =
      some {
        methodLibrary := some <|
          if l.text = methodLibrary.text then l.text.map hyphened
          else methodLibrary.text
        methodIndex := decimalText number } := by
  have frontFree : methodMangledMarker ∉
      constantMarker :: mangleBindingSpread mangler v m l := by
    rw [List.mem_cons, not_or]
    exact ⟨by decide, methodMangledMarker_notMem_binding mangler v m l⟩
  unfold mangleGenericMethod
  by_cases same : l.text = methodLibrary.text
  · have details := @methodDetails_eq demangler
      (constantMarker :: mangleBindingSpread mangler v m l) [] number suffix
      isSuffix frontFree (List.not_mem_nil)
    have read := @demangleBindingSpread_symbol mangler demangler v m l
      [constantMarker] (methodMangledMarker ::
        ([] ++ methodMangledMarker :: mangleInteger number))
      (front_constant demangler v) (Or.inr ⟨_, rfl⟩)
    rw [List.singleton_append, ← List.cons_append] at read
    rw [methodLibPart, if_pos rfl, read] at details
    simp only [if_pos same]
    simpa [demangleLibPart, demangleNameRaw_text] using details
  · have libraryFree := methodMangledMarker_notMem_mangled
      methodLibrary.hash_notMem_text
    have details := @methodDetails_eq demangler
      (constantMarker :: mangleBindingSpread mangler v m l)
      (mangled methodLibrary.text) number suffix isSuffix frontFree
      libraryFree
    rw [methodLibPart,
      if_neg (mangled_nonempty methodLibrary.text_nonempty)] at details
    simp only [if_neg same, mangleNameRaw_eq]
    simpa [demangleLibPart, demangleNameRaw_mangled] using details

/-- The library and the number of a method are read back exactly if the library
is named in the symbol or has no underscore. -/
theorem method_round_trip_iff (mangler demangler : Mangler)
    (v m l methodLibrary : DylanName) (number : Nat) {suffix : ByteString}
    (isSuffix : suffix = [] ∨ suffix = [iepMarker]) :
    demanglerExtractMethodDetails demangler
        (mangleGenericMethod mangler (mangleBindingSpread mangler v m l)
          number methodLibrary l ++ suffix) =
      some {
        methodLibrary := some methodLibrary.text
        methodIndex := decimalText number } ↔
      l.text ≠ methodLibrary.text ∨ byte '_' ∉ l.text := by
  rw [methodDetails_mangled mangler demangler v m l methodLibrary number
    isSuffix]
  by_cases same : l.text = methodLibrary.text
  · rw [if_pos same, ← same]
    simp [map_hyphened_eq_iff]
  · simp [same]

/-- The name of a library with an underscore. -/
def underscored : DylanName where
  spelling := bytes "my_lib"
  nonempty := by decide
  noHash := by decide

/-- The name of the Dylan library. -/
def dylanName : DylanName where
  spelling := bytes "dylan"
  nonempty := by decide
  noHash := by decide

/-- The entry point of a method that is from another library. -/
theorem method_round_trip_named :
    demanglerExtractMethodDetails ⟨[]⟩
        (mangleGenericMethod ⟨[]⟩
          (mangleBindingSpread ⟨[]⟩ underscored underscored underscored)
            12 dylanName underscored ++ [iepMarker]) =
      some {
        methodLibrary := some dylanName.text
        methodIndex := decimalText 12 } :=
  (method_round_trip_iff ⟨[]⟩ ⟨[]⟩ underscored underscored underscored
    dylanName 12 (Or.inr rfl)).2 (Or.inl (by decide))

/-- A method of a library with an underscore, on a function of that library, is
read as one of a library with a hyphen. -/
theorem not_method_round_trip :
    ¬∀ (mangler demangler : Mangler) (v m l methodLibrary : DylanName)
      (number : Nat) (suffix : ByteString),
        suffix = [] ∨ suffix = [iepMarker] →
          demanglerExtractMethodDetails demangler
              (mangleGenericMethod mangler (mangleBindingSpread mangler v m l)
                number methodLibrary l ++ suffix) =
            some {
              methodLibrary := some methodLibrary.text
              methodIndex := decimalText number } := by
  intro all
  have read := all ⟨[]⟩ ⟨[]⟩ underscored underscored underscored underscored 0
    [] (Or.inl rfl)
  rw [methodDetails_mangled _ _ _ _ _ _ _ (Or.inl rfl), if_pos rfl] at read
  have same : underscored.text.map hyphened = underscored.text := by
    have details := Option.some.inj read
    simpa using details
  rw [map_hyphened_eq_iff] at same
  exact same (by decide)

end OpenDylan.Compiler.Mangling
