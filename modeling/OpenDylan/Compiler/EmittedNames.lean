import OpenDylan.Compiler.MangledMethods

/-!
# Emitted names

An object that other libraries refer to is emitted under a name that is made
of the symbol of a binding.  Behind the symbol stands what kind of object it
is, with the number and the library of a method or a domain.  Whatever
libraries are linked, different objects have different names.
-/

namespace OpenDylan.Compiler.Mangling

/-! ## Names of objects -/

/-- A symbol that names something: its text in lower case. -/
abbrev NameText : Type := {name : DylanName // name.text = name.spelling}

/-- The names that a binding is emitted under. -/
structure Binding where
  variableName : NameText
  moduleName : NameText
  libraryName : NameText

/-- What an object is to its binding; a function has an entry point too. -/
inductive Kind where
  | object (isIep : Bool)
  | genericMethod (number : Nat) (library : NameText) (isIep : Bool)
  | domain (number : Nat) (library : NameText)
  | wrapper

/-- A binding or an object that belongs to one. -/
inductive Emitted where
  | binding (binding : Binding)
  | belonging (binding : Binding) (kind : Kind)

/-- `$domain-mangled-marker-string` -/
def domainMangledMarkerString : ByteString := bytes "RD_"

/-- `global-mangle` -/
def globalMangle (mangler : Mangler) (binding : Binding) : ByteString :=
  mangleBindingSpread mangler binding.variableName.1 binding.moduleName.1
    binding.libraryName.1

/-- `mangle-domain` -/
def mangleDomain (name : ByteString) (number : Nat)
    (libraryName : ByteString) : ByteString :=
  [constantMarker] ++ name ++ domainMangledMarkerString ++ libraryName ++
    domainMangledMarkerString ++ mangleInteger number

/-- What `emit-iep-name` adds to the name of a function. -/
def iepSuffix (isIep : Bool) : ByteString := if isIep then [iepMarker] else []

/-- `emit-namestring` -/
def emitNamestring (mangler : Mangler) : Emitted → ByteString
  | .binding binding => globalMangle mangler binding
  | .belonging binding (.object isIep) =>
      [constantMarker] ++ globalMangle mangler binding ++ iepSuffix isIep
  | .belonging binding (.genericMethod number library isIep) =>
      mangleGenericMethod mangler (globalMangle mangler binding) number
        library.1 binding.libraryName.1 ++ iepSuffix isIep
  | .belonging binding (.domain number library) =>
      mangleDomain (globalMangle mangler binding) number
        (mangleNameRaw mangler library.1.text)
  | .belonging binding .wrapper =>
      [constantMarker] ++ globalMangle mangler binding ++ [wrapperMarker]

/-! ## Where a symbol ends -/

section Front

variable {markers front front' rest rest' : ByteString}

theorem takeWhile_front (fresh : ∀ character ∈ front, character ∉ markers)
    (ends : ∀ character ∈ rest.head?, character ∈ markers) :
    (front ++ rest).takeWhile (· ∉ markers) = front := by
  rw [List.takeWhile_append_of_pos (by simpa using fresh)]
  cases rest with
  | nil => simp
  | cons character rest => simp [ends character rfl]

/-- Texts that go on up to the first of some markers are told apart. -/
theorem front_unique (fresh : ∀ character ∈ front, character ∉ markers)
    (fresh' : ∀ character ∈ front', character ∉ markers)
    (ends : ∀ character ∈ rest.head?, character ∈ markers)
    (ends' : ∀ character ∈ rest'.head?, character ∈ markers)
    (same : front ++ rest = front' ++ rest') :
    front = front' ∧ rest = rest' := by
  have equal := congrArg (List.takeWhile (· ∉ markers)) same
  rw [takeWhile_front fresh ends, takeWhile_front fresh' ends'] at equal
  subst equal
  exact ⟨rfl, List.append_cancel_left same⟩

end Front

/-- What stands behind a symbol begins with one of these, if anything does. -/
def endMarkers : ByteString :=
  [methodMangledMarker, byte 'R', wrapperMarker, iepMarker]

theorem globalMangle_unended (mangler : Mangler) (binding : Binding) :
    ∀ character ∈ globalMangle mangler binding, character ∉ endMarkers := by
  have unexpected : ∀ character ∈ endMarkers, character ≠
      methodMangledMarker → demanglerTable character = .unexpected := by
    decide +kernel
  have apart : ∀ character ∈ [moduleMarker, libraryMarker,
      dylanModuleMarker] ++ mangleDylanModule.map Prod.snd,
      character ∉ endMarkers := by decide +kernel
  intro character member ended
  rcases mem_mangleBindingSpread member with ⟨name, named⟩ | marker
  · refine expected_of_mem_mangled named (unexpected character ended ?_)
    rintro rfl
    exact methodMangledMarker_notMem_mangled name.hash_notMem_text named
  · exact apart character marker ended

/-- The symbol of a binding does not begin like that of a constant. -/
theorem globalMangle_ne_constant (mangler : Mangler) (binding : Binding)
    (rest : ByteString) :
    globalMangle mangler binding ≠ constantMarker :: rest := by
  obtain ⟨first, name, shape⟩ := List.exists_cons_of_ne_nil
    (mangled_nonempty binding.variableName.1.text_nonempty)
  have expected : demanglerTable first ≠ .unexpected :=
    expected_of_mem_mangled (by rw [shape]; exact List.mem_cons_self)
  intro same
  rw [globalMangle] at same
  rcases mangleBindingSpread_cases mangler binding.variableName.1
    binding.moduleName.1 binding.libraryName.1 with
      ⟨entry, -, -, -, symbol⟩ | ⟨-, symbol⟩ | symbol
  all_goals
    rw [symbol, shape] at same
    exact expected (by rw [(List.cons.inj same).1]; decide)

/-! ## Distinct names -/

/-- What stands behind the symbol. -/
def nameEnd (libraryName : NameText) : Kind → ByteString
  | .object isIep => iepSuffix isIep
  | .genericMethod number library isIep =>
      methodMangledMarker ::
        ((if libraryName.1.text = library.1.text then []
          else mangled library.1.text) ++
          methodMangledMarker :: (mangleInteger number ++ iepSuffix isIep))
  | .domain number library =>
      domainMangledMarkerString ++ (mangled library.1.text ++
        (domainMangledMarkerString ++ mangleInteger number))
  | .wrapper => [wrapperMarker]

theorem emitNamestring_belonging (mangler : Mangler) (binding : Binding)
    (kind : Kind) :
    emitNamestring mangler (.belonging binding kind) =
      constantMarker :: (globalMangle mangler binding ++
        nameEnd binding.libraryName kind) := by
  cases kind <;> simp [emitNamestring, nameEnd, mangleGenericMethod,
    mangleDomain, mangleNameRaw_eq]

theorem nameEnd_head (libraryName : NameText) (kind : Kind) :
    ∀ character ∈ (nameEnd libraryName kind).head?,
      character ∈ endMarkers := by
  have suffix : ∀ isIep, ∀ character ∈ (iepSuffix isIep).head?,
      character ∈ endMarkers := by decide +kernel
  cases kind with
  | object isIep => exact suffix isIep
  | _ => exact fun character found => by cases found; decide

theorem NameText.eq_of_text {name name' : NameText}
    (same : name.1.text = name'.1.text) : name = name' := by
  obtain ⟨⟨spelling, _, _⟩, lower⟩ := name
  obtain ⟨⟨spelling', _, _⟩, lower'⟩ := name'
  rw [lower, lower'] at same
  cases same
  rfl

theorem NameText.eq_of_mangled {name name' : NameText}
    (same : mangled name.1.text = mangled name'.1.text) : name = name' :=
  NameText.eq_of_text (flatMap_manglerTable_injective same)

theorem globalMangle_injective (mangler : Mangler) :
    Function.Injective (globalMangle mangler) := by
  intro binding binding' same
  have read := demangleBindingSpread_mangled mangler mangler
    binding.variableName.1 binding.moduleName.1 binding.libraryName.1
  rw [← globalMangle, same, globalMangle, demangleBindingSpread_mangled]
    at read
  simp only [Option.some.injEq, Spread.mk.injEq] at read
  cases binding
  cases binding'
  rw [Binding.mk.injEq]
  exact ⟨NameText.eq_of_text read.1.symm, NameText.eq_of_text read.2.1.symm,
    NameText.eq_of_text read.2.2.symm⟩

/-- The number of a name and what stands behind it are told apart. -/
theorem number_unique {number number' : Nat} {isIep isIep' : Bool}
    (same : mangleInteger number ++ iepSuffix isIep =
      mangleInteger number' ++ iepSuffix isIep') :
    number = number' ∧ isIep = isIep' := by
  have read : ∀ number isIep, readNext 0
      (mangleInteger number ++ iepSuffix isIep) =
        (number, iepSuffix isIep) := by
    intro number isIep
    rw [readNext_mangleInteger]
    cases isIep <;> rfl
  have equal := read number isIep
  rw [same, read] at equal
  obtain ⟨numbers, suffixes⟩ := Prod.mk.inj equal
  refine ⟨numbers.symm, ?_⟩
  cases isIep <;> cases isIep' <;> first | rfl | cases suffixes

theorem nameEnd_injective (libraryName : NameText) :
    Function.Injective (nameEnd libraryName) := by
  intro kind kind' same
  have apart : ∀ isIep, ∀ marker ∈
      [methodMangledMarker, byte 'R', wrapperMarker],
      (iepSuffix isIep).head? ≠ some marker := by decide +kernel
  cases kind <;> cases kind'
  case object.object isIep isIep' =>
    rw [(number_unique (congrArg (mangleInteger 0 ++ ·) same)).2]
  case wrapper.wrapper => rfl
  case genericMethod.genericMethod number library isIep number' library'
      isIep' =>
    have free : ∀ library : NameText, ∀ character ∈
        (if libraryName.1.text = library.1.text then []
          else mangled library.1.text),
        character ∉ [methodMangledMarker] := by
      intro library character member isMarker
      rw [List.mem_singleton.mp isMarker] at member
      split at member
      · cases member
      · exact methodMangledMarker_notMem_mangled library.1.hash_notMem_text
          member
    have nonempty := fun library : NameText =>
      mangled_nonempty library.1.text_nonempty
    obtain ⟨libraries, rest⟩ := front_unique (free library) (free library')
      (by simp) (by simp) (List.cons.inj same).2
    obtain ⟨rfl, rfl⟩ := number_unique (List.cons.inj rest).2
    have equal : library = library' := by
      split at libraries <;> split at libraries
      · next first second => exact NameText.eq_of_text (first ▸ second)
      · exact absurd libraries.symm (nonempty library')
      · exact absurd libraries (nonempty library)
      · exact NameText.eq_of_mangled libraries
    rw [equal]
  case domain.domain number library number' library' =>
    have free : ∀ library : NameText, ∀ character ∈ mangled library.1.text,
        character ∉ [byte 'R'] := by
      intro library character member isMarker
      rw [List.mem_singleton.mp isMarker] at member
      exact expected_of_mem_mangled member (by decide)
    have starts : ∀ rest : ByteString, ∀ character ∈
        (domainMangledMarkerString ++ rest).head?,
        character ∈ [byte 'R'] := by
      rintro rest character ⟨⟩
      decide
    obtain ⟨libraries, rest⟩ := front_unique (free library) (free library')
      (starts _) (starts _) (List.append_cancel_left same)
    obtain ⟨rfl, -⟩ := @number_unique number number' false false
      (by rw [List.append_cancel_left rest])
    rw [NameText.eq_of_mangled libraries]
  all_goals
    have heads := congrArg List.head? same
    first
      | exact absurd heads (apart _ _ (by decide))
      | exact absurd heads.symm (apart _ _ (by decide))
      | exact absurd (Option.some.inj heads) (by decide)

end OpenDylan.Compiler.Mangling
