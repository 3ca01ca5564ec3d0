import Mathlib

/-!
# Name mangling

Names of Dylan bindings become symbols of the object files.  A character that
a C identifier may not contain is replaced by a capital letter or written as
its decimal code between two escape markers; a binding is the mangled name of
its variable followed by those of its module and library behind a marker each.
Demangling reads such symbols back.

Manglers with prefix and suffix options and other handler functions than the
default one are left out.  An error is the result `none`.
-/

namespace OpenDylan.Compiler.Mangling

/-! ## Characters -/

/-- A `<byte-character>`, as its code. -/
abbrev ByteCharacter : Type := Fin 256

scoped instance codesNeZero : NeZero 256 := ⟨by decide⟩

scoped instance byteLawfulBEq : LawfulBEq ByteCharacter := inferInstance

/-- A `<byte-string>` -/
abbrev ByteString : Type := List ByteCharacter

/-- The byte character of a character literal. -/
def byte (character : Char) : ByteCharacter :=
  Fin.ofNat 256 character.toNat

/-- The byte string of a string literal. -/
def bytes (string : String) : ByteString :=
  string.toList.map byte

/-- `as-lowercase` -/
def asLowercase (character : ByteCharacter) : ByteCharacter :=
  if byte 'A' ≤ character ∧ character ≤ byte 'Z' then
    character + (byte 'a' - byte 'A')
  else
    character

/-- The characters that stand for themselves. -/
def allowable (character : ByteCharacter) : Bool :=
  (byte 'a' ≤ character && character ≤ byte 'z') ||
    (byte '0' ≤ character && character ≤ byte '9')

/-- The characters that a C identifier may contain. -/
def identifierCharacter (character : ByteCharacter) : Bool :=
  allowable character || character = byte '_' ||
    (byte 'A' ≤ character && character ≤ byte 'Z')

/-! ## Tables -/

/-- `$module-marker` -/
def moduleMarker : ByteCharacter := byte 'Y'

/-- `$library-marker` -/
def libraryMarker : ByteCharacter := byte 'V'

/-- `$escape-marker` -/
def escapeMarker : ByteCharacter := byte 'Z'

/-- `$method-mangled-marker` -/
def methodMangledMarker : ByteCharacter := byte 'M'

/-- `$dylan-module-marker` -/
def dylanModuleMarker : ByteCharacter := byte 'K'

/-- `$all-decoration-markers` -/
def allDecorationMarkers : List ByteCharacter :=
  [byte 'K', byte 'I', byte 'J', byte '_', byte 'W', byte 'I']

/-- `$mangles-data`, the method marker and the slot marker at the end. -/
def manglesData : List (ByteCharacter × ByteCharacter) :=
  [(byte '-', byte '_'), (byte '!', byte 'X'), (byte '$', byte 'D'),
    (byte '%', byte 'P'), (byte '*', byte 'T'), (byte '/', byte 'S'),
    (byte '<', byte 'L'), (byte '>', byte 'G'), (byte '?', byte 'Q'),
    (byte '+', byte 'A'), (byte '&', byte 'B'), (byte '^', byte 'C'),
    (byte '_', byte 'U'), (byte '@', byte 'O'), (byte '=', byte 'E'),
    (byte '~', byte 'N'), (byte '#', methodMangledMarker),
    (byte ',', byte 'H')]

/-- `$mangle-dylan-module` -/
def mangleDylanModule : List (ByteString × ByteCharacter) :=
  [(bytes "dylan", byte 'd'), (bytes "internal", byte 'i'),
    (bytes "dylan-primitives", byte 'p'), (bytes "dylan-extensions", byte 'e'),
    (bytes "dylan-c-ffi", byte 'c'), (bytes "dylan-incremental", byte 'n'),
    (bytes "dylan-threads", byte 't'), (bytes "dispatch-engine", byte 'g'),
    (bytes "machine-word-lowlevel", byte 'm')]

/-! ## Mangling -/

/-- `$number-characters`; the digit is below ten. -/
def numberCharacter (digit : Nat) : ByteCharacter :=
  Fin.ofNat 256 (48 + digit)

/-- `mangle-integer` -/
def mangleInteger (number : Nat) : ByteString :=
  if number / 10 = 0 then
    [numberCharacter (number % 10)]
  else
    mangleInteger (number / 10) ++ [numberCharacter (number % 10)]
termination_by number
decreasing_by omega

/-- The character that replaces another one: the entries of the mangler table
that are characters. -/
def replacement (character : ByteCharacter) : Option ByteCharacter :=
  if allowable character then
    some character
  else
    (manglesData.find? fun mangle => mangle.1 = character).map Prod.snd

/-- The table of `initialize-mangler-table`. -/
def manglerTable (character : ByteCharacter) : ByteString :=
  match replacement character with
  | some other => [other]
  | none => escapeMarker :: (mangleInteger character ++ [escapeMarker])

/-- A mangler or demangler: its buffer. -/
structure Mangler where
  buffer : ByteString

/-- `mangler-reset` -/
def manglerReset (_ : Mangler) : Mangler where
  buffer := []

/-- `mangle-raw-into` -/
def mangleRawInto (mangler : Mangler) (name : ByteString) : Mangler where
  buffer := mangler.buffer ++ name

/-- `mangle-name-into` of a byte string. -/
def mangleNameInto (mangler : Mangler) (name : ByteString) : Mangler :=
  name.foldl (fun mangler character =>
    mangleRawInto mangler (manglerTable character)) mangler

/-- `mangle-name-raw` of a byte string. -/
def mangleNameRaw (mangler : Mangler) (name : ByteString) : ByteString :=
  (mangleNameInto (manglerReset mangler) name).buffer

/-! ## Demangling -/

/-- The entries of the demangler table. -/
inductive Demangling where
  | unexpected
  | escape
  | character (character : ByteCharacter)
deriving DecidableEq

/-- The table of `initialize-demangler-table`. -/
def demanglerTable (character : ByteCharacter) : Demangling :=
  if allowable character then
    .character character
  else
    match manglesData.find? fun mangle => mangle.2 = character with
    | some mangle => .character mangle.1
    | none => if character = escapeMarker then .escape else .unexpected

/-- The local method `read-next` of `demangle-escape`: the code and what is
left of the name. -/
def readNext (code : Nat) : ByteString → Nat × ByteString
  | [] => (code, [])
  | character :: rest =>
      if byte '0' ≤ character ∧ character ≤ byte '9' then
        readNext (code * 10 + (character.val - 48)) rest
      else
        (code, character :: rest)

/-- `demangle-escape`, behind the escape marker. -/
def demangleEscape (name : ByteString) : Nat × ByteString :=
  match readNext 0 name with
  | (code, []) => (code, [])
  | (code, character :: rest) =>
      (code, if character = escapeMarker then rest else character :: rest)

/-- `default-demangler-handler-function` -/
def defaultDemanglerHandlerFunction (character : ByteCharacter) :
    ByteString :=
  if character ∈ allDecorationMarkers then [] else [character]

theorem readNext_length (code : Nat) (name : ByteString) :
    (readNext code name).2.length ≤ name.length := by
  induction name generalizing code with
  | nil => simp [readNext]
  | cons character rest ih =>
      rw [readNext]
      split
      · exact Nat.le_trans (ih _) (Nat.le_succ _)
      · exact Nat.le_refl _

theorem demangleEscape_length (name : ByteString) :
    (demangleEscape name).2.length ≤ name.length := by
  have read := readNext_length 0 name
  rw [demangleEscape]
  split
  case h_1 code found => simp
  case h_2 code character rest found =>
    rw [found] at read
    split
    · exact Nat.le_trans (Nat.le_succ _) read
    · exact read

/-- `demangle-name-into` with the default handler function. -/
def demangleNameInto (mangler : Mangler) : ByteString → Option Mangler
  | [] => some mangler
  | character :: rest =>
      match demanglerTable character with
      | .character other =>
          demangleNameInto (mangleRawInto mangler [other]) rest
      | .escape =>
          if byteCode : (demangleEscape rest).1 < 256 then
            demangleNameInto
              (mangleRawInto mangler [⟨(demangleEscape rest).1, byteCode⟩])
              (demangleEscape rest).2
          else
            none
      | .unexpected =>
          demangleNameInto
            (mangleRawInto mangler (defaultDemanglerHandlerFunction character))
            rest
termination_by name => name.length
decreasing_by
  · simp
  · exact Nat.lt_succ_of_le (demangleEscape_length rest)
  · simp

/-- `demangle-name-raw` -/
def demangleNameRaw (mangler : Mangler) (name : ByteString) :
    Option ByteString :=
  (demangleNameInto (manglerReset mangler) name).map Mangler.buffer

/-! ## The two tables -/

/-- Replacements are read back, and are legal. -/
theorem replacement_demangled (character other : ByteCharacter)
    (replaced : replacement character = some other) :
    demanglerTable other = .character character ∧
      identifierCharacter other = true := by
  have known : ∀ character : ByteCharacter,
      (replacement character).all (fun other =>
        demanglerTable other = .character character ∧
          identifierCharacter other = true) = true := by
    decide +kernel
  have all := known character
  rw [replaced, Option.all_some] at all
  exact of_decide_eq_true all

theorem escapeMarker_demangled : demanglerTable escapeMarker = .escape := by
  decide

theorem numberCharacter_val {digit : Nat} (small : digit < 10) :
    (numberCharacter digit).val = 48 + digit := by
  simp [numberCharacter]
  omega

theorem numberCharacter_digit {digit : Nat} (small : digit < 10) :
    byte '0' ≤ numberCharacter digit ∧
      numberCharacter digit ≤ byte '9' := by
  have value := numberCharacter_val small
  constructor
  · show 48 ≤ (numberCharacter digit).val
    omega
  · show (numberCharacter digit).val ≤ 57
    omega

/-- The digits of an integer are read back. -/
theorem readNext_mangleInteger (number : Nat) (rest : ByteString) :
    readNext 0 (mangleInteger number ++ rest) = readNext number rest := by
  induction number using Nat.strongRecOn generalizing rest with
  | ind number ih =>
      have small : number % 10 < 10 := Nat.mod_lt _ (by decide)
      have last : ∀ code, readNext code
          (numberCharacter (number % 10) :: rest) =
            readNext (code * 10 + number % 10) rest := by
        intro code
        rw [readNext, if_pos (numberCharacter_digit small),
          numberCharacter_val small, Nat.add_sub_cancel_left]
      rw [mangleInteger]
      split
      case isTrue single =>
        rw [List.singleton_append, last]
        congr 1
        omega
      case isFalse several =>
        rw [List.append_assoc, List.singleton_append, ih _ (by omega), last]
        congr 1
        omega

theorem mangleInteger_allowable (number : Nat) :
    ∀ character ∈ mangleInteger number, allowable character = true := by
  have digit : ∀ {digit : Nat}, digit < 10 →
      allowable (numberCharacter digit) = true := by
    intro digit small
    have between := numberCharacter_digit small
    simp [allowable, between]
  induction number using Nat.strongRecOn with
  | ind number ih =>
      have small : number % 10 < 10 := Nat.mod_lt _ (by decide)
      intro character member
      rw [mangleInteger] at member
      split at member
      case isTrue single =>
        rw [List.mem_singleton.mp member]
        exact digit small
      case isFalse several =>
        rcases List.mem_append.mp member with earlier | last
        · exact ih _ (by omega) character earlier
        · rw [List.mem_singleton.mp last]
          exact digit small

/-! ## Round trip of names -/

/-- A mangled name is the concatenation of its mangled characters. -/
theorem mangleNameInto_buffer (mangler : Mangler) (name : ByteString) :
    (mangleNameInto mangler name).buffer =
      mangler.buffer ++ name.flatMap manglerTable := by
  induction name generalizing mangler with
  | nil => simp [mangleNameInto]
  | cons character rest ih =>
      rw [mangleNameInto, List.foldl_cons, ← mangleNameInto, ih]
      simp [mangleRawInto]

theorem mangleNameRaw_eq (mangler : Mangler) (name : ByteString) :
    mangleNameRaw mangler name = name.flatMap manglerTable := by
  rw [mangleNameRaw, mangleNameInto_buffer]
  rfl

/-- One mangled character is read back, whatever follows it. -/
theorem demangleNameInto_manglerTable (mangler : Mangler)
    (character : ByteCharacter) (rest : ByteString) :
    demangleNameInto mangler (manglerTable character ++ rest) =
      demangleNameInto (mangleRawInto mangler [character]) rest := by
  rw [manglerTable]
  cases replaced : replacement character with
  | some other =>
      rw [List.singleton_append, demangleNameInto,
        (replacement_demangled character other replaced).1]
  | none =>
      have escaped : demangleEscape
          (mangleInteger character ++ escapeMarker :: rest) =
            (character.val, rest) := by
        rw [demangleEscape, readNext_mangleInteger, readNext,
          if_neg (by decide)]
        simp
      rw [List.cons_append, List.append_assoc, List.singleton_append,
        demangleNameInto, escapeMarker_demangled]
      simp only [escaped]
      rw [dif_pos character.isLt]

theorem demangleNameInto_mangled (mangler : Mangler) (name : ByteString) :
    demangleNameInto mangler (name.flatMap manglerTable) =
      some (mangleRawInto mangler name) := by
  induction name generalizing mangler with
  | nil => simp [demangleNameInto, mangleRawInto]
  | cons character rest ih =>
      rw [List.flatMap_cons, demangleNameInto_manglerTable, ih]
      simp [mangleRawInto]

theorem demangleNameRaw_mangled (mangler : Mangler) (name : ByteString) :
    demangleNameRaw mangler (name.flatMap manglerTable) = some name := by
  rw [demangleNameRaw, demangleNameInto_mangled]
  rfl

theorem manglerTable_identifier (character : ByteCharacter) :
    ∀ other ∈ manglerTable character, identifierCharacter other = true := by
  intro other member
  rw [manglerTable] at member
  cases replaced : replacement character with
  | some single =>
      rw [replaced, List.mem_singleton] at member
      rw [member]
      exact (replacement_demangled character single replaced).2
  | none =>
      have marker : identifierCharacter escapeMarker = true := by decide
      rw [replaced] at member
      simp only [List.mem_cons, List.mem_append, List.not_mem_nil,
        or_false] at member
      rcases member with rfl | digit | rfl
      · exact marker
      · simp [identifierCharacter, mangleInteger_allowable _ other digit]
      · exact marker

theorem flatMap_manglerTable_injective :
    Function.Injective fun name : ByteString => name.flatMap manglerTable := by
  intro left right same
  have first := demangleNameRaw_mangled ⟨[]⟩ left
  rw [show left.flatMap manglerTable = right.flatMap manglerTable from same,
    demangleNameRaw_mangled] at first
  exact (Option.some.inj first).symm

/-- Mangling a byte string loses nothing and yields characters of C
identifiers only. -/
theorem mangleNameRaw_lossless (mangler demangler : Mangler) :
    (∀ name, demangleNameRaw demangler (mangleNameRaw mangler name) =
      some name) ∧
    (∀ name, ∀ character ∈ mangleNameRaw mangler name,
      identifierCharacter character = true) ∧
    Function.Injective (mangleNameRaw mangler) := by
  refine ⟨?_, ?_, ?_⟩
  · intro name
    rw [mangleNameRaw_eq, demangleNameRaw_mangled]
  · intro name character member
    rw [mangleNameRaw_eq, List.mem_flatMap] at member
    obtain ⟨source, -, inside⟩ := member
    exact manglerTable_identifier source character inside
  · intro left right same
    rw [mangleNameRaw_eq, mangleNameRaw_eq] at same
    exact flatMap_manglerTable_injective same

end OpenDylan.Compiler.Mangling
