import OpenDylan.System.LocatorRoundTrip

/-!
# POSIX locators

The directories that locators are read with, and what the locators say.  Every
string is read as a POSIX locator.
-/

namespace OpenDylan.System.Locators

open Lib.Words

variable {string front name text rest : List Char} {character : Char}

/-- A directory that was read from the path of a string. -/
def directoryOf (isSeparator : Char → Bool) (server : Option Server)
    (text : List Char) : DirectoryLocator :=
  makeDirectory server (words isSeparator text)
    (isRelative isSeparator text)

theorem directoryOf_tidied {isSeparator : Char → Bool} {separator : Char}
    (server : Option Server) (text : List Char)
    (delimiter : isSeparator separator = true) :
    directoryOf isSeparator server (tidied isSeparator separator text) =
      directoryOf isSeparator server text := by
  unfold directoryOf
  rw [words_tidied delimiter, isRelative_tidied delimiter]

theorem pathToString_directoryOf {isSeparator : Char → Bool}
    {separator : Char} (server : Option Server) (text : List Char) :
    pathToString (directoryOf isSeparator server text).path
        (directoryOf isSeparator server text).relative separator =
      tidied isSeparator separator text :=
  pathToString_canonicalizePath _ _

/-- The directory of a path is the current directory when its only word is
`.`. -/
theorem isCurrentDirectory_directoryOf {isSeparator : Char → Bool}
    {server : Option Server} {text : List Char} :
    (directoryOf isSeparator server text).isCurrentDirectory = true ↔
      isRelative isSeparator text = true ∧
        words isSeparator text = [['.']] := by
  unfold DirectoryLocator.isCurrentDirectory
  rw [Bool.and_eq_true, beq_iff_eq]
  apply and_congr Iff.rfl
  constructor
  · intro path
    have names := congrArg (List.map Item.itemName) path
    change (canonicalizePath (words isSeparator text)).map Item.itemName = _
      at names
    rw [itemName_canonicalizePath] at names
    exact names
  · intro onlyWord
    show canonicalizePath (words isSeparator text) = _
    rw [onlyWord]
    rfl

theorem reading_named_none (name : List Char) :
    (Locator.file (named none name)).reading = {
      server := none
      relative := true
      path := []
      fileName := some name } :=
  congrArg (fun fileName => ({
    server := none
    relative := true
    path := []
    fileName := some fileName } : Reading)) (locatorName_named none name)

theorem reading_named_some (directory : DirectoryLocator)
    (name : List Char) :
    (Locator.file (named (some directory) name)).reading = {
      server := directory.server
      relative := directory.relative
      path := directory.path.filter fun item => item ≠ .self
      fileName := some name } :=
  congrArg (fun fileName => ({
    server := directory.server
    relative := directory.relative
    path := directory.path.filter fun item => item ≠ .self
    fileName := some fileName } : Reading))
      (locatorName_named (some directory) name)

/-- What the locators say that are read from a string with a separator, when
the directory that is left out has no server. -/
theorem reading_split {isSeparator : Char → Bool}
    (front name : List Char) (server : Option Server)
    (delimiter : isSeparator character = true)
    (plain : Plain isSeparator name)
    (served : isRelative isSeparator (front ++ [character]) = true →
      words isSeparator (front ++ [character]) = [['.']] → name ≠ [] →
        server = none) :
    (if name = [] then
        Locator.directory (directoryOf isSeparator server
          (front ++ [character]))
      else .file (named (kept (directoryOf isSeparator server
        (front ++ [character]))) name)).reading =
      readOff isSeparator server (front ++ character :: name) := by
  rw [readOff_split server delimiter plain]
  by_cases empty : name = []
  · rw [if_pos empty, if_pos empty]
    rfl
  · rw [if_neg empty, if_neg empty]
    unfold kept
    cases current : (directoryOf isSeparator server
        (front ++ [character])).isCurrentDirectory with
    | false =>
        rw [if_neg Bool.false_ne_true, reading_named_some]
        rfl
    | true =>
        have both := isCurrentDirectory_directoryOf.mp current
        rw [if_pos rfl, reading_named_none, both.1, both.2,
          served both.1 both.2 empty]
        rfl

/-! ## POSIX locators -/

namespace Posix

theorem isSeparator_separator : isSeparator separator = true := rfl

theorem directoryAsLocator_eq (string : List Char) :
    directoryAsLocator string = .ok (directoryOf isSeparator none string) := by
  unfold directoryAsLocator
  rw [parsePath_eq (Nat.zero_le _), List.drop_zero]
  rfl

theorem readBack (nonempty : text ≠ []) :
    ReadBack separator directoryAsLocator directoryAsString
      (directoryOf isSeparator none text) := by
  obtain ⟨before, ends⟩ : ∃ before,
      tidied isSeparator separator text = before ++ [separator] :=
    tidied_ends nonempty
  refine ⟨before, ?_, ?_⟩
  · unfold directoryAsString
    rw [pathToString_directoryOf, ends]
  · rw [← ends, directoryAsLocator_eq,
      directoryOf_tidied none text isSeparator_separator]

/-- A string is read as a POSIX locator that says what the string says, that is
read back from what is printed for it, and that is printed as the string when
that is neat. -/
theorem asLocator_spec (string : List Char) :
    ∃ locator, asLocator string = .ok locator ∧
      asLocator (asString locator) = .ok locator ∧
        locator.reading = readOff isSeparator none string ∧
          (Neat isSeparator separator string →
            asString locator = string) := by
  cases split_at_last isSeparator string with
  | inl plain =>
      refine ⟨_, fileSystemAsLocator_plain plain, ?_, ?_, ?_⟩
      · show asLocator (named none string).locatorName = _
        rw [locatorName_named]
        exact fileSystemAsLocator_plain plain
      · rw [readOff_plain none plain]
        exact reading_named_none string
      · intro _
        exact locatorName_named none string
  | inr split =>
      obtain ⟨front, character, name, whole, delimiter, plain⟩ := split
      subst whole
      have nonempty : front ++ [character] ≠ [] := by simp
      have back := readBack nonempty
      have reading := reading_split front name none delimiter plain
        fun _ _ _ => rfl
      by_cases isDirectory : name = []
      · rw [if_pos isDirectory] at reading
        subst isDirectory
        refine ⟨_, ?_, readBack_directory isSeparator_separator _ back,
          reading, ?_⟩
        · unfold asLocator
          rw [fileSystemAsLocator_directory delimiter,
            directoryAsLocator_eq]
          rfl
        · intro neat
          show pathToString _ _ _ = _
          rw [pathToString_directoryOf, (neat.tidied delimiter plain).1]
      · rw [if_neg isDirectory] at reading
        refine ⟨_, ?_, readBack_file isSeparator_separator plain _
          isDirectory back, reading, ?_⟩
        · unfold asLocator
          rw [fileSystemAsLocator_file delimiter plain isDirectory,
            directoryAsLocator_eq]
          rfl
        · intro neat
          have tidy := neat.tidied delimiter plain
          have notCurrent : (directoryOf isSeparator none
              (front ++ [character])).isCurrentDirectory = false := by
            rw [Bool.eq_false_iff, Ne, isCurrentDirectory_directoryOf]
            exact tidy.2
          unfold kept
          rw [notCurrent, if_neg Bool.false_ne_true]
          show pathToString _ _ _ ++ (named _ name).locatorName = _
          rw [locatorName_named, pathToString_directoryOf, tidy.1,
            List.append_assoc]
          rfl

end Posix

end OpenDylan.System.Locators
