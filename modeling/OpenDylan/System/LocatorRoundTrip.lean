import OpenDylan.System.LocatorParsing

/-!
# Locators and strings

A locator that was read from a string is printed as a string that is read as
the same locator, whatever the strings of directories are, as long as this is
so for them.
-/

namespace OpenDylan.System.Locators

open Lib.Words

variable {isSeparator : Char → Bool} {separator character : Char}
  {string front name text : List Char}

/-! ## Names -/

/-- A file locator with a name. -/
def named (directory : Option DirectoryLocator) (name : List Char) :
    FileLocator where
  directory := directory
  base :=
    match findDelimitersFromEnd name (· == '.') with
    | some position => copySequence name 0 position
    | none => name
  extension :=
    match findDelimitersFromEnd name (· == '.') with
    | some position => some (copySequence name (position + 1) name.length)
    | none => none

/-- A directory that is not the current one. -/
def kept (directory : DirectoryLocator) : Option DirectoryLocator :=
  if directory.isCurrentDirectory then none else some directory

theorem makeFile_none : makeFile none none none (some name) =
    .ok (named none name) := by
  unfold makeFile named
  cases position : findDelimitersFromEnd name (· == '.') with
  | none => simp [position]
  | some index => simp [position]

theorem makeFile_some (directory : DirectoryLocator) :
    makeFile (some directory) none none (some name) =
      .ok (named (kept directory) name) := by
  unfold makeFile named kept
  cases current : directory.isCurrentDirectory with
  | false =>
      cases position : findDelimitersFromEnd name (· == '.') with
      | none => simp [position, current]
      | some index => simp [position, current]
  | true =>
      cases position : findDelimitersFromEnd name (· == '.') with
      | none => simp [position, current]
      | some index => simp [position, current]

/-- The name of a file is the base and the extension that it is split into. -/
theorem locatorName_named (directory : Option DirectoryLocator)
    (name : List Char) : (named directory name).locatorName = name := by
  unfold named FileLocator.locatorName
  cases split_at_last (· == '.') name with
  | inl plain => simp only [findDelimitersFromEnd_plain plain]
  | inr split =>
      obtain ⟨front, character, last, whole, delimiter, plain⟩ := split
      subst whole
      have isDot : character = '.' := by simpa using delimiter
      have dot : findDelimitersFromEnd (front ++ character :: last)
          (· == '.') = some front.length :=
        findDelimitersFromEnd_last delimiter plain
      simp only [dot, copySequence_name]
      rw [isDot]
      show copySequence (front ++ '.' :: last) 0 front.length ++ ['.'] ++
        last = _
      unfold copySequence
      rw [List.drop_zero, List.take_left, List.append_assoc]
      rfl

/-! ## Strings of file-system locators -/

variable {directoryAsLocator : List Char →
    Except LocatorError DirectoryLocator}
  {directoryAsString : DirectoryLocator → List Char}

theorem fileSystemAsLocator_plain (plain : Plain isSeparator string) :
    fileSystemAsLocator isSeparator directoryAsLocator string =
      .ok (.file (named none string)) := by
  unfold fileSystemAsLocator fileAsLocator
  simp only [findDelimitersFromEnd_plain plain, makeFile_none]
  rfl

theorem fileSystemAsLocator_directory
    (delimiter : isSeparator character = true) :
    fileSystemAsLocator isSeparator directoryAsLocator
        (front ++ [character]) =
      (directoryAsLocator (front ++ [character])).map .directory := by
  have last : findDelimitersFromEnd (front ++ [character]) isSeparator =
      some front.length := by
    apply findDelimitersFromEnd_last delimiter
    intro letter member
    cases member
  unfold fileSystemAsLocator
  rw [last, if_pos]
  simp

theorem fileSystemAsLocator_file (delimiter : isSeparator character = true)
    (plain : Plain isSeparator name) (nonempty : name ≠ []) :
    fileSystemAsLocator isSeparator directoryAsLocator
        (front ++ character :: name) =
      (directoryAsLocator (front ++ [character])).map fun directory =>
        .file (named (kept directory) name) := by
  have last : findDelimitersFromEnd (front ++ character :: name) isSeparator =
      some front.length := findDelimitersFromEnd_last delimiter plain
  have length := List.length_pos_of_ne_nil nonempty
  unfold fileSystemAsLocator fileAsLocator
  rw [last, if_neg]
  · simp only [copySequence_front, copySequence_name, makeFile_some]
    cases directoryAsLocator (front ++ [character]) with
    | error problem => rfl
    | ok directory => rfl
  · intro same
    have index := Option.some.inj same
    simp only [List.length_append, List.length_cons] at index
    omega

/-- What is printed for a directory ends with a separator and is read as the
directory. -/
def ReadBack (separator : Char)
    (directoryAsLocator : List Char → Except LocatorError DirectoryLocator)
    (directoryAsString : DirectoryLocator → List Char)
    (directory : DirectoryLocator) : Prop :=
  ∃ front, directoryAsString directory = front ++ [separator] ∧
    directoryAsLocator (front ++ [separator]) = .ok directory

theorem readBack_file (delimiter : isSeparator separator = true)
    (plain : Plain isSeparator name) (directory : DirectoryLocator)
    (nonempty : name ≠ [])
    (back : ReadBack separator directoryAsLocator directoryAsString
      directory) :
    fileSystemAsLocator isSeparator directoryAsLocator
        (locatorAsString directoryAsString
          (.file (named (kept directory) name))) =
      .ok (.file (named (kept directory) name)) := by
  obtain ⟨front, printed, read⟩ := back
  unfold kept
  cases current : directory.isCurrentDirectory with
  | true =>
      rw [if_pos rfl]
      show fileSystemAsLocator isSeparator directoryAsLocator
        (named none name).locatorName = _
      rw [locatorName_named]
      exact fileSystemAsLocator_plain plain
  | false =>
      rw [if_neg Bool.false_ne_true]
      show fileSystemAsLocator isSeparator directoryAsLocator
        (directoryAsString directory ++
          (named (Option.some directory) name).locatorName) = _
      rw [locatorName_named, printed, List.append_assoc,
        List.singleton_append, fileSystemAsLocator_file delimiter plain
          nonempty,
        read]
      show Except.ok (Locator.file (named (kept directory) name)) = _
      unfold kept
      rw [current, if_neg Bool.false_ne_true]

theorem readBack_directory (delimiter : isSeparator separator = true)
    (directory : DirectoryLocator)
    (back : ReadBack separator directoryAsLocator directoryAsString
      directory) :
    fileSystemAsLocator isSeparator directoryAsLocator
        (locatorAsString directoryAsString (.directory directory)) =
      .ok (.directory directory) := by
  obtain ⟨front, printed, read⟩ := back
  show fileSystemAsLocator isSeparator directoryAsLocator
    (directoryAsString directory) = _
  rw [printed, fileSystemAsLocator_directory delimiter, read]
  rfl

/-! ## Tidied texts -/

/-- A path in the form in which it is printed. -/
def tidied (isSeparator : Char → Bool) (separator : Char)
    (text : List Char) : List Char :=
  (if isRelative isSeparator text then [] else [separator]) ++
    written separator (words isSeparator text)

theorem words_tidied (delimiter : isSeparator separator = true) :
    words isSeparator (tidied isSeparator separator text) =
      words isSeparator text := by
  have back : words isSeparator
      (written separator (words isSeparator text)) = words isSeparator text :=
    words_written delimiter fun part member => mem_words member
  unfold tidied
  cases isRelative isSeparator text with
  | true => exact back
  | false =>
      show words isSeparator (separator :: written separator _) = _
      rw [words_cons delimiter]
      exact back

theorem isRelative_tidied (delimiter : isSeparator separator = true) :
    isRelative isSeparator (tidied isSeparator separator text) =
      isRelative isSeparator text := by
  unfold tidied
  cases relative : isRelative isSeparator text with
  | false =>
      show (!(isSeparator separator)) = false
      rw [delimiter]
      rfl
  | true =>
      show isRelative isSeparator (written separator _) = true
      cases parts : words isSeparator text with
      | nil => rfl
      | cons first rest =>
          have proper : first ≠ [] ∧ Plain isSeparator first := by
            apply mem_words
            rw [parts]
            exact List.mem_cons_self
          cases first with
          | nil => exact absurd rfl proper.1
          | cons letter letters =>
              show (!isSeparator letter) = true
              rw [proper.2 letter List.mem_cons_self]
              rfl

/-- A tidied text that is not empty ends with a separator. -/
theorem tidied_ends (nonempty : text ≠ []) :
    ∃ front, tidied isSeparator separator text = front ++ [separator] := by
  unfold tidied
  by_cases none : words isSeparator text = []
  · have all := separators_of_no_words none
    refine ⟨[], ?_⟩
    cases text with
    | nil => exact absurd rfl nonempty
    | cons letter letters =>
        have here := all letter List.mem_cons_self
        have notRelative : isRelative isSeparator (letter :: letters) =
            false := by
          show (!isSeparator letter) = false
          rw [here]
          rfl
        rw [none, notRelative]
        rfl
  · obtain ⟨rest, whole⟩ : ∃ rest,
        written separator (words isSeparator text) = rest ++ [separator] :=
      written_ends none
    rw [whole, ← List.append_assoc]
    exact ⟨_, rfl⟩

/-! ## Reading off -/

/-- What a locator says. -/
structure Reading where
  server : Option Server
  relative : Bool
  path : List Item
  fileName : Option (List Char)
deriving DecidableEq

/-- What a locator says, without the items that are `#"self"`. -/
def Locator.reading (locator : Locator) : Reading where
  server := locator.server
  relative := locator.relative
  path := locator.path.filter fun item => item ≠ .self
  fileName :=
    match locator with
    | .directory _ => none
    | .file named => some named.locatorName

/-- What a string without its server says, by its separators: the parts before
the last separator are the path, and what is after it is the name of a file if
there is anything. -/
def readOff (isSeparator : Char → Bool) (server : Option Server)
    (text : List Char) : Reading where
  server := server
  relative := isRelative isSeparator text
  path := ((text.splitOnP isSeparator).dropLast.filter fun part =>
      part ≠ [] ∧ part ≠ ['.']).map fun part =>
    if part = ['.', '.'] then .parent else .name part
  fileName :=
    if text.getLast?.any isSeparator then none
    else (text.splitOnP isSeparator).getLast?

/-- The separators of a text are native, and before the last of them no part is
empty or `.`, but for what is before a separator at the start. -/
def Neat (isSeparator : Char → Bool) (separator : Char) (text : List Char) :
    Prop :=
  (∀ letter ∈ text, isSeparator letter = true → letter = separator) ∧
    ∀ part ∈ ((if isRelative isSeparator text then text
        else text.tail).splitOnP isSeparator).dropLast,
      part ≠ [] ∧ part ≠ ['.']

theorem filter_canonicalizePath (path : List (List Char)) :
    (canonicalizePath (path.filter fun part => !part.isEmpty)).filter
        (fun item => item ≠ .self) =
      (path.filter fun part => part ≠ [] ∧ part ≠ ['.']).map fun part =>
        if part = ['.', '.'] then .parent else .name part := by
  unfold canonicalizePath
  induction path with
  | nil => rfl
  | cons part path inductionHypothesis =>
      by_cases empty : part = []
      · subst empty
        simpa using inductionHypothesis
      · by_cases isSelf : part = ['.']
        · subst isSelf
          simpa using inductionHypothesis
        · by_cases isParent : part = ['.', '.']
          · subst isParent
            simpa using inductionHypothesis
          · simpa [empty, isSelf, isParent] using inductionHypothesis

theorem isRelative_append :
    isRelative isSeparator (front ++ character :: name) =
      isRelative isSeparator (front ++ [character]) := by
  cases front with
  | nil => rfl
  | cons first rest => rfl

theorem readOff_plain (server : Option Server)
    (plain : Plain isSeparator text) :
    readOff isSeparator server text = {
      server := server
      relative := true
      path := []
      fileName := some text } := by
  unfold readOff
  rw [List.splitOnP_eq_singleton plain]
  have relative : isRelative isSeparator text = true := by
    cases text with
    | nil => rfl
    | cons first rest =>
        show (!isSeparator first) = true
        rw [plain first List.mem_cons_self]
        rfl
  have last : text.getLast?.any isSeparator = false := by
    cases final : text.getLast? with
    | none => rfl
    | some letter => exact plain letter (List.mem_of_getLast? final)
  rw [relative, last]
  rfl

theorem readOff_split (server : Option Server)
    (delimiter : isSeparator character = true)
    (plain : Plain isSeparator name) :
    readOff isSeparator server (front ++ character :: name) = {
      server := server
      relative := isRelative isSeparator (front ++ [character])
      path := (canonicalizePath (words isSeparator
        (front ++ [character]))).filter fun item => item ≠ .self
      fileName := if name = [] then none else some name } := by
  have parts : (front ++ character :: name).splitOnP isSeparator =
      front.splitOnP isSeparator ++ [name] := by
    rw [List.splitOnP_append_cons front name delimiter,
      List.splitOnP_eq_singleton plain]
  unfold readOff
  rw [parts, isRelative_append, words_ended delimiter,
    List.dropLast_concat, List.getLast?_concat]
  unfold words
  rw [filter_canonicalizePath]
  congr 1
  by_cases empty : name = []
  · rw [if_pos empty, empty, List.getLast?_concat]
    show (if isSeparator character = true then none else _) = none
    rw [if_pos delimiter]
  · have notLast : (front ++ character :: name).getLast?.any isSeparator =
        false := by
      obtain ⟨rest, last, whole⟩ :=
        (List.eq_nil_or_concat name).resolve_left empty
      have member : last ∈ name := by
        rw [whole]
        simp
      rw [whole, List.concat_eq_append, ← List.cons_append,
        ← List.append_assoc, List.getLast?_concat]
      exact plain last member
    rw [if_neg empty, notLast]
    rfl

/-- A text is printed as it is when its separators are native, and no part of
it before the last of them is empty. -/
theorem tidied_of_nonempty (delimiter : isSeparator separator = true)
    (native : ∀ letter ∈ front, isSeparator letter = true →
      letter = separator)
    (plain : Plain isSeparator name)
    (nonempty : ∀ part ∈ ((if isRelative isSeparator (front ++ [separator])
        then front ++ separator :: name
        else (front ++ separator :: name).tail).splitOnP
          isSeparator).dropLast, part ≠ []) :
    tidied isSeparator separator (front ++ [separator]) =
      front ++ [separator] := by
  unfold tidied
  rw [words_ended delimiter]
  cases front with
  | nil =>
      have absolute : isRelative isSeparator ([] ++ [separator]) = false := by
        show (!isSeparator separator) = false
        rw [delimiter]
        rfl
      rw [absolute, words_nil]
      rfl
  | cons first rest =>
      cases here : isSeparator first with
      | false =>
          have relative : isRelative isSeparator
              ((first :: rest) ++ [separator]) = true := by
            show (!isSeparator first) = true
            rw [here]
            rfl
          rw [relative, if_pos rfl, List.splitOnP_append_cons _ _ delimiter,
            List.splitOnP_eq_singleton plain, List.dropLast_concat] at nonempty
          rw [relative, if_pos rfl, words_of_nonempty nonempty,
            written_parts native]
          rfl
      | true =>
          have absolute : isRelative isSeparator
              ((first :: rest) ++ [separator]) = false := by
            show (!isSeparator first) = false
            rw [here]
            rfl
          have tail : ((first :: rest) ++ separator :: name).tail =
              rest ++ separator :: name := rfl
          rw [absolute, if_neg Bool.false_ne_true, tail,
            List.splitOnP_append_cons _ _ delimiter,
            List.splitOnP_eq_singleton plain, List.dropLast_concat] at nonempty
          rw [absolute, if_neg Bool.false_ne_true, words_cons here,
            words_of_nonempty nonempty,
            written_parts fun letter member =>
              native letter (List.mem_cons_of_mem first member),
            native first List.mem_cons_self here]
          rfl

/-- A neat text is printed as it is, and its directory is not `.`. -/
theorem Neat.tidied (neat : Neat isSeparator separator
      (front ++ character :: name))
    (delimiter : isSeparator character = true)
    (plain : Plain isSeparator name) :
    tidied isSeparator separator (front ++ [character]) =
        front ++ [character] ∧
      ¬(isRelative isSeparator (front ++ [character]) = true ∧
        words isSeparator (front ++ [character]) = [['.']]) := by
  have native : character = separator :=
    neat.1 character (by simp) delimiter
  have proper := neat.2
  rw [isRelative_append] at proper
  rw [native] at proper delimiter ⊢
  constructor
  · apply tidied_of_nonempty delimiter _ plain
    · intro part member
      exact (proper part member).1
    · intro letter member
      exact neat.1 letter (List.mem_append_left _ member)
  · rintro ⟨relative, onlyDot⟩
    rw [words_ended delimiter] at onlyDot
    rw [relative, if_pos rfl, List.splitOnP_append_cons _ _ delimiter,
      List.splitOnP_eq_singleton plain, List.dropLast_concat] at proper
    rw [words_of_nonempty fun part member => (proper part member).1] at onlyDot
    have member : ['.'] ∈ front.splitOnP isSeparator := by
      rw [onlyDot]
      exact List.mem_singleton_self _
    exact (proper _ member).2 rfl

end OpenDylan.System.Locators
