import OpenDylan.System.LocatorStrings

/-!
# Microsoft locators

Two separators of one kind begin a host, and it is an error when none comes
after it; without a host, a letter and a colon are a drive.  A colon that comes
right after the separators at the start is taken for that of a drive as well.
-/

namespace OpenDylan.System.Locators

open Lib.Words

namespace Microsoft

variable {string front name text rest : List Char} {character : Char}

/-! ## Servers -/

/-- The server of a string, and the string without it. -/
inductive ServerPart : List Char → Option Server → List Char → Prop
  | unc {mark delimiter : Char} {host rest : List Char}
      (isMark : isSeparator mark = true) (plain : Plain isSeparator host)
      (ends : isSeparator delimiter = true) :
      ServerPart (mark :: mark :: (host ++ delimiter :: rest))
        (some (.unc host)) (delimiter :: rest)
  | volume {drive : Char} {rest : List Char}
      (letter : isSeparator drive = false) :
      ServerPart (drive :: ':' :: rest) (some (.volume drive)) rest
  | none {string : List Char}
      (noHost : ∀ mark rest, isSeparator mark = true →
        string ≠ mark :: mark :: rest)
      (noDrive : ∀ drive rest, isSeparator drive = false →
        string ≠ drive :: ':' :: rest) :
      ServerPart string none string

/-- A host begins, and no separator comes after it. -/
def IncompleteHost (string : List Char) : Prop :=
  ∃ mark host, isSeparator mark = true ∧ Plain isSeparator host ∧
    string = mark :: mark :: host

/-- A colon comes right after the separators at the start, which begin no
host, and separators after it. -/
def ColonFirst (string : List Char) : Prop :=
  (∀ mark rest, isSeparator mark = true → string ≠ mark :: mark :: rest) ∧
    ∃ marks rest, marks ≠ [] ∧ (∀ mark ∈ marks, isSeparator mark = true) ∧
      string = marks ++ ':' :: rest ∧ ¬Plain isSeparator rest

/-- A drive comes before a name of a file without a separator, or with nothing
but `.` in between. -/
def DriveBeforeName (string : List Char) : Prop :=
  ∃ drive rest, isSeparator drive = false ∧ string = drive :: ':' :: rest ∧
    (Plain isSeparator rest ∨
      ∃ front character name, rest = front ++ character :: name ∧
        isSeparator character = true ∧ Plain isSeparator name ∧ name ≠ [] ∧
          isRelative isSeparator rest = true ∧
            words isSeparator front = [['.']])

theorem isSeparator_separator : isSeparator separator = true := rfl

theorem isSeparator_iff :
    isSeparator character = true ↔ character = '\\' ∨ character = '/' := by
  unfold isSeparator
  rw [Bool.or_eq_true, beq_iff_eq, beq_iff_eq]

theorem prefixEqual_pair {mark : Char} :
    prefixEqual string [mark, mark] = true ↔
      ∃ rest, string = mark :: mark :: rest := by
  unfold prefixEqual
  rw [decide_eq_true_iff]
  constructor
  · rintro ⟨_, same⟩
    refine ⟨string.drop 2, ?_⟩
    have whole := List.take_append_drop 2 string
    change string.take 2 = [mark, mark] at same
    rw [same] at whole
    exact whole.symm
  · rintro ⟨rest, whole⟩
    subst whole
    simp

/-- The prefixes of a host are two separators of one kind. -/
theorem unc_iff :
    (prefixEqual string uncPrefix ||
        prefixEqual string alternativeUncPrefix) = true ↔
      ∃ mark rest, isSeparator mark = true ∧
        string = mark :: mark :: rest := by
  unfold uncPrefix alternativeUncPrefix
  rw [Bool.or_eq_true, prefixEqual_pair, prefixEqual_pair]
  constructor
  · rintro (⟨rest, whole⟩ | ⟨rest, whole⟩)
    · exact ⟨'\\', rest, rfl, whole⟩
    · exact ⟨'/', rest, rfl, whole⟩
  · rintro ⟨mark, rest, isMark, whole⟩
    cases isSeparator_iff.mp isMark with
    | inl backslash =>
        subst backslash
        exact Or.inl ⟨rest, whole⟩
    | inr slash =>
        subst slash
        exact Or.inr ⟨rest, whole⟩

/-- A string that does not begin with a separator and a colon. -/
def NoColonSecond (string : List Char) : Prop :=
  ∀ mark rest, isSeparator mark = true → string ≠ mark :: ':' :: rest

/-- The server that the code finds. -/
theorem ServerPart.serverOf {server : Option Server}
    (part : ServerPart string server rest) (clear : NoColonSecond string) :
    ∃ position, serverOf string = .ok (server, position) ∧
      position ≤ string.length ∧ string.drop position = rest := by
  unfold Microsoft.serverOf
  cases part with
  | unc isMark plain ends =>
      rename_i mark delimiter host rest
      rw [if_pos (unc_iff.mpr ⟨_, _, isMark, rfl⟩)]
      have found : findDelimiters (mark :: mark :: (host ++ delimiter :: rest))
          isSeparator uncPrefix.length = some (2 + host.length) :=
        findDelimitersLoop_first plain ends
      simp only [found]
      refine ⟨2 + host.length, ?_, ?_, ?_⟩
      · have copied : copySequence
            (mark :: mark :: (host ++ delimiter :: rest)) uncPrefix.length
              (2 + host.length) = host := by
          unfold copySequence uncPrefix
          rw [Nat.add_comm]
          simp
        rw [copied]
      · simp only [List.length_cons, List.length_append]
        omega
      · rw [Nat.add_comm]
        simp
  | volume letter =>
      rename_i drive
      rw [if_neg]
      · exact ⟨2, rfl, by simp, rfl⟩
      · rw [unc_iff]
        rintro ⟨mark, rest, isMark, whole⟩
        have first := List.cons.inj whole
        rw [first.1, isMark] at letter
        cases letter
  | none noHost noDrive =>
      rw [if_neg]
      · refine ⟨0, ?_, Nat.zero_le _, rfl⟩
        split
        · next drive tail =>
            cases here : isSeparator drive with
            | true => exact absurd rfl (clear drive tail here)
            | false => exact absurd rfl (noDrive drive tail here)
        · rfl
      · rw [unc_iff]
        rintro ⟨mark, rest, isMark, whole⟩
        exact noHost mark rest isMark whole

theorem ServerPart.directoryAsLocator {server : Option Server}
    (part : ServerPart string server rest) (clear : NoColonSecond string) :
    directoryAsLocator string =
      .ok (directoryOf isSeparator server rest) := by
  obtain ⟨position, found, inside, isRest⟩ := part.serverOf clear
  unfold Microsoft.directoryAsLocator
  rw [found]
  show Except.ok (makeDirectory server
    (parsePath string position isSeparator).1
      (parsePath string position isSeparator).2) = _
  rw [parsePath_eq inside, isRest]
  rfl

/-- A string that begins with a host but does not end it. -/
theorem IncompleteHost.serverOf (incomplete : IncompleteHost string) :
    serverOf string = .error (.invalidDirectory string) := by
  obtain ⟨mark, host, isMark, plain, whole⟩ := incomplete
  subst whole
  unfold Microsoft.serverOf
  rw [if_pos (unc_iff.mpr ⟨_, _, isMark, rfl⟩)]
  have notFound : findDelimiters (mark :: mark :: host) isSeparator
      uncPrefix.length = none := findDelimitersLoop_plain plain
  simp only [notFound]

theorem ServerPart.noHost (part : ServerPart string Option.none rest) :
    ∀ mark rest, isSeparator mark = true →
      string ≠ mark :: mark :: rest := by
  cases part with
  | none noHost _ => exact noHost

/-- Every string has a server part when it begins no host that it does not
end. -/
theorem serverPart_exists (complete : ¬IncompleteHost string) :
    ∃ server rest, ServerPart string server rest := by
  by_cases host : ∃ mark rest, isSeparator mark = true ∧
      string = mark :: mark :: rest
  · obtain ⟨mark, rest, isMark, whole⟩ := host
    cases split_at_first isSeparator rest with
    | inl plain => exact absurd ⟨mark, rest, isMark, plain, whole⟩ complete
    | inr split =>
        obtain ⟨front, character, last, isRest, plain, delimiter⟩ := split
        subst isRest
        subst whole
        exact ⟨_, _, ServerPart.unc isMark plain delimiter⟩
  · by_cases volume : ∃ drive rest, isSeparator drive = false ∧
        string = drive :: ':' :: rest
    · obtain ⟨drive, rest, letter, whole⟩ := volume
      subst whole
      exact ⟨_, _, ServerPart.volume letter⟩
    · refine ⟨_, _, ServerPart.none ?_ ?_⟩
      · intro mark rest isMark whole
        exact host ⟨mark, rest, isMark, whole⟩
      · intro drive rest letter whole
        exact volume ⟨drive, rest, letter, whole⟩

theorem ends_of_suffix {before after : List Char}
    (whole : before ++ after = front ++ [character]) (some : after ≠ []) :
    ∃ rest, after = rest ++ [character] := by
  obtain ⟨rest, last, isAfter⟩ :=
    (List.eq_nil_or_concat after).resolve_left some
  rw [List.concat_eq_append] at isAfter
  subst isAfter
  rw [← List.append_assoc] at whole
  have same := List.append_inj_right' whole rfl
  rw [same]
  exact ⟨rest, rfl⟩

theorem colon_not_separator : isSeparator ':' = false := rfl

/-- A colon is not the end of a string that ends with a separator. -/
theorem colon_rest {before : List Char}
    (delimiter : isSeparator character = true)
    (whole : before ++ ':' :: rest = front ++ [character]) :
    ∃ others, rest = others ++ [character] := by
  have split : (before ++ [':']) ++ rest = front ++ [character] := by
    rw [List.append_assoc]
    exact whole
  apply ends_of_suffix split
  intro nothing
  subst nothing
  have last := congrArg List.getLast? whole
  rw [List.getLast?_concat, List.getLast?_concat] at last
  have isColon : ':' = character := Option.some.inj last
  rw [← isColon, colon_not_separator] at delimiter
  cases delimiter

/-- The first two letters of a string are those of its directory, or the
directory is a separator alone. -/
theorem first_letters {first second : Char} {tail : List Char}
    (whole : (front ++ [character]) ++ name = first :: second :: tail) :
    (∃ others, front ++ [character] = first :: second :: others) ∨
      character = first ∧ ∃ others, name = second :: others := by
  cases front with
  | nil =>
      have split := List.cons.inj whole
      exact Or.inr ⟨split.1, tail, split.2⟩
  | cons letter front =>
      have split := List.cons.inj whole
      cases front with
      | nil =>
          have next := List.cons.inj split.2
          refine Or.inl ⟨[], ?_⟩
          rw [split.1, next.1]
          rfl
      | cons other front =>
          have next := List.cons.inj split.2
          refine Or.inl ⟨front ++ [character], ?_⟩
          rw [split.1, next.1]
          rfl

/-- The server part of a string is that of its directory. -/
theorem ServerPart.extend {server : Option Server}
    (part : ServerPart (front ++ [character]) server rest)
    (delimiter : isSeparator character = true)
    (plain : Plain isSeparator name) :
    ∃ path, rest = path ++ [character] ∧
      ServerPart (front ++ character :: name) server
        (path ++ character :: name) := by
  have longer : front ++ character :: name = (front ++ [character]) ++ name :=
    by simp
  rw [longer]
  generalize isDirectory : front ++ [character] = directory at part
  cases part with
  | unc isMark isHost ends =>
      rename_i mark first host rest
      have split : (mark :: mark :: host) ++ (first :: rest) =
          front ++ [character] := isDirectory.symm
      obtain ⟨path, isPath⟩ := ends_of_suffix split (by simp)
      refine ⟨path, isPath, ?_⟩
      have append : (mark :: mark :: (host ++ first :: rest)) ++ name =
          mark :: mark :: (host ++ first :: (rest ++ name)) := by simp
      have isRest : path ++ character :: name = first :: (rest ++ name) := by
        rw [← List.cons_append, isPath]
        simp
      rw [append, isRest]
      exact ServerPart.unc isMark isHost ends
  | volume letter =>
      rename_i drive
      have split : [drive] ++ ':' :: rest = front ++ [character] :=
        isDirectory.symm
      obtain ⟨path, isPath⟩ := colon_rest delimiter split
      refine ⟨path, isPath, ?_⟩
      have append : (drive :: ':' :: rest) ++ name =
          drive :: ':' :: (path ++ character :: name) := by
        rw [isPath]
        simp
      rw [append]
      exact ServerPart.volume letter
  | none noHost noDrive =>
      refine ⟨front, isDirectory.symm, ?_⟩
      rw [longer, isDirectory]
      apply ServerPart.none
      · intro mark tail isMark whole
        rw [← isDirectory] at whole noHost
        cases first_letters whole with
        | inl inside =>
            obtain ⟨others, same⟩ := inside
            exact noHost mark others isMark same
        | inr alone =>
            obtain ⟨others, isName⟩ := alone.2
            have notMark := plain mark (by
              rw [isName]
              exact List.mem_cons_self)
            rw [isMark] at notMark
            cases notMark
      · intro drive tail letter whole
        rw [← isDirectory] at whole noDrive
        cases first_letters whole with
        | inl inside =>
            obtain ⟨others, same⟩ := inside
            exact noDrive drive others letter same
        | inr alone =>
            rw [← alone.1, delimiter] at letter
            cases letter

theorem IncompleteHost.extend
    (incomplete : IncompleteHost (front ++ [character]))
    (delimiter : isSeparator character = true)
    (plain : Plain isSeparator name) :
    IncompleteHost (front ++ character :: name) := by
  obtain ⟨mark, host, isMark, isHost, whole⟩ := incomplete
  have split : [mark, mark] ++ host = front ++ [character] := whole.symm
  have nothing : host = [] := by
    cases List.eq_nil_or_concat host with
    | inl nothing => exact nothing
    | inr concat =>
        obtain ⟨others, last, isLast⟩ := concat
        rw [List.concat_eq_append] at isLast
        rw [isLast, ← List.append_assoc] at split
        have same := List.append_inj_right' split rfl
        have member : character ∈ host := by
          rw [isLast, same]
          simp
        have notDelimiter := isHost character member
        rw [delimiter] at notDelimiter
        cases notDelimiter
  refine ⟨mark, name, isMark, plain, ?_⟩
  rw [nothing, List.append_nil] at split
  have longer : front ++ character :: name = (front ++ [character]) ++ name :=
    by simp
  rw [longer, ← split]
  rfl

/-- The separators at the start of a text, and what comes after them. -/
theorem split_marks (text : List Char) :
    ∃ marks rest, text = marks ++ rest ∧
      (∀ mark ∈ marks, isSeparator mark = true) ∧
        isRelative isSeparator rest = true ∧
          words isSeparator text = words isSeparator rest := by
  induction text with
  | nil =>
      refine ⟨[], [], rfl, ?_, rfl, rfl⟩
      intro mark member
      cases member
  | cons letter text inductionHypothesis =>
      cases here : isSeparator letter with
      | true =>
          obtain ⟨marks, rest, whole, all, relative, same⟩ :=
            inductionHypothesis
          refine ⟨letter :: marks, rest, congrArg (List.cons letter) whole,
            ?_, relative, ?_⟩
          · intro mark member
            cases List.mem_cons.mp member with
            | inl isFirst =>
                rw [isFirst]
                exact here
            | inr later => exact all mark later
          · rw [words_cons here, same]
      | false =>
          refine ⟨[], letter :: text, rfl, ?_, ?_, rfl⟩
          · intro mark member
            cases member
          · show (!isSeparator letter) = true
            rw [here]
            rfl

/-- A relative text begins with its first word. -/
theorem first_word {first : List Char} {others : List (List Char)}
    (relative : isRelative isSeparator text = true)
    (parts : words isSeparator text = first :: others) :
    ∃ rest, text = first ++ rest ∧
      (rest = [] ∨ ∃ delimiter tail, rest = delimiter :: tail ∧
        isSeparator delimiter = true) := by
  cases split_at_first isSeparator text with
  | inl plain =>
      have some : text ≠ [] := by
        intro nothing
        rw [nothing, words_nil] at parts
        cases parts
      rw [words_plain plain some] at parts
      refine ⟨[], ?_, Or.inl rfl⟩
      rw [(List.cons.inj parts).1, List.append_nil]
  | inr split =>
      obtain ⟨front, delimiter, tail, whole, plain, isDelimiter⟩ := split
      have some : front ≠ [] := by
        intro nothing
        rw [whole, nothing] at relative
        change (!isSeparator delimiter) = true at relative
        rw [isDelimiter] at relative
        cases relative
      rw [whole, words_append isDelimiter, words_plain plain some] at parts
      refine ⟨delimiter :: tail, ?_,
        Or.inr ⟨delimiter, tail, rfl, isDelimiter⟩⟩
      rw [whole, (List.cons.inj parts).1]

/-! ## Directories -/

/-- The directory of a string in which no colon comes first. -/
theorem clear_of_colonFirst (notFirst : ¬ColonFirst
      (front ++ character :: name))
    (delimiter : isSeparator character = true) :
    NoColonSecond (front ++ [character]) := by
  intro mark rest isMark whole
  have longer : front ++ character :: name = (front ++ [character]) ++ name :=
    by simp
  apply notFirst
  rw [longer, whole]
  constructor
  · intro other tail isOther same
    have first := List.cons.inj same
    have second := List.cons.inj first.2
    rw [← second.1, colon_not_separator] at isOther
    cases isOther
  · refine ⟨[mark], rest ++ name, List.cons_ne_nil _ _, ?_, rfl, ?_⟩
    · intro other member
      rw [List.mem_singleton.mp member]
      exact isMark
    · intro plain
      have split : [mark] ++ ':' :: rest = front ++ [character] := whole.symm
      obtain ⟨others, isRest⟩ := colon_rest delimiter split
      have notDelimiter := plain character (by
        rw [isRest]
        simp)
      rw [delimiter] at notDelimiter
      cases notDelimiter

/-- The first letter of a relative path in the form in which it is printed. -/
theorem tidied_relative (relative : isRelative isSeparator text = true) :
    tidied isSeparator separator text = [] ∨
      ∃ letter letters rest, isSeparator letter = false ∧
        tidied isSeparator separator text =
          letter :: (letters ++ separator :: rest) ∧
        ∃ tail, text = letter :: (letters ++ tail) := by
  unfold Locators.tidied
  rw [relative, if_pos rfl, List.nil_append]
  cases parts : words isSeparator text with
  | nil => exact Or.inl rfl
  | cons first others =>
      have proper : first ≠ [] ∧ Plain isSeparator first := by
        apply mem_words
        rw [parts]
        exact List.mem_cons_self
      obtain ⟨tail, whole, _⟩ := first_word relative parts
      cases first with
      | nil => exact absurd rfl proper.1
      | cons letter letters =>
          refine Or.inr ⟨letter, letters, written separator others,
            proper.2 letter List.mem_cons_self, ?_, tail, whole⟩
          show letter :: (letters ++ [separator]) ++ written separator others =
            _
          simp

/-- A string without a server in which no colon comes first is printed so. -/
theorem tidied_noServer
    (noDrive : ∀ drive rest, isSeparator drive = false →
      text ≠ drive :: ':' :: rest)
    (notFirst : ∀ marks rest, marks ≠ [] →
      (∀ mark ∈ marks, isSeparator mark = true) →
        text ≠ marks ++ ':' :: rest) :
    ServerPart (tidied isSeparator separator text) none
        (tidied isSeparator separator text) ∧
      NoColonSecond (tidied isSeparator separator text) := by
  cases relative : isRelative isSeparator text with
  | true =>
      cases tidied_relative relative with
      | inl nothing =>
          rw [nothing]
          constructor
          · apply ServerPart.none
            · intro mark rest isMark whole
              cases whole
            · intro drive rest letter whole
              cases whole
          · intro mark rest isMark whole
            cases whole
      | inr starts =>
          obtain ⟨letter, letters, rest, plain, whole, tail, isText⟩ := starts
          rw [whole]
          have notMark : ∀ mark rest', isSeparator mark = true →
              letter :: (letters ++ separator :: rest) ≠ mark :: rest' := by
            intro mark rest' isMark same
            rw [(List.cons.inj same).1, isMark] at plain
            cases plain
          constructor
          · apply ServerPart.none
            · intro mark rest' isMark
              exact notMark mark (mark :: rest') isMark
            · intro drive rest' isLetter same
              have next := List.cons.inj same
              cases letters with
              | nil => cases (List.cons.inj next.2).1
              | cons second letters =>
                  have isColon := (List.cons.inj next.2).1
                  rw [isColon] at isText
                  exact noDrive letter (letters ++ tail) plain isText
          · intro mark rest' isMark
            exact notMark mark (':' :: rest') isMark
  | false =>
      obtain ⟨marks, rest, whole, all, relativeRest, same⟩ := split_marks text
      have some : marks ≠ [] := by
        intro nothing
        rw [whole, nothing, List.nil_append, relativeRest] at relative
        cases relative
      have back : tidied isSeparator separator text =
          separator :: tidied isSeparator separator rest := by
        unfold Locators.tidied
        rw [relative, relativeRest, same]
        rfl
      rw [back]
      have second : ∀ letter rest', tidied isSeparator separator rest =
          letter :: rest' → isSeparator letter = false ∧ letter ≠ ':' := by
        intro letter rest' starts
        cases tidied_relative relativeRest with
        | inl nothing =>
            rw [nothing] at starts
            cases starts
        | inr split =>
            obtain ⟨first, letters, others, plain, isRest, tail, isText⟩ :=
              split
            rw [isRest] at starts
            have isFirst := (List.cons.inj starts).1
            rw [← isFirst]
            refine ⟨plain, fun isColon => ?_⟩
            apply notFirst marks (letters ++ tail) some all
            rw [whole, isText, isColon]
      constructor
      · apply ServerPart.none
        · intro mark rest' isMark starts
          have next := List.cons.inj starts
          have notMark := (second mark rest' next.2).1
          rw [isMark] at notMark
          cases notMark
        · intro drive rest' letter starts
          rw [← (List.cons.inj starts).1, isSeparator_separator] at letter
          cases letter
      · intro mark rest' isMark starts
        exact (second ':' rest' (List.cons.inj starts).2).2 rfl

/-- What a server is printed as before the tidied rest has the same server. -/
theorem ServerPart.tidied {server : Option Server}
    (part : ServerPart (front ++ [character]) server rest)
    (delimiter : isSeparator character = true)
    (plain : Plain isSeparator name)
    (notFirst : ¬ColonFirst (front ++ character :: name)) :
    ServerPart
        ((server.elim [] serverAsString) ++
          tidied isSeparator separator rest) server
        (tidied isSeparator separator rest) ∧
      NoColonSecond ((server.elim [] serverAsString) ++
        tidied isSeparator separator rest) := by
  have extended := part.extend delimiter plain
  generalize isDirectory : front ++ [character] = directory at part
  cases part with
  | unc isMark isHost ends =>
      rename_i mark first host rest
      have absolute : isRelative isSeparator (first :: rest) = false := by
        show (!isSeparator first) = false
        rw [ends]
        rfl
      unfold Locators.tidied
      rw [absolute]
      constructor
      · exact ServerPart.unc isSeparator_separator isHost
          isSeparator_separator
      · intro mark rest isMark whole
        have second := (List.cons.inj (List.cons.inj whole).2).1
        cases second
  | volume letter =>
      constructor
      · exact ServerPart.volume letter
      · intro mark rest isMark whole
        rw [(List.cons.inj whole).1, isMark] at letter
        cases letter
  | none noHost noDrive =>
      apply tidied_noServer noDrive
      intro marks rest some all whole
      obtain ⟨path, _, extended⟩ := extended
      have longer : front ++ character :: name =
          (front ++ [character]) ++ name := by simp
      apply notFirst
      constructor
      · exact extended.noHost
      · refine ⟨marks, rest ++ name, some, all, ?_, ?_⟩
        · rw [longer, isDirectory, whole, List.append_assoc]
          rfl
        · intro isPlain
          have split : marks ++ ':' :: rest = front ++ [character] := by
            rw [isDirectory, whole]
          obtain ⟨others, isRest⟩ := colon_rest delimiter split
          have notDelimiter := isPlain character (by
            rw [isRest]
            simp)
          rw [delimiter] at notDelimiter
          cases notDelimiter

theorem directoryAsString_eq (server : Option Server) (text : List Char) :
    directoryAsString (directoryOf isSeparator server text) =
      server.elim [] serverAsString ++ tidied isSeparator separator text := by
  unfold directoryAsString
  rw [pathToString_directoryOf]
  cases server with
  | none => rfl
  | some server => rfl

theorem ServerPart.readBack {server : Option Server}
    (part : ServerPart (front ++ [character]) server rest)
    (delimiter : isSeparator character = true)
    (plain : Plain isSeparator name)
    (notFirst : ¬ColonFirst (front ++ character :: name)) :
    ReadBack separator Microsoft.directoryAsLocator directoryAsString
      (directoryOf isSeparator server rest) := by
  have printed := part.tidied delimiter plain notFirst
  obtain ⟨path, isPath, _⟩ := part.extend delimiter plain
  obtain ⟨before, ends⟩ : ∃ before,
      Locators.tidied isSeparator separator rest = before ++ [separator] := by
    apply tidied_ends
    rw [isPath]
    simp
  refine ⟨server.elim [] serverAsString ++ before, ?_, ?_⟩
  · rw [directoryAsString_eq, ends, List.append_assoc]
  · rw [List.append_assoc, ← ends,
      printed.1.directoryAsLocator printed.2,
      directoryOf_tidied server rest isSeparator_separator]

/-- What comes before the path in a string with native separators. -/
theorem ServerPart.native {server : Option Server}
    (part : ServerPart string server rest)
    (native : ∀ letter ∈ string, isSeparator letter = true →
      letter = separator) :
    server.elim [] serverAsString ++ rest = string := by
  cases part with
  | unc isMark isHost ends =>
      rename_i mark first host rest
      have isNative := native mark List.mem_cons_self isMark
      rw [isNative]
      simp [serverAsString, uncPrefix, separator]
  | volume letter => rfl
  | none noHost noDrive => rfl

/-- The current directory that is left out of a file has no server, unless it
has a drive. -/
theorem ServerPart.current {server : Option Server} {path : List Char}
    (part : ServerPart string server (path ++ character :: name))
    (delimiter : isSeparator character = true)
    (plain : Plain isSeparator name)
    (notLost : ¬DriveBeforeName string)
    (relative : isRelative isSeparator (path ++ [character]) = true)
    (onlySelf : words isSeparator (path ++ [character]) = [['.']])
    (nonempty : name ≠ []) : server = Option.none := by
  have relativeName :
      isRelative isSeparator (path ++ character :: name) = true := by
    rw [isRelative_append]
    exact relative
  rw [words_ended delimiter] at onlySelf
  generalize isRest : path ++ character :: name = rest at part relativeName
  cases part with
  | unc isMark isHost ends =>
      change (!isSeparator _) = true at relativeName
      rw [ends] at relativeName
      cases relativeName
  | volume letter =>
      exact absurd ⟨_, rest, letter, rfl, Or.inr ⟨path, character, name,
        isRest.symm, delimiter, plain, nonempty, relativeName, onlySelf⟩⟩ notLost
  | none noHost noDrive => rfl

/-! ## Strings -/

/-- A string that begins no host that it does not end, and in which no colon
comes first, is read as a Microsoft locator that is read back from what is
printed for it; the locator says what the string says unless the string has a
drive that comes right before the name of a file, and is printed as the string
when that is neat. -/
theorem asLocator_spec (complete : ¬IncompleteHost string)
    (notFirst : ¬ColonFirst string) :
    ∃ server rest locator, ServerPart string server rest ∧
      asLocator string = .ok locator ∧
        asLocator (asString locator) = .ok locator ∧
          (¬DriveBeforeName string →
            locator.reading = readOff isSeparator server rest) ∧
          ((∀ letter ∈ string, isSeparator letter = true →
              letter = separator) →
            Neat isSeparator separator rest →
              asString locator = string) := by
  cases split_at_last isSeparator string with
  | inl plain =>
      obtain ⟨server, rest, part⟩ := serverPart_exists complete
      refine ⟨server, rest, _, part, fileSystemAsLocator_plain plain, ?_, ?_,
        ?_⟩
      · show asLocator (named none string).locatorName = _
        rw [locatorName_named]
        exact fileSystemAsLocator_plain plain
      · intro notLost
        rw [reading_named_none]
        cases part with
        | unc isMark isHost ends =>
            have notMark := plain _ List.mem_cons_self
            rw [isMark] at notMark
            cases notMark
        | volume letter =>
            apply absurd _ notLost
            refine ⟨_, rest, letter, rfl, Or.inl ?_⟩
            intro other member
            exact plain other
              (List.mem_cons_of_mem _ (List.mem_cons_of_mem _ member))
        | none noHost noDrive => exact (readOff_plain none plain).symm
      · intro _ _
        exact locatorName_named none string
  | inr split =>
      obtain ⟨front, character, name, whole, delimiter, plain⟩ := split
      subst whole
      have completeDirectory : ¬IncompleteHost (front ++ [character]) :=
        fun incomplete => complete (incomplete.extend delimiter plain)
      obtain ⟨server, rest, part⟩ := serverPart_exists completeDirectory
      have clear := clear_of_colonFirst notFirst delimiter
      have read := part.directoryAsLocator clear
      have back := part.readBack delimiter plain notFirst
      obtain ⟨path, isPath, extended⟩ := part.extend delimiter plain
      subst isPath
      have printed : Neat isSeparator separator (path ++ character :: name) →
          (∀ letter ∈ front ++ character :: name,
            isSeparator letter = true → letter = separator) →
              directoryAsString (directoryOf isSeparator server
                (path ++ [character])) = front ++ [character] := by
        intro neat native
        rw [directoryAsString_eq, (neat.tidied delimiter plain).1]
        apply part.native
        intro letter member
        apply native
        have longer : front ++ character :: name =
            (front ++ [character]) ++ name := by simp
        rw [longer]
        exact List.mem_append_left name member
      have reading := fun notLost => reading_split path name server delimiter
        plain (extended.current delimiter plain notLost)
      by_cases isDirectory : name = []
      · subst isDirectory
        refine ⟨server, path ++ [character], _, extended, ?_,
          readBack_directory isSeparator_separator _ back, reading, ?_⟩
        · unfold asLocator
          rw [fileSystemAsLocator_directory delimiter, read]
          rfl
        · intro native neat
          exact printed neat native
      · simp only [if_neg isDirectory] at reading
        refine ⟨server, path ++ character :: name, _, extended, ?_,
          readBack_file isSeparator_separator plain _ isDirectory back,
          reading, ?_⟩
        · unfold asLocator
          rw [fileSystemAsLocator_file delimiter plain isDirectory, read]
          rfl
        · intro native neat
          have notCurrent : (directoryOf isSeparator server
              (path ++ [character])).isCurrentDirectory = false := by
            rw [Bool.eq_false_iff, Ne, isCurrentDirectory_directoryOf]
            exact (neat.tidied delimiter plain).2
          unfold kept
          rw [notCurrent, if_neg Bool.false_ne_true]
          show directoryAsString _ ++ (named _ name).locatorName = _
          rw [locatorName_named, printed neat native, List.append_assoc]
          rfl

/-- It is an error when a host does not end. -/
theorem asLocator_incompleteHost (incomplete : IncompleteHost string) :
    ∃ mark, asLocator string =
      .error (.invalidDirectory [mark, mark]) := by
  obtain ⟨mark, host, isMark, plain, whole⟩ := incomplete
  subst whole
  have notRead : Microsoft.directoryAsLocator ([mark] ++ [mark]) =
      .error (.invalidDirectory [mark, mark]) := by
    unfold Microsoft.directoryAsLocator
    have nothing : Plain isSeparator [] := by
      intro letter member
      cases member
    have failed : IncompleteHost [mark, mark] :=
      ⟨mark, [], isMark, nothing, rfl⟩
    show (Microsoft.serverOf [mark, mark] >>= _) = _
    rw [failed.serverOf]
    rfl
  refine ⟨mark, ?_⟩
  show asLocator ([mark] ++ mark :: host) = _
  unfold asLocator
  by_cases nothing : host = []
  · subst nothing
    rw [fileSystemAsLocator_directory isMark, notRead]
    rfl
  · rw [fileSystemAsLocator_file isMark plain nothing, notRead]
    rfl

end Microsoft

/-- What locators say is what the strings say that they are read from, and what
is printed for them is read back. -/
theorem locators_denote :
    (∀ string, ∃ locator, Posix.asLocator string = .ok locator ∧
      Posix.asLocator (Posix.asString locator) = .ok locator ∧
        locator.reading = readOff Posix.isSeparator none string ∧
          (Neat Posix.isSeparator Posix.separator string →
            Posix.asString locator = string)) ∧
      (∀ string, Microsoft.IncompleteHost string →
        ∃ mark, Microsoft.asLocator string =
          .error (.invalidDirectory [mark, mark])) ∧
      ∀ string, ¬Microsoft.IncompleteHost string →
        ¬Microsoft.ColonFirst string →
          ∃ server rest locator,
            Microsoft.ServerPart string server rest ∧
            Microsoft.asLocator string = .ok locator ∧
            Microsoft.asLocator (Microsoft.asString locator) =
              .ok locator ∧
            (¬Microsoft.DriveBeforeName string →
              locator.reading =
                readOff Microsoft.isSeparator server rest) ∧
            ((∀ letter ∈ string, Microsoft.isSeparator letter = true →
                letter = Microsoft.separator) →
              Neat Microsoft.isSeparator Microsoft.separator rest →
                Microsoft.asString locator = string) := by
  refine ⟨Posix.asLocator_spec, ?_, ?_⟩
  · intro string incomplete
    exact Microsoft.asLocator_incompleteHost incomplete
  · intro string complete notFirst
    exact Microsoft.asLocator_spec complete notFirst

/-- The strings `/a/f`, `\\\\h` and `c:\\a\\f`. -/
theorem locators_denote_examples :
    (∃ locator, Posix.asLocator ['/', 'a', '/', 'f'] = .ok locator ∧
      Posix.asString locator = ['/', 'a', '/', 'f']) ∧
      (∃ mark, Microsoft.asLocator ['\\', '\\', 'h'] =
        .error (.invalidDirectory [mark, mark])) ∧
      ∃ locator,
        Microsoft.asLocator ['c', ':', '\\', 'a', '\\', 'f'] =
          .ok locator ∧
        Microsoft.asString locator = ['c', ':', '\\', 'a', '\\', 'f'] ∧
        locator.server = some (.volume 'c') := by
  refine ⟨?_, ?_, ?_⟩
  · obtain ⟨locator, read, _, _, printed⟩ :=
      locators_denote.1 ['/', 'a', '/', 'f']
    refine ⟨locator, read, printed ⟨?_, by decide⟩⟩
    simp [Posix.isSeparator, Posix.separator]
  · apply locators_denote.2.1
    have plain : Plain Microsoft.isSeparator ['h'] := by
      simp [Plain, Microsoft.isSeparator]
    exact ⟨'\\', ['h'], rfl, plain, rfl⟩
  · have complete : ¬Microsoft.IncompleteHost
        ['c', ':', '\\', 'a', '\\', 'f'] := by
      rintro ⟨mark, host, isMark, _, whole⟩
      cases whole
    have notFirst : ¬Microsoft.ColonFirst
        ['c', ':', '\\', 'a', '\\', 'f'] := by
      rintro ⟨_, marks, rest, some, all, whole, _⟩
      cases marks with
      | nil => exact some rfl
      | cons mark marks =>
          have isMark := all mark List.mem_cons_self
          rw [← (List.cons.inj whole).1] at isMark
          cases isMark
    have notLost : ¬Microsoft.DriveBeforeName
        ['c', ':', '\\', 'a', '\\', 'f'] := by
      rintro ⟨drive, rest, _, whole, either⟩
      cases whole
      cases either with
      | inl plain => cases plain '\\' List.mem_cons_self
      | inr split =>
          obtain ⟨_, _, _, _, _, _, _, relative, _⟩ := split
          cases relative
    obtain ⟨server, rest, locator, part, read, _, reading, printed⟩ :=
      locators_denote.2.2 _ complete notFirst
    have said := reading notLost
    cases part with
    | volume letter =>
        refine ⟨locator, read, printed ?_ ⟨?_, by decide⟩,
          congrArg Reading.server said⟩
        · simp [Microsoft.isSeparator, Microsoft.separator]
        · simp [Microsoft.isSeparator, Microsoft.separator]
    | none noHost noDrive => exact absurd rfl (noDrive 'c' _ rfl)

/-- A host alone is no locator. -/
theorem no_locator_of_host :
    ¬∃ locator, Microsoft.asLocator ['\\', '\\', 'h'] = .ok locator := by
  rintro ⟨locator, read⟩
  cases read

end OpenDylan.System.Locators
