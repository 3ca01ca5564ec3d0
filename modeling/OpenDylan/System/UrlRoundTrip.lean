import OpenDylan.System.UrlParts

/-!
# URLs and strings

What is printed for a URL is the string that it was read from, but for a query
or a fragment that comes right after a directory, which is lost.  A string
without a protocol is rejected as it should be, and a string with an unknown
one is not.
-/

namespace OpenDylan.System.Web

open Locators Lib.Words

variable {string front name suffix : List Char} {maximumInteger : Nat}

/-! ## The locator -/

variable {parsed : ParsedFile} {server : ServerUrl}

/-- What is printed for the directory of what was read. -/
theorem asString_makeDirectoryUrl (reads : ReadsFile parsed front name suffix)
    (server : ServerUrl) :
    (makeDirectoryUrl (some server) (words (· == '/') (front ++ ['/']))
        parsed.relative).asString =
      server.asString ++ tidied (· == '/') '/' (front ++ ['/']) := by
  rw [reads.relative_eq]
  show server.asString ++ pathToString (canonicalizePath _) _ '/' = _
  rw [pathToString_canonicalizePath]
  rfl

/-- A query or a fragment after a directory is lost. -/
theorem makeUrl_directory (reads : ReadsFile parsed front [] suffix)
    (string : List Char) (server : ServerUrl) :
    ∃ url, makeUrl string none (some server) parsed = .ok url ∧
      url.asString =
        server.asString ++ tidied (· == '/') '/' (front ++ ['/']) := by
  obtain ⟨noBase, noExtension⟩ := reads.unnamed rfl
  refine ⟨.directory (makeDirectoryUrl (some server)
    (words (· == '/') (front ++ ['/'])) parsed.relative), ?_,
    asString_makeDirectoryUrl reads server⟩
  unfold makeUrl
  simp only [reads.path_eq, noBase, noExtension]
  rfl

/-- A query or a fragment after the name of a file is kept. -/
theorem makeUrl_file (reads : ReadsFile parsed front name suffix)
    (string : List Char) (server : ServerUrl) (nonempty : name ≠ [])
    (absolute : isRelative (· == '/') (front ++ ['/']) = false) :
    ∃ url, makeUrl string none (some server) parsed = .ok url ∧
      url.asString =
        server.asString ++ tidied (· == '/') '/' (front ++ ['/']) ++
          (name ++ suffix) := by
  obtain ⟨base, isBase, whole⟩ := reads.named nonempty
  let directory := makeDirectoryUrl (some server)
    (words (· == '/') (front ++ ['/'])) parsed.relative
  let file : FileUrl := ⟨some directory, base, parsed.extension⟩
  have kept : makeFileUrl (some directory) (some base) parsed.extension =
      .ok file := by
    have notCurrent : directory.isCurrentDirectory = false := by
      show (parsed.relative && _) = false
      rw [reads.relative_eq, absolute]
      rfl
    unfold makeFileUrl
    simp only [Option.filter, notCurrent]
    rfl
  have fileName : file.locatorName = name := by
    rw [← whole]
    cases extended : parsed.extension with
    | none =>
        simp only [file, FileUrl.locatorName, extended]
        exact (List.append_nil base).symm
    | some extension =>
        simp only [file, FileUrl.locatorName, extended]
        exact List.append_assoc base ['.'] extension
  have printed : file.asString = server.asString ++
      tidied (· == '/') '/' (front ++ ['/']) ++ name := by
    show directory.asString ++ file.locatorName = _
    rw [fileName]
    exact congrArg (· ++ name) (asString_makeDirectoryUrl reads server)
  have suffixWhole := reads.suffix_eq
  unfold makeUrl
  simp only [reads.path_eq, isBase, Option.map_some, Option.isSome_some,
    Bool.true_or, if_pos]
  show ∃ url, (makeFileUrl (some directory) (some base) parsed.extension >>=
    _) = _ ∧ _
  rw [kept]
  cases query : parsed.cgiString with
  | some cgiString =>
      have noIndex := reads.oneSuffix.resolve_left (by
        rw [query]
        exact Option.some_ne_none _)
      rw [query, noIndex] at suffixWhole
      refine ⟨.cgi file cgiString, rfl, ?_⟩
      show file.asString ++ ['?'] ++ cgiString = _
      rw [printed, ← suffixWhole]
      simp [separated]
  | none =>
      rw [query] at suffixWhole
      cases fragment : parsed.index with
      | some index =>
          rw [fragment] at suffixWhole
          refine ⟨.fileIndex file index, rfl, ?_⟩
          show file.asString ++ ['#'] ++ index = _
          rw [printed, ← suffixWhole]
          simp [separated]
      | none =>
          rw [fragment] at suffixWhole
          refine ⟨.file file, rfl, ?_⟩
          show file.asString = _
          rw [printed, ← suffixWhole]
          simp [separated]

/-! ## The round trip -/

/-- What is printed for the URL of a string is the string, and a string that
does not begin with the protocol of a server is rejected by an error about
locators. -/
def RoundTrips (maximumInteger : Nat) (string : List Char) : Prop :=
  (∀ url, asUrl maximumInteger string = .ok url → HasHost string →
    CanonicalPort string → NoEmptyComponent string →
      url.asString = string) ∧
    (¬Prefixed string → ∃ message,
      asUrl maximumInteger string = .error (.locatorError message))

/-- A query or a fragment comes after the name of a file, unless the port is
too large to be read, and a string without a known protocol has no colon. -/
def Kept (maximumInteger : Nat) (string : List Char) : Prop :=
  (Prefixed string → HasHost string → CanonicalPort string →
    (∀ number, portText (afterHost string) =
      some (Nat.toDigits 10 number) → number ≤ maximumInteger) →
    NoEmptyComponent string →
      (fileText (pathText string)).getLast? = some '/' →
        fileText (pathText string) = pathText string) ∧
    (¬Prefixed string → ':' ∉ string)

theorem asUrl_of_error {error : UrlError}
    (failed : parseServer maximumInteger string none = .error error) :
    asUrl maximumInteger string = .error error := by
  unfold asUrl stringAsUrl parseUrl
  rw [failed]
  rfl

theorem parseServer_of_error {error : UrlError}
    (failed : parseProtocol string none = .error error) :
    parseServer maximumInteger string none = .error error := by
  unfold parseServer
  rw [failed]
  rfl

theorem asUrl_of_ok {server : ParsedServer} {file : ParsedFile} {stop : Nat}
    (readServer : parseServer maximumInteger string none =
      .ok (server, stop))
    (readFile : parseFile string stop = .ok file) :
    asUrl maximumInteger string =
      makeUrl string none server.makeServer file := by
  unfold asUrl stringAsUrl parseUrl
  rw [readServer]
  show ((parseFile string stop).bind _).bind _ = _
  rw [readFile]
  rfl

/-- A string with a path is printed as it is if nothing comes after a
directory. -/
theorem asUrl_printed (known : Prefixed string) (host : HasHost string)
    (canonical : CanonicalPort string)
    (fits : ∀ number, portText (afterHost string) =
      some (Nat.toDigits 10 number) → number ≤ maximumInteger)
    (proper : NoEmptyComponent string) (nonempty : pathText string ≠ []) :
    ∃ url, asUrl maximumInteger string = .ok url ∧
      (url.asString = string ↔
        ((fileText (pathText string)).getLast? = some '/' →
          fileText (pathText string) = pathText string)) := by
  cases parseServer_spec maximumInteger known host
    canonical with
  | inr tooLarge =>
      obtain ⟨⟨number, isPort, large⟩, _⟩ := tooLarge
      exact absurd (fits number isPort) (Nat.not_le_of_lt large)
  | inl served =>
      obtain ⟨_, parsedServer, server, stop, readServer, made, here, whole⟩ :=
        served
      obtain ⟨suffix, cut, ends, begins⟩ := fileEnd_spec here
      obtain ⟨front, name, isFile, plain, absolute⟩ :=
        fileText_split cut begins nonempty
      unfold NoEmptyComponent at proper
      rw [isFile] at cut ends proper ⊢
      rw [cut] at here whole ⊢
      obtain ⟨parsed, readFile, reads⟩ := parseFile_spec here ends plain begins
      have tidy : tidied (· == '/') '/' (front ++ ['/']) = front ++ ['/'] := by
        apply tidied_of_nonempty rfl _ plain
        · rw [absolute, if_neg Bool.false_ne_true]
          exact proper
        · intro letter _ slash
          exact eq_of_beq slash
      rw [asUrl_of_ok readServer readFile, made]
      by_cases unnamed : name = []
      · subst unnamed
        obtain ⟨url, isUrl, printed⟩ := makeUrl_directory reads string server
        refine ⟨url, isUrl, ?_⟩
        rw [printed, tidy]
        constructor
        · intro same _
          rw [← whole] at same
          exact List.append_cancel_left same
        · intro kept
          rw [kept List.getLast?_concat]
          exact whole
      · obtain ⟨url, isUrl, printed⟩ :=
          makeUrl_file reads string server unnamed absolute
        refine ⟨url, isUrl, ?_⟩
        have same : url.asString = string := by
          rw [printed, tidy, ← whole]
          simp
        rw [same]
        apply iff_of_true rfl
        intro last
        obtain ⟨rest, final, isName⟩ :=
          (List.eq_nil_or_concat name).resolve_left unnamed
        have notSlash := plain final (by rw [isName]; simp)
        rw [isName, List.concat_eq_append, ← List.cons_append,
          ← List.append_assoc, List.getLast?_concat] at last
        rw [Option.some.inj last] at notSlash
        cases notSlash

/-- A string without a path is rejected, and so is one with a port that is too
large. -/
theorem asUrl_rejected (known : Prefixed string) (host : HasHost string)
    (canonical : CanonicalPort string)
    (bad : pathText string = [] ∨ ∃ number, portText (afterHost string) =
      some (Nat.toDigits 10 number) ∧ maximumInteger < number) :
    ∃ error, asUrl maximumInteger string = .error error := by
  cases parseServer_spec maximumInteger known host
    canonical with
  | inr tooLarge => exact ⟨_, asUrl_of_error tooLarge.2⟩
  | inl served =>
      obtain ⟨fits, parsedServer, server, stop, readServer, made, here,
        whole⟩ := served
      cases bad with
      | inr large =>
          obtain ⟨number, isPort, large⟩ := large
          exact absurd (fits number isPort) (Nat.not_le_of_lt large)
      | inl empty =>
          rw [empty] at here
          have ended : stop = string.length := here.length_eq.symm
          subst ended
          obtain ⟨suffix, cut, ends, begins⟩ := fileEnd_spec here
          have atEnd : fileEnd string string.length = string.length := ends
          have noDirectory : parseDirectory string string.length
              string.length = (none, false, string.length) := by
            unfold parseDirectory
            rw [if_neg (Nat.lt_irrefl _)]
          have readFile : parseFile string string.length =
              .ok ⟨none, false, none, none, none, none⟩ := by
            have noQuery : parseCgiString string string.length = _ :=
              parseSuffix_none here nofun
            have noFragment : parseIndex string string.length = _ :=
              parseSuffix_none here nofun
            unfold parseFile
            simp only [atEnd, noDirectory, parseBaseAndExtension_none,
              noQuery, noFragment, if_pos]
          rw [asUrl_of_ok readServer readFile]
          exact ⟨_, rfl⟩

/-- The round trip of URLs, and the rejection of everything else: exactly for
which strings both hold. -/
theorem roundTrips_iff_kept (maximumInteger : Nat) (string : List Char) :
    RoundTrips maximumInteger string ↔ Kept maximumInteger string := by
  constructor
  · rintro ⟨printed, rejected⟩
    constructor
    · intro known host canonical fits proper
      by_cases empty : pathText string = []
      · rw [empty]
        intro _
        rfl
      · obtain ⟨url, read, same⟩ :=
          asUrl_printed known host canonical fits proper empty
        exact same.mp (printed url read host canonical proper)
    · intro unknown colon
      obtain ⟨message, failed⟩ := rejected unknown
      obtain ⟨error, other, notLocator⟩ := parseProtocol_unknown colon unknown
      have same : asUrl maximumInteger string = .error error :=
        asUrl_of_error (parseServer_of_error other)
      rw [failed] at same
      exact notLocator message (Except.error.inj same).symm
  · rintro ⟨kept, noColon⟩
    have missing : ¬Prefixed string → ∃ message,
        asUrl maximumInteger string = .error (.locatorError message) := by
      intro unknown
      obtain ⟨message, failed⟩ := parseProtocol_missing (noColon unknown)
      exact ⟨message, asUrl_of_error (parseServer_of_error failed)⟩
    refine ⟨?_, missing⟩
    intro url read host canonical proper
    have known : Prefixed string := by
      by_contra unknown
      obtain ⟨message, failed⟩ := missing unknown
      rw [read] at failed
      cases failed
    by_cases bad : pathText string = [] ∨ ∃ number,
        portText (afterHost string) = some (Nat.toDigits 10 number) ∧
          maximumInteger < number
    · obtain ⟨error, failed⟩ := asUrl_rejected known host canonical bad
      rw [read] at failed
      cases failed
    · have fits : ∀ number, portText (afterHost string) =
          some (Nat.toDigits 10 number) → number ≤ maximumInteger := by
        intro number isPort
        apply Nat.le_of_not_lt
        intro large
        exact bad (Or.inr ⟨number, isPort, large⟩)
      obtain ⟨other, readOther, same⟩ := asUrl_printed known host canonical
        fits proper fun empty => bad (Or.inl empty)
      rw [read] at readOther
      rw [Except.ok.inj readOther]
      exact same.mpr (kept known host canonical fits proper)

/-- The query after a directory is lost, and an unknown protocol is an error of
the table of protocols. -/
theorem not_roundTrips_query_protocol :
    ¬RoundTrips (2 ^ 61 - 1) "http://h/a/?q".toList ∧
      ¬RoundTrips (2 ^ 61 - 1) "gopher://h/a".toList := by
  constructor
  · rintro ⟨printed, _⟩
    have read : asUrl (2 ^ 61 - 1) "http://h/a/?q".toList =
        .ok (.directory {
          server := some ⟨.http, ['h'], none, none, none⟩
          path := [.name ['a']]
          relative := false }) := by decide
    have same := printed _ read ⟨'h', "/a/?q".toList, by decide⟩
      (by intro port isPort; cases isPort)
      (by unfold NoEmptyComponent; decide)
    revert same
    decide
  · rintro ⟨_, rejected⟩
    have failed : asUrl (2 ^ 61 - 1) "gopher://h/a".toList =
        .error (.keyNotFound "gopher".toList) := by decide
    have unknown : ¬Prefixed "gopher://h/a".toList := by
      rintro ⟨serverClass, rest, whole⟩
      cases serverClass <;> cases whole
    obtain ⟨message, other⟩ := rejected unknown
    rw [failed] at other
    cases other

end OpenDylan.System.Web
