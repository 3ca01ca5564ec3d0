import OpenDylan.System.UrlParsing

/-!
# The parts of a URL

What each part of a URL is, said of the text that it is taken off, and what the
parser makes of it: the server is printed as the text that it was read from,
and so are the name of a file and a query or a fragment.
-/

namespace OpenDylan.System.Web

open Locators OpenDylan.System.Dates Lib Lib.Words

/-! ## The parts of a string -/

/-- What comes after the protocol. -/
def afterProtocol (string : List Char) : List Char :=
  (fromFirst (· == ':') string).tail

/-- A string begins with the protocol of a class of servers. -/
def Prefixed (string : List Char) : Prop :=
  ∃ serverClass : ServerClass, ∃ rest,
    string = serverClass.locatorProtocol ++ ':' :: rest

/-- A string has a host after its protocol. -/
def HasHost (string : List Char) : Prop :=
  ∃ letter rest, afterProtocol string = '/' :: '/' :: letter :: rest

/-- What comes after the host. -/
def afterHost (string : List Char) : List Char :=
  fromFirst isHostEnd ((afterProtocol string).drop 2)

/-- The text of the port, when what comes after the host begins with one. -/
def portText : List Char → Option (List Char)
  | ':' :: rest => some (beforeFirst isPortEnd rest)
  | _ => none

/-- What comes after the port. -/
def afterPort : List Char → List Char
  | ':' :: rest => fromFirst isPortEnd rest
  | text => text

/-- What comes after the username and the password. -/
def afterUsername : List Char → List Char
  | '?' :: rest =>
      fromFirst (· == '/')
        (if ':' ∈ rest then fromFirst (· == ':') rest else rest)
  | text => text

/-- What comes after the server. -/
def pathText (string : List Char) : List Char :=
  afterUsername (afterPort (afterHost string))

/-- What comes before a query, or else before the last fragment. -/
def fileText (text : List Char) : List Char :=
  if '?' ∈ text then beforeFirst (· == '?') text
  else if '#' ∈ text then beforeLast (· == '#') text
  else text

/-- The port of a string, if there is one, is a number written in canonical
decimal. -/
def CanonicalPort (string : List Char) : Prop :=
  ∀ port, portText (afterHost string) = some port →
    ∃ number, port = Nat.toDigits 10 number

/-- No component of the path of a string is empty, but perhaps the last. -/
def NoEmptyComponent (string : List Char) : Prop :=
  ∀ component ∈ ((fileText (pathText string)).tail.splitOnP
      (· == '/')).dropLast,
    component ≠ []

/-! ## The protocol -/

variable {string text rest : List Char} {position maximumInteger : Nat}

theorem plain_locatorProtocol (serverClass : ServerClass) :
    Plain (· == ':') serverClass.locatorProtocol := by
  have noColon : serverClass.locatorProtocol.all (fun letter =>
      !(letter == ':')) = true := by
    cases serverClass <;> rfl
  intro letter member
  simpa using List.all_eq_true.mp noColon letter member

theorem parseProtocol_known (serverClass : ServerClass) :
    parseProtocol (serverClass.locatorProtocol ++ ':' :: rest) none =
      .ok (serverClass, serverClass.locatorProtocol.length + 1) := by
  have found : findDelimiters (serverClass.locatorProtocol ++ ':' :: rest)
      (· == webProtocolSeparator) 0 = _ :=
    (textAt_zero _).find_first (plain_locatorProtocol serverClass) rfl
  unfold parseProtocol
  simp only [found, Nat.zero_add]
  cases serverClass <;> rfl

theorem parseProtocol_missing (missing : ':' ∉ string) :
    ∃ message, parseProtocol string none =
      .error (.locatorError message) := by
  have plain : Plain (· == webProtocolSeparator) string := by
    intro letter member
    apply beq_false_of_ne
    intro same
    rw [same] at member
    exact missing member
  have found := (textAt_zero string).find_none plain
  unfold parseProtocol
  simp only [found]
  exact ⟨_, rfl⟩

/-- A registered class of servers is registered under its protocol. -/
theorem webProtocolClass_server {protocol : List Char}
    {serverClass : ServerClass}
    (known : webProtocolClass protocol = .ok (.server serverClass)) :
    protocol = serverClass.locatorProtocol := by
  have table : ∀ entry ∈ webProtocolClasses, ∀ serverClass,
      entry.2 = .server serverClass →
        entry.1 = serverClass.locatorProtocol := by
    intro entry member serverClass same
    simp only [webProtocolClasses, List.mem_cons, List.not_mem_nil,
      or_false] at member
    rcases member with known | known | known | known | known
    all_goals
      subst known
      cases same
      try rfl
  unfold webProtocolClass at known
  split at known
  case h_2 => cases known
  case h_1 locatorClass found =>
      cases known
      obtain ⟨before, after, whole, _⟩ := List.lookup_eq_some_iff.mp found
      apply table (protocol, .server serverClass) _ serverClass rfl
      rw [whole]
      exact List.mem_append_right before List.mem_cons_self

/-- A string with an unknown protocol is rejected, but not by an error about
locators. -/
theorem parseProtocol_unknown (colon : ':' ∈ string)
    (unknown : ¬Prefixed string) :
    ∃ error, parseProtocol string none = .error error ∧
      ∀ message, error ≠ .locatorError message := by
  cases split_at_first (· == webProtocolSeparator) string with
  | inl plain => exact absurd (plain ':' colon) (by decide)
  | inr split =>
      obtain ⟨front, separator, rest, whole, plain, here⟩ := split
      have isColon : separator = ':' := eq_of_beq here
      subst isColon
      subst whole
      have start := textAt_zero (front ++ ':' :: rest)
      have found := start.find_first plain here
      have copied := start.copy
      have parsed : parseProtocol (front ++ ':' :: rest) none =
          (webProtocolClass front).bind fun locatorClass =>
            (checkServerClass locatorClass).bind fun serverClass =>
              .ok (serverClass, 0 + front.length + 1) := by
        unfold parseProtocol
        simp only [found, copied]
        rfl
      rw [parsed]
      cases known : webProtocolClass front with
      | error error =>
          refine ⟨error, rfl, ?_⟩
          intro message same
          unfold webProtocolClass at known
          split at known
          case h_1 => cases known
          case h_2 =>
              cases known
              cases same
      | ok locatorClass =>
          cases locatorClass with
          | mailTo =>
              refine ⟨.notServerClass .mailTo, rfl, ?_⟩
              intro message same
              cases same
          | server serverClass =>
              apply absurd _ unknown
              exact ⟨serverClass, rest,
                congrArg (· ++ ':' :: rest) (webProtocolClass_server known)⟩

/-! ## The server -/

theorem parseHost_spec {letter : Char}
    (here : TextAt string position ('/' :: '/' :: letter :: rest)) :
    ∃ host stop, parseHost string position = (some host, stop) ∧
      TextAt string stop (fromFirst isHostEnd (letter :: rest)) ∧
        host ++ fromFirst isHostEnd (letter :: rest) = letter :: rest := by
  have hostPrefix : TextAt string position
      (webHostPrefix ++ letter :: rest) := here
  have afterPrefix := hostPrefix.advance
  have inside := afterPrefix.lt_length.mpr (List.cons_ne_nil _ _)
  have found := afterPrefix.searched isHostEnd rfl
  refine ⟨_, _, ?_, found.2, beforeFirst_append _ _⟩
  unfold parseHost
  rw [if_pos ⟨inside, hostPrefix.copy⟩]
  exact congrArg (fun host => (some host, _)) found.1

/-- A port in canonical decimal is read as the number, unless it is too
large. -/
theorem portNumber_toDigits (number : Nat) :
    portNumber maximumInteger (Nat.toDigits 10 number) =
      if number ≤ maximumInteger then .ok (number : Int)
      else .error .integerOverflow := by
  have positive : 0 < (Nat.toDigits 10 number).length :=
    Nat.length_toDigits_pos
  have numeral := IsNumeral.toDigits number
  rw [← Nat.succ_pred_eq_of_pos positive] at numeral
  unfold portNumber
  rw [stringToInteger_numeral numeral]
  by_cases fits : number ≤ maximumInteger
  · rw [if_pos fits]
    show (if _ then _ else _) = _
    rw [if_pos (by omega)]
  · rw [if_neg fits]
    show (if _ then _ else _) = _
    rw [if_neg (by omega)]

theorem parsePort_none (here : TextAt string position text)
    (noPort : text.head? ≠ some webPortSeparator) :
    parsePort maximumInteger string position = .ok (none, position) := by
  unfold parsePort
  rw [here.getElem?_eq, if_neg noPort]

theorem parsePort_some (maximumInteger : Nat)
    (here : TextAt string position (':' :: rest))
    {number : Nat}
    (canonical : beforeFirst isPortEnd rest = Nat.toDigits 10 number) :
    ∃ stop, TextAt string stop (fromFirst isPortEnd rest) ∧
      parsePort maximumInteger string position =
        if number ≤ maximumInteger then .ok (some (number : Int), stop)
        else .error .integerOverflow := by
  have found := here.next.searched isPortEnd rfl
  refine ⟨_, found.2, ?_⟩
  have someDigits : rest ≠ [] := by
    intro nothing
    have positive : 0 < (Nat.toDigits 10 number).length :=
      Nat.length_toDigits_pos
    rw [← canonical, nothing] at positive
    exact absurd positive (Nat.lt_irrefl 0)
  have inside := here.next.lt_length.mpr someDigits
  have colon : string[position]? = some webPortSeparator := here.getElem?_eq
  unfold parsePort
  simp only [if_pos colon, if_pos inside, found.1, canonical,
    portNumber_toDigits]
  by_cases fits : number ≤ maximumInteger
  · rw [if_pos fits, if_pos fits]
    show (if (number : Int) = -1 then _ else _) = _
    rw [if_neg (by omega)]
  · rw [if_neg fits, if_neg fits]

/-- What `parse-port` does with a text whose port, if it has one, is written in
canonical decimal. -/
theorem parsePort_spec (maximumInteger : Nat)
    (here : TextAt string position text)
    (canonical : ∀ port, portText text = some port →
      ∃ number, port = Nat.toDigits 10 number) :
    ((∀ number, portText text = some (Nat.toDigits 10 number) →
        number ≤ maximumInteger) ∧
      ∃ port stop,
        parsePort maximumInteger string position = .ok (port, stop) ∧
          TextAt string stop (afterPort text) ∧
            separated ':' (port.map integerToString) ++ afterPort text =
              text) ∨
      ((∃ number, portText text = some (Nat.toDigits 10 number) ∧
          maximumInteger < number) ∧
        parsePort maximumInteger string position =
          .error .integerOverflow) := by
  by_cases begins : text.head? = some ':'
  · obtain ⟨rest, whole⟩ := List.head?_eq_some_iff.mp begins
    subst whole
    obtain ⟨number, digits⟩ := canonical _ rfl
    obtain ⟨stop, after, parsed⟩ :=
      parsePort_some maximumInteger here digits
    have isText : portText (':' :: rest) = some (Nat.toDigits 10 number) :=
      congrArg some digits
    by_cases fits : number ≤ maximumInteger
    · rw [if_pos fits] at parsed
      refine Or.inl ⟨?_, some (number : Int), stop, parsed, after, ?_⟩
      · intro other same
        rw [isText] at same
        have equal : number = other := by
          have values := congrArg (fun text => Nat.ofDigitChars 10 text 0)
            (Option.some.inj same)
          simpa [Nat.ofDigitChars_ten_toDigits] using values
        rw [← equal]
        exact fits
      · show ':' :: integerToString (number : Int) ++
          fromFirst isPortEnd rest = _
        rw [integerToString_of_nonneg (Int.natCast_nonneg number),
          Int.toNat_natCast, ← digits, List.cons_append, beforeFirst_append]
    · rw [if_neg fits] at parsed
      exact Or.inr ⟨⟨number, isText, Nat.lt_of_not_le fits⟩, parsed⟩
  · have noText : portText text = none := by
      unfold portText
      split
      case h_1 => exact absurd rfl begins
      case h_2 => rfl
    have same : afterPort text = text := by
      unfold afterPort
      split
      case h_1 => exact absurd rfl begins
      case h_2 => rfl
    refine Or.inl ⟨?_, none, position, parsePort_none here begins, ?_, ?_⟩
    · intro number some
      rw [noText] at some
      cases some
    · rw [same]
      exact here
    · rw [same]
      rfl

/-- Without a colon the name of the user ends at the path. -/
theorem parseUsername_plain (here : TextAt string position ('?' :: rest))
    (plain : Plain (· == webPasswordSeparator) rest) :
    ∃ stop, TextAt string stop (fromFirst (· == '/') rest) ∧
      parseUsername string position =
        (some (beforeFirst (· == '/') rest), none, stop) := by
  have found := here.next.searched (· == webSeparator) rfl
  have mark : string[position]? = some webUsernameSeparator :=
    here.getElem?_eq
  refine ⟨_, found.2, ?_⟩
  unfold parseUsername
  simp only [if_pos mark, here.next.find_none plain, Option.getD_none,
    found.1, Option.map_none]
  rfl

/-- The first colon ends the name of the user, wherever it stands. -/
theorem parseUsername_password {user more : List Char}
    (here : TextAt string position ('?' :: (user ++ ':' :: more)))
    (plain : Plain (· == webPasswordSeparator) user) :
    ∃ stop, TextAt string stop (fromFirst (· == '/') more) ∧
      parseUsername string position =
        (some user, some (beforeFirst (· == '/') more), stop) := by
  have colon := here.next.advance
  have stops : (findDelimiters string (· == webSeparator)
        (position + 1 + user.length + 1)).getD string.length =
      (findDelimiters string (· == webSeparator)
        (position + 1 + user.length)).getD string.length := by
    rw [colon.next.search, colon.search]
    show _ = _ + (beforeFirst (· == webSeparator) more).length.succ
    omega
  have found := colon.next.searched (· == webSeparator) stops
  have mark : string[position]? = some webUsernameSeparator :=
    here.getElem?_eq
  refine ⟨_, found.2, ?_⟩
  unfold parseUsername
  simp only [if_pos mark, here.next.find_first plain rfl, Option.getD_some,
    Option.map_some, here.next.copy, found.1]
  rfl

theorem parseUsername_none (here : TextAt string position text)
    (noUser : text.head? ≠ some webUsernameSeparator) :
    parseUsername string position = (none, none, position) := by
  unfold parseUsername
  rw [here.getElem?_eq, if_neg noUser]

theorem parseUsername_spec (here : TextAt string position text) :
    ∃ username password stop,
      parseUsername string position = (username, password, stop) ∧
        TextAt string stop (afterUsername text) ∧
          separated '?' username ++ (separated ':' password ++
            afterUsername text) = text := by
  by_cases begins : text.head? = some webUsernameSeparator
  · obtain ⟨rest, whole⟩ := List.head?_eq_some_iff.mp begins
    subst whole
    cases split_at_first (· == webPasswordSeparator) rest with
    | inl plain =>
        have noColon : ':' ∉ rest := fun member =>
          absurd (plain ':' member) (by decide)
        have after : afterUsername (webUsernameSeparator :: rest) =
            fromFirst (· == '/') rest := by
          show fromFirst _ (if ':' ∈ rest then _ else rest) = _
          rw [if_neg noColon]
        obtain ⟨stop, found, parsed⟩ := parseUsername_plain here plain
        rw [after]
        refine ⟨_, _, stop, parsed, found, ?_⟩
        show '?' :: (beforeFirst _ rest ++ fromFirst _ rest) = _
        rw [beforeFirst_append]
        rfl
    | inr split =>
        obtain ⟨user, separator, more, whole, plain, colon⟩ := split
        have isColon : separator = ':' := eq_of_beq colon
        subst isColon
        subst whole
        have after : afterUsername
              (webUsernameSeparator :: (user ++ ':' :: more)) =
            fromFirst (· == '/') more := by
          show fromFirst _ (if ':' ∈ user ++ ':' :: more then
            fromFirst (· == webPasswordSeparator) _ else _) = _
          rw [if_pos (by simp), fromFirst_split plain colon]
          rfl
        obtain ⟨stop, found, parsed⟩ := parseUsername_password here plain
        rw [after]
        refine ⟨_, _, stop, parsed, found, ?_⟩
        show '?' :: (user ++ ':' ::
          (beforeFirst _ more ++ fromFirst _ more)) = _
        rw [beforeFirst_append]
        rfl
  · have same : afterUsername text = text := by
      unfold afterUsername
      split
      case h_1 => exact absurd rfl begins
      case h_2 => rfl
    rw [same]
    exact ⟨none, none, position, parseUsername_none here begins, here, rfl⟩

/-- What comes after the server begins with a slash, if there is anything. -/
theorem head_pathText {letter : Char}
    (first : (pathText string).head? = some letter) : letter = '/' := by
  have portBegins : ∀ letter, (afterPort (afterHost string)).head? =
      some letter → isPortEnd letter = true := by
    intro letter first
    cases whole : afterHost string with
    | nil =>
        rw [whole] at first
        cases first
    | cons mark rest =>
        rw [whole] at first
        have hostBegins : isHostEnd mark = true := by
          apply fromFirst_begins isHostEnd
          show (afterHost string).head? = _
          rw [whole]
          rfl
        by_cases isColon : mark = ':'
        · subst isColon
          exact fromFirst_begins isPortEnd first
        · have same : afterPort (mark :: rest) = mark :: rest := by
            unfold afterPort
            split
            case h_1 equal => exact absurd (List.cons.inj equal).1 isColon
            case h_2 => rfl
          rw [same, List.head?_cons] at first
          rw [← Option.some.inj first]
          simpa [isHostEnd, isPortEnd, webPortSeparator, isColon] using
            hostBegins
  unfold pathText at first
  cases whole : afterPort (afterHost string) with
  | nil =>
      rw [whole] at first
      cases first
  | cons mark rest =>
      rw [whole] at first
      have begins := portBegins mark (by rw [whole]; rfl)
      by_cases isMark : mark = '?'
      · subst isMark
        exact eq_of_beq (fromFirst_begins (· == '/') first)
      · have same : afterUsername (mark :: rest) = mark :: rest := by
          unfold afterUsername
          split
          case h_1 equal => exact absurd (List.cons.inj equal).1 isMark
          case h_2 => rfl
        rw [same, List.head?_cons] at first
        rw [← Option.some.inj first]
        simpa [isPortEnd, webUsernameSeparator, webSeparator, isMark] using
          begins

theorem ServerUrl.asString_eq (server : ServerUrl) :
    server.asString =
      server.serverClass.locatorProtocol ++ ':' :: '/' :: '/' ::
        (server.host ++
          (separated ':' (server.port.map integerToString) ++
            (separated '?' server.username ++
              separated ':' server.password))) := by
  cases server with
  | mk serverClass host port username password =>
      have whole : ∀ some : Bool,
          (some = false →
            port = none ∧ username = none ∧ password = none) →
          (if some then
              serverClass.locatorProtocol ++ [':'] ++ webHostPrefix ++ host ++
                separated ':' (port.map integerToString) ++
                separated '?' username ++ separated ':' password
            else
              serverClass.locatorProtocol ++ [':'] ++ webHostPrefix ++
                host) =
            serverClass.locatorProtocol ++ ':' :: '/' :: '/' ::
              (host ++ (separated ':' (port.map integerToString) ++
                (separated '?' username ++ separated ':' password))) := by
        intro some nothing
        cases some with
        | true => simp [webHostPrefix]
        | false =>
            obtain ⟨noPort, noUsername, noPassword⟩ := nothing rfl
            subst noPort
            subst noUsername
            subst noPassword
            simp [webHostPrefix, separated]
      apply whole
      intro nothing
      simpa [Bool.or_eq_false_iff, and_assoc] using nothing

/-- What is read up to the path, when the port is a number in canonical
decimal: a server that is printed as what was read, unless the number is too
large. -/
theorem parseServer_spec (maximumInteger : Nat) (known : Prefixed string)
    (host : HasHost string) (canonical : CanonicalPort string) :
    ((∀ number, portText (afterHost string) =
          some (Nat.toDigits 10 number) → number ≤ maximumInteger) ∧
      ∃ parsed server stop,
        parseServer maximumInteger string none = .ok (parsed, stop) ∧
          parsed.makeServer = some server ∧
            TextAt string stop (pathText string) ∧
              server.asString ++ pathText string = string) ∨
      ((∃ number, portText (afterHost string) =
            some (Nat.toDigits 10 number) ∧ maximumInteger < number) ∧
        parseServer maximumInteger string none =
          .error .integerOverflow) := by
  obtain ⟨serverClass, rest, whole⟩ := known
  have protocol : parseProtocol string none =
      .ok (serverClass, serverClass.locatorProtocol.length + 1) := by
    rw [whole]
    exact parseProtocol_known serverClass
  have after : afterProtocol string = rest := by
    unfold afterProtocol
    rw [whole, fromFirst_split (plain_locatorProtocol serverClass) rfl]
    rfl
  obtain ⟨letter, tail, hosted⟩ := host
  rw [after] at hosted
  have start : TextAt string (serverClass.locatorProtocol.length + 1)
      ('/' :: '/' :: letter :: tail) := by
    have start := textAt_zero string
    rw [whole, hosted] at start
    have begins := start.advance.next
    rw [Nat.zero_add, ← hosted, ← whole] at begins
    rw [← hosted]
    exact begins
  obtain ⟨hostText, hostEnd, readHost, atHost, hostWhole⟩ :=
    parseHost_spec start
  have isAfterHost : fromFirst isHostEnd (letter :: tail) =
      afterHost string := by
    unfold afterHost
    rw [after, hosted]
    rfl
  rw [isAfterHost] at atHost hostWhole
  cases parsePort_spec maximumInteger atHost
    canonical with
  | inr tooLarge =>
      refine Or.inr ⟨tooLarge.1, ?_⟩
      unfold parseServer
      simp only [protocol, bind, Except.bind, readHost, tooLarge.2]
  | inl fits =>
      obtain ⟨small, port, portEnd, readPort, atPort, portWhole⟩ := fits
      obtain ⟨username, password, usernameEnd, readUsername, atUsername,
        usernameWhole⟩ := parseUsername_spec atPort
      have parsed : parseServer maximumInteger string none = .ok
          (⟨serverClass, some hostText, port, username, password⟩,
            usernameEnd) := by
        unfold parseServer
        simp only [protocol, bind, Except.bind, readHost, readPort,
          readUsername]
        rfl
      refine Or.inl ⟨small, _,
        ⟨serverClass, hostText, port, username, password⟩, usernameEnd,
        parsed, rfl, atUsername, ?_⟩
      have text : hostText ++ (separated ':' (port.map integerToString) ++
          (separated '?' username ++ (separated ':' password ++
            pathText string))) = letter :: tail := by
        unfold pathText
        rw [usernameWhole, portWhole, hostWhole]
      rw [ServerUrl.asString_eq]
      calc serverClass.locatorProtocol ++ ':' :: '/' :: '/' ::
            (hostText ++ (separated ':' (port.map integerToString) ++
              (separated '?' username ++ separated ':' password))) ++
                pathText string
          = serverClass.locatorProtocol ++ ':' :: '/' :: '/' ::
            (hostText ++ (separated ':' (port.map integerToString) ++
              (separated '?' username ++ (separated ':' password ++
                pathText string)))) := by
            simp only [List.append_assoc, List.cons_append]
        _ = string := by rw [text, ← hosted]; exact whole.symm

/-! ## The file -/

variable {front name suffix : List Char}

/-- Where the name of the file ends, a query or a fragment begins if there is
anything. -/
theorem fileEnd_spec (here : TextAt string position text) :
    ∃ suffix, text = fileText text ++ suffix ∧
      fileEnd string position = position + (fileText text).length ∧
        ∀ letter, suffix.head? = some letter →
          letter = '?' ∨ letter = '#' := by
  unfold fileText fileEnd
  cases split_at_first (· == webCgiSeparator) text with
  | inr split =>
      obtain ⟨front, separator, rest, whole, plain, mark⟩ := split
      have isMark : separator = '?' := eq_of_beq mark
      subst isMark
      subst whole
      rw [if_pos (by simp), here.find_first plain mark]
      have cut : beforeFirst (· == '?') (front ++ '?' :: rest) = front :=
        beforeFirst_split plain mark
      rw [cut]
      refine ⟨'?' :: rest, rfl, rfl, ?_⟩
      intro letter first
      exact Or.inl (Option.some.inj first).symm
  | inl noQuery =>
      have noMark : '?' ∉ text := fun member =>
        absurd (noQuery '?' member) (by decide)
      rw [if_neg noMark, here.find_none noQuery]
      have ended : TextAt string position (text ++ []) := by
        rw [List.append_nil]
        exact here
      have length := here.length_eq
      cases split_at_last (· == webIndexSeparator) text with
      | inr split =>
          obtain ⟨front, separator, rest, whole, mark, plain⟩ := split
          have isMark : separator = '#' := eq_of_beq mark
          subst isMark
          subst whole
          have cut : beforeLast (· == '#') (front ++ '#' :: rest) = front :=
            beforeLast_split mark plain
          have found : findDelimiterDown string (· == webIndexSeparator)
              position (position + (front ++ '#' :: rest).length) = _ :=
            ended.findDown_last mark plain
          rw [if_pos (by simp), length, found, cut]
          refine ⟨'#' :: rest, rfl, rfl, ?_⟩
          intro letter first
          exact Or.inr (Option.some.inj first).symm
      | inl noFragment =>
          have noHash : '#' ∉ text := fun member =>
            absurd (noFragment '#' member) (by decide)
          rw [if_neg noHash, length, ended.findDown_none noFragment]
          refine ⟨[], (List.append_nil text).symm, rfl, ?_⟩
          intro letter first
          cases first

/-- The text of a path that is not empty has a directory, which begins with a
slash. -/
theorem fileText_split
    (cut : pathText string = fileText (pathText string) ++ suffix)
    (begins : ∀ letter, suffix.head? = some letter →
      letter = '?' ∨ letter = '#')
    (nonempty : pathText string ≠ []) :
    ∃ front name, fileText (pathText string) = front ++ '/' :: name ∧
      Plain (· == '/') name ∧
        isRelative (· == '/') (front ++ ['/']) = false := by
  have first : ∀ letter, (pathText string).head? = some letter →
      letter = '/' := fun letter => head_pathText
  cases isFile : fileText (pathText string) with
  | nil =>
      rw [isFile, List.nil_append] at cut
      obtain ⟨letter, rest, whole⟩ := List.exists_cons_of_ne_nil nonempty
      have slash : letter = '/' := first letter (by rw [whole]; rfl)
      have mark := begins letter (by rw [← cut, whole]; rfl)
      rw [slash] at mark
      exact absurd mark (by decide)
  | cons letter rest =>
      have slash : letter = '/' := by
        apply first
        rw [cut, isFile]
        rfl
      subst slash
      cases split_at_last (· == '/') ('/' :: rest) with
      | inl plain => exact absurd (plain '/' List.mem_cons_self) (by decide)
      | inr split =>
          obtain ⟨front, separator, name, whole, isSlash, plain⟩ := split
          have isSeparator : separator = '/' := eq_of_beq isSlash
          subst isSeparator
          refine ⟨front, name, whole, plain, ?_⟩
          cases front with
          | nil => rfl
          | cons mark more =>
              rw [← (List.cons.inj whole).1]
              rfl

/-- The directory ends with the last slash. -/
theorem parseDirectory_spec
    (here : TextAt string position ((front ++ '/' :: name) ++ suffix))
    (plain : Plain (· == '/') name) :
    parseDirectory string position
        (position + (front ++ '/' :: name).length) =
      (some (words (· == '/') (front ++ ['/'])),
        isRelative (· == '/') (front ++ ['/']),
        position + front.length + 1) := by
  have last : findDelimiterDown string (· == webSeparator) position
      (position + (front ++ '/' :: name).length) = _ :=
    here.findDown_last rfl plain
  have order : position < position + (front ++ '/' :: name).length := by
    rw [List.length_append, List.length_cons]
    omega
  have directory : TextAt string position
      ((front ++ ['/']) ++ (name ++ suffix)) := by
    have same : (front ++ ['/']) ++ (name ++ suffix) =
        (front ++ '/' :: name) ++ suffix := by simp
    rw [same]
    exact here
  have path : parsePathWithin string position
      (position + (front ++ ['/']).length) (· == webSeparator) = _ :=
    directory.parsePathWithin_eq
  rw [List.length_append, List.length_singleton, ← Nat.add_assoc] at path
  unfold parseDirectory
  simp only [if_pos order, last, path]
  rfl

theorem parseBaseAndExtension_none (string : List Char) (position : Nat) :
    parseBaseAndExtension string position position = (none, none) := by
  unfold parseBaseAndExtension
  rw [if_neg (Nat.lt_irrefl position)]

/-- The name of a file is its base and its extension, which begins after the
first dot. -/
theorem parseBaseAndExtension_spec
    (here : TextAt string position (name ++ suffix))
    (nonempty : name ≠ []) :
    ∃ base extension,
      parseBaseAndExtension string position (position + name.length) =
          (some base, extension) ∧
        base ++ separated '.' extension = name := by
  have order : position < position + name.length := by
    have positive := List.length_pos_of_ne_nil nonempty
    omega
  unfold parseBaseAndExtension
  rw [if_pos order]
  cases split_at_first (· == webExtensionSeparator) name with
  | inl plain =>
      refine ⟨name, none, ?_, List.append_nil name⟩
      simp only [here.findWithin_none plain, Option.getD_none, here.copy,
        Option.map_none]
  | inr split =>
      obtain ⟨base, separator, extension, whole, plain, dot⟩ := split
      have isDot : separator = '.' := eq_of_beq dot
      subst isDot
      subst whole
      have found := here.findWithin_first plain dot
      rw [List.append_assoc] at here
      have later := here.advance.next
      have length : position + (base ++ '.' :: extension).length =
          position + base.length + 1 + extension.length := by
        rw [List.length_append, List.length_cons]
        omega
      refine ⟨base, some extension, ?_, rfl⟩
      simp only [found, Option.getD_some, here.copy, Option.map_some]
      rw [length, later.copy]

theorem parseSuffix_none {separator : Char}
    (here : TextAt string position text)
    (other : text.head? ≠ some separator) :
    parseSuffix separator string position = (none, position) := by
  unfold parseSuffix
  rw [here.getElem?_eq, if_neg other]

theorem parseSuffix_some {separator : Char}
    (here : TextAt string position (separator :: rest)) :
    parseSuffix separator string position = (some rest, string.length) := by
  have mark : string[position]? = some separator := here.getElem?_eq
  unfold parseSuffix
  rw [if_pos mark, here.next.copy_rest]

/-- A query or a fragment is all that is left. -/
theorem parseSuffixes_spec (here : TextAt string position suffix)
    (begins : ∀ letter, suffix.head? = some letter →
      letter = '?' ∨ letter = '#') :
    ∃ cgiString cgiStringEnd index,
      parseCgiString string position = (cgiString, cgiStringEnd) ∧
        parseIndex string cgiStringEnd = (index, string.length) ∧
          separated '?' cgiString ++ separated '#' index = suffix ∧
            (cgiString = none ∨ index = none) := by
  have ended : TextAt string string.length [] := by
    constructor
    · exact Nat.le_refl _
    · exact List.drop_length
  cases suffix with
  | nil =>
      have atEnd : position = string.length := here.length_eq.symm
      subst atEnd
      exact ⟨none, string.length, none, parseSuffix_none ended nofun,
        parseSuffix_none ended nofun, rfl, Or.inl rfl⟩
  | cons mark rest =>
      cases begins mark rfl with
      | inl isQuery =>
          subst isQuery
          refine ⟨some rest, string.length, none, parseSuffix_some here,
            parseSuffix_none ended nofun, ?_, Or.inr rfl⟩
          exact List.append_nil _
      | inr isFragment =>
          subst isFragment
          have noQuery : ('#' :: rest).head? ≠ some webCgiSeparator := by
            rw [List.head?_cons]
            decide
          exact ⟨none, position, some rest, parseSuffix_none here noQuery,
            parseSuffix_some here, rfl, Or.inl rfl⟩

/-- What was read for a directory, the name of a file, and a query or a
fragment. -/
structure ReadsFile (parsed : ParsedFile) (front name suffix : List Char) :
    Prop where
  path_eq : parsed.path = some (words (· == '/') (front ++ ['/']))
  relative_eq : parsed.relative = isRelative (· == '/') (front ++ ['/'])
  unnamed : name = [] → parsed.base = none ∧ parsed.extension = none
  named : name ≠ [] → ∃ base, parsed.base = some base ∧
    base ++ separated '.' parsed.extension = name
  suffix_eq :
    separated '?' parsed.cgiString ++ separated '#' parsed.index = suffix
  oneSuffix : parsed.cgiString = none ∨ parsed.index = none

theorem parseFile_spec
    (here : TextAt string position ((front ++ '/' :: name) ++ suffix))
    (ends : fileEnd string position =
      position + (front ++ '/' :: name).length)
    (plain : Plain (· == '/') name)
    (begins : ∀ letter, suffix.head? = some letter →
      letter = '?' ∨ letter = '#') :
    ∃ parsed, parseFile string position = .ok parsed ∧
      ReadsFile parsed front name suffix := by
  have directory := parseDirectory_spec here plain
  obtain ⟨cgiString, cgiStringEnd, index, readCgi, readIndex, suffixWhole,
    oneSuffix⟩ := parseSuffixes_spec here.advance begins
  have length : position + (front ++ '/' :: name).length =
      position + front.length + 1 + name.length := by
    rw [List.length_append, List.length_cons]
    omega
  have nameText : TextAt string (position + front.length + 1)
      (name ++ suffix) := by
    rw [List.append_assoc] at here
    exact here.advance.next
  obtain ⟨base, extension, readName, unnamed, named⟩ :
      ∃ base extension,
        parseBaseAndExtension string (position + front.length + 1)
            (position + (front ++ '/' :: name).length) = (base, extension) ∧
          (name = [] → base = none ∧ extension = none) ∧
            (name ≠ [] → ∃ text, base = some text ∧
              text ++ separated '.' extension = name) := by
    rw [length]
    by_cases empty : name = []
    · subst empty
      exact ⟨none, none, parseBaseAndExtension_none string _,
        fun _ => ⟨rfl, rfl⟩, fun some => absurd rfl some⟩
    · obtain ⟨base, extension, read, whole⟩ :=
        parseBaseAndExtension_spec nameText empty
      exact ⟨some base, extension, read, fun none => absurd none empty,
        fun _ => ⟨base, rfl, whole⟩⟩
  refine ⟨⟨_, _, base, extension, cgiString, index⟩, ?_, {
    path_eq := rfl
    relative_eq := rfl
    unnamed := unnamed
    named := named
    suffix_eq := suffixWhole
    oneSuffix := oneSuffix }⟩
  unfold parseFile
  simp only [ends, directory, readName, readCgi, readIndex, if_pos]
  rfl

end OpenDylan.System.Web
