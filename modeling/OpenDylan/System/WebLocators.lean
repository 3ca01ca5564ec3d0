import OpenDylan.System.Locators
import OpenDylan.System.DateStrings

/-!
# Web locators

A URL is read by a chain of searches for delimiters, each over all of the
string from where the last part ends.  What is read becomes the locator of a
directory or of a file, perhaps with a query or a fragment, and each class of
locators is printed in its own way.
-/

namespace OpenDylan.System.Web

open Locators OpenDylan.System.Dates

/-! ## Protocols -/

/-- `<http-server>`, `<https-server>`, `<ftp-server>` and `<file-server>` -/
inductive ServerClass where
  | http
  | https
  | ftp
  | file
deriving DecidableEq

/-- The classes of web locators that have a protocol. -/
inductive WebLocatorClass where
  | server (serverClass : ServerClass)
  | mailTo
deriving DecidableEq

/-- `$web-protocol-names`, of a class of servers -/
def ServerClass.locatorProtocol : ServerClass → List Char
  | .http => "http".toList
  | .https => "https".toList
  | .ftp => "ftp".toList
  | .file => "file".toList

/-- `$web-protocol-classes` -/
def webProtocolClasses : List (List Char × WebLocatorClass) :=
  [("http".toList, .server .http), ("https".toList, .server .https),
    ("ftp".toList, .server .ftp), ("file".toList, .server .file),
    ("mailto".toList, .mailTo)]

/-- What reading a URL may signal. -/
inductive UrlError where
  /-- `locator-error` -/
  | locatorError (text : List Char)
  /-- `element` of a table without the key -/
  | keyNotFound (key : List Char)
  /-- The `<type-error>` for a class that is not one of servers -/
  | notServerClass (locatorClass : WebLocatorClass)
  /-- An `<integer>` that is too large -/
  | integerOverflow
deriving DecidableEq

/-- `web-protocol-class`, which has no default -/
def webProtocolClass (protocol : List Char) :
    Except UrlError WebLocatorClass :=
  match webProtocolClasses.lookup protocol with
  | some locatorClass => .ok locatorClass
  | none => .error (.keyNotFound protocol)

/-- The class that `parse-protocol` declares as its value. -/
def checkServerClass : WebLocatorClass → Except UrlError ServerClass
  | .server serverClass => .ok serverClass
  | .mailTo => .error (.notServerClass .mailTo)

/-! ## Delimiters -/

/-- `$web-separator` -/
def webSeparator : Char := '/'

/-- `$web-extension-separator` -/
def webExtensionSeparator : Char := '.'

/-- `$web-protocol-separator` -/
def webProtocolSeparator : Char := ':'

/-- `$web-host-prefix` -/
def webHostPrefix : List Char := ['/', '/']

/-- `$web-port-separator` -/
def webPortSeparator : Char := ':'

/-- `$web-username-separator` -/
def webUsernameSeparator : Char := '?'

/-- `$web-password-separator` -/
def webPasswordSeparator : Char := ':'

/-- `$web-cgi-separator` -/
def webCgiSeparator : Char := '?'

/-- `$web-index-separator` -/
def webIndexSeparator : Char := '#'

/-- `find-delimiter` below an end -/
def findDelimiterWithin (string : List Char) (delimiter : Char → Bool)
    (start stop : Nat) : Option Nat :=
  findDelimitersLoop delimiter (copySequence string start stop) start

/-- The loop of `find-delimiter-from-end` below an index. -/
def findDelimiterDown (string : List Char) (delimiter : Char → Bool)
    (start : Nat) : Nat → Option Nat
  | 0 => none
  | index + 1 =>
      if index < start then none
      else if string[index]?.any delimiter then some index
      else findDelimiterDown string delimiter start index

/-- `parse-path`, below an end -/
def parsePathWithin (string : List Char) (start stop : Nat)
    (test : Char → Bool) : List (List Char) × Bool :=
  parsePathLoop string start stop test (copySequence string start stop) start
    start [] true

/-! ## Parts of a URL -/

/-- The local method `parse-protocol`.  Its test for a class never fails, for
`web-protocol-class` gives one or signals an error. -/
def parseProtocol (string : List Char) (protocol : Option (List Char)) :
    Except UrlError (ServerClass × Nat) := do
  let (protocol, position) ←
    match protocol with
    | some protocol => .ok (protocol, 0)
    | none =>
        match findDelimiters string (· == webProtocolSeparator) 0 with
        | some position => .ok (copySequence string 0 position, position + 1)
        | none =>
            .error (.locatorError
              ("Missing protocol in URL '".toList ++ string ++ ['\'']))
  let locatorClass ← webProtocolClass protocol
  let serverClass ← checkServerClass locatorClass
  return (serverClass, position)

/-- The delimiters that `parse-host` looks for. -/
def isHostEnd (character : Char) : Bool :=
  character == webPortSeparator || character == webUsernameSeparator ||
    character == webSeparator

/-- The delimiters that `parse-port` looks for. -/
def isPortEnd (character : Char) : Bool :=
  character == webUsernameSeparator || character == webSeparator

/-- The local method `parse-host` -/
def parseHost (string : List Char) (start : Nat) : Option (List Char) × Nat :=
  let prefixEnd := start + webHostPrefix.length
  if prefixEnd < string.length ∧
      copySequence string start prefixEnd = webHostPrefix then
    let nextIndex :=
      (findDelimiters string isHostEnd prefixEnd).getD string.length
    (some (copySequence string prefixEnd nextIndex), nextIndex)
  else
    (none, start)

/-- `string-to-integer` with -1 as default, over the integers up to a largest
one.  The arithmetic overflows on the way to a number just when the number
itself is out of range. -/
def portNumber (maximumInteger : Nat) (text : List Char) :
    Except UrlError Int :=
  match stringToInteger text with
  | none => .ok (-1)
  | some number =>
      if -(maximumInteger : Int) - 1 ≤ number ∧ number ≤ maximumInteger then
        .ok number
      else .error .integerOverflow

/-- The local method `parse-port` -/
def parsePort (maximumInteger : Nat) (string : List Char) (start : Nat) :
    Except UrlError (Option Int × Nat) :=
  if string[start]? = some webPortSeparator then
    let numberStart := start + 1
    let nextIndex :=
      (findDelimiters string isPortEnd numberStart).getD string.length
    let number :=
      if numberStart < string.length then
        portNumber maximumInteger (copySequence string numberStart nextIndex)
      else .ok (-1)
    match number with
    | .ok port =>
        if port = -1 then
          .error (.locatorError
            ("Invalid port supplied for locator '".toList ++ string ++
              ['\'']))
        else .ok (some port, nextIndex)
    | .error error => .error error
  else
    .ok (none, start)

/-- The local method `parse-username` -/
def parseUsername (string : List Char) (start : Nat) :
    Option (List Char) × Option (List Char) × Nat :=
  if string[start]? = some webUsernameSeparator then
    let start := start + 1
    let passwordStart :=
      findDelimiters string (· == webPasswordSeparator) start
    let passwordStop :=
      (findDelimiters string (· == webSeparator)
        (passwordStart.getD start)).getD string.length
    (some (copySequence string start (passwordStart.getD passwordStop)),
      passwordStart.map fun passwordStart =>
        copySequence string (passwordStart + 1) passwordStop,
      passwordStop)
  else
    (none, none, start)

/-- The local method `parse-directory` -/
def parseDirectory (string : List Char) (start stop : Nat) :
    Option (List (List Char)) × Bool × Nat :=
  if start < stop then
    let nextIndex :=
      match findDelimiterDown string (· == webSeparator) start stop with
      | some directoryEnd => directoryEnd + 1
      | none => stop
    let (path, relative) :=
      parsePathWithin string start nextIndex (· == webSeparator)
    (some path, relative, nextIndex)
  else
    (none, false, start)

/-- The local method `parse-base-and-extension`, without the next index, which
nothing uses -/
def parseBaseAndExtension (string : List Char) (start stop : Nat) :
    Option (List Char) × Option (List Char) :=
  if start < stop then
    let position :=
      findDelimiterWithin string (· == webExtensionSeparator) start stop
    (some (copySequence string start (position.getD stop)),
      position.map fun position => copySequence string (position + 1) stop)
  else
    (none, none)

/-- The rest of a string after a separator, and the next index. -/
def parseSuffix (separator : Char) (string : List Char) (start : Nat) :
    Option (List Char) × Nat :=
  if string[start]? = some separator then
    (some (copySequence string (start + 1) string.length), string.length)
  else
    (none, start)

/-- The local method `parse-cgi-string` -/
def parseCgiString (string : List Char) (start : Nat) :
    Option (List Char) × Nat :=
  parseSuffix webCgiSeparator string start

/-- The local method `parse-index` -/
def parseIndex (string : List Char) (start : Nat) :
    Option (List Char) × Nat :=
  parseSuffix webIndexSeparator string start

/-- Where `parse-url` takes the name of the file to end. -/
def fileEnd (string : List Char) (usernameEnd : Nat) : Nat :=
  match findDelimiters string (· == webCgiSeparator) usernameEnd with
  | some position => position
  | none =>
      (findDelimiterDown string (· == webIndexSeparator) usernameEnd
        string.length).getD string.length

/-- The values of `parse-url` for the server. -/
structure ParsedServer where
  serverClass : ServerClass
  host : Option (List Char)
  port : Option Int
  username : Option (List Char)
  password : Option (List Char)
deriving DecidableEq

/-- The values of `parse-url` for the directory and the file. -/
structure ParsedFile where
  path : Option (List (List Char))
  relative : Bool
  base : Option (List Char)
  extension : Option (List Char)
  cgiString : Option (List Char)
  index : Option (List Char)
deriving DecidableEq

/-- The first half of `parse-url`, and where it ends. -/
def parseServer (maximumInteger : Nat) (string : List Char)
    (protocol : Option (List Char)) :
    Except UrlError (ParsedServer × Nat) := do
  let (serverClass, protocolEnd) ← parseProtocol string protocol
  let (host, hostEnd) := parseHost string protocolEnd
  let (port, portEnd) ← parsePort maximumInteger string hostEnd
  let (username, password, usernameEnd) := parseUsername string portEnd
  return ({
    serverClass := serverClass
    host := host
    port := port
    username := username
    password := password }, usernameEnd)

/-- The second half of `parse-url`. -/
def parseFile (string : List Char) (usernameEnd : Nat) :
    Except UrlError ParsedFile :=
  let nameEnd := fileEnd string usernameEnd
  let (path, relative, pathEnd) := parseDirectory string usernameEnd nameEnd
  let (base, extension) := parseBaseAndExtension string pathEnd nameEnd
  let (cgiString, cgiStringEnd) := parseCgiString string nameEnd
  let (index, indexEnd) := parseIndex string cgiStringEnd
  if indexEnd = string.length then
    .ok {
      path := path
      relative := relative
      base := base
      extension := extension
      cgiString := cgiString
      index := index }
  else
    .error (.locatorError ("Unexpected suffix for URL '".toList ++ string ++
      "': '".toList ++ copySequence string indexEnd string.length ++ ['\'']))

/-- `parse-url` -/
def parseUrl (maximumInteger : Nat) (string : List Char)
    (protocol : Option (List Char)) :
    Except UrlError (ParsedServer × ParsedFile) := do
  let (server, usernameEnd) ← parseServer maximumInteger string protocol
  let file ← parseFile string usernameEnd
  return (server, file)

/-! ## Locators -/

/-- `<server-url>` -/
structure ServerUrl where
  serverClass : ServerClass
  host : List Char
  port : Option Int
  username : Option (List Char)
  password : Option (List Char)
deriving DecidableEq

/-- `<directory-url>` -/
structure DirectoryUrl where
  server : Option ServerUrl
  path : List Item
  relative : Bool
deriving DecidableEq

/-- `<file-url>` -/
structure FileUrl where
  directory : Option DirectoryUrl
  base : List Char
  extension : Option (List Char)
deriving DecidableEq

/-- The classes of URLs that a string is read as. -/
inductive Url where
  | directory (directory : DirectoryUrl)
  | file (file : FileUrl)
  | fileIndex (file : FileUrl) (index : List Char)
  | cgi (file : FileUrl) (cgiString : List Char)
deriving DecidableEq

/-- `make` of a `<directory-url>` from a path -/
def makeDirectoryUrl (server : Option ServerUrl) (path : List (List Char))
    (relative : Bool) : DirectoryUrl where
  server := server
  path := canonicalizePath path
  relative := relative

/-- `current-directory-locator?` of a `<directory-url>` -/
def DirectoryUrl.isCurrentDirectory (locator : DirectoryUrl) : Bool :=
  locator.relative && locator.path == [.self]

/-- `make` of a `<file-url>` from a base and an extension -/
def makeFileUrl (directory : Option DirectoryUrl)
    (base extension : Option (List Char)) : Except UrlError FileUrl :=
  let directory := directory.filter fun directory =>
    !directory.isCurrentDirectory
  match base with
  | some base =>
      .ok { directory := directory, base := base, extension := extension }
  | none =>
      .error (.locatorError
        "Attempted to create a file locator without a base".toList)

/-- The server that `string-as-url` makes when there is a host. -/
def ParsedServer.makeServer (parsed : ParsedServer) : Option ServerUrl :=
  parsed.host.map fun host => {
    serverClass := parsed.serverClass
    host := host
    port := parsed.port
    username := parsed.username
    password := parsed.password }

/-- What `string-as-url` makes of the values of `parse-url`. -/
def makeUrl (string : List Char) (protocol : Option (List Char))
    (server : Option ServerUrl) (parsed : ParsedFile) :
    Except UrlError Url :=
  let directory := parsed.path.map fun path =>
    makeDirectoryUrl server path parsed.relative
  if parsed.base.isSome || parsed.extension.isSome then do
    let file ← makeFileUrl directory parsed.base parsed.extension
    match parsed.cgiString, parsed.index with
    | some cgiString, _ => return .cgi file cgiString
    | none, some index => return .fileIndex file index
    | none, none => return .file file
  else
    match directory with
    | some directory => .ok (.directory directory)
    | none =>
        let shown :=
          match protocol with
          | some protocol => protocol ++ [webProtocolSeparator]
          | none => string
        .error (.locatorError ("Invalid URL '".toList ++ shown ++
          "': no file or directory component".toList))

/-- `string-as-url` -/
def stringAsUrl (maximumInteger : Nat) (string : List Char)
    (protocol : Option (List Char)) : Except UrlError Url := do
  let (server, file) ← parseUrl maximumInteger string protocol
  makeUrl string protocol server.makeServer file

/-- `as(<url>, string)` -/
def asUrl (maximumInteger : Nat) (string : List Char) : Except UrlError Url :=
  stringAsUrl maximumInteger string none

/-! ## Printing -/

/-- A separator and a text, or nothing. -/
def separated (separator : Char) (text : Option (List Char)) : List Char :=
  match text with
  | some text => separator :: text
  | none => []

/-- `locator-as-string` of a `<server-url>` -/
def ServerUrl.asString (locator : ServerUrl) : List Char :=
  let nameWithoutPort :=
    locator.serverClass.locatorProtocol ++ [webProtocolSeparator] ++
      webHostPrefix ++ locator.host
  if locator.port.isSome || locator.username.isSome ||
      locator.password.isSome then
    nameWithoutPort ++
      separated webPortSeparator (locator.port.map integerToString) ++
      separated webUsernameSeparator locator.username ++
      separated webPasswordSeparator locator.password
  else
    nameWithoutPort

/-- `locator-as-string` of a `<directory-url>` -/
def DirectoryUrl.asString (locator : DirectoryUrl) : List Char :=
  let directoryString :=
    pathToString locator.path locator.relative webSeparator
  match locator.server with
  | some server => server.asString ++ directoryString
  | none => directoryString

/-- `locator-name` of a `<file-url>` -/
def FileUrl.locatorName (locator : FileUrl) : List Char :=
  match locator.extension with
  | some extension => locator.base ++ [webExtensionSeparator] ++ extension
  | none => locator.base

/-- `locator-as-string` of a `<file-url>` -/
def FileUrl.asString (locator : FileUrl) : List Char :=
  match locator.directory with
  | some directory => directory.asString ++ locator.locatorName
  | none => locator.locatorName

/-- `locator-as-string` of a URL -/
def Url.asString : Url → List Char
  | .directory locator => locator.asString
  | .file locator => locator.asString
  | .fileIndex locatorFile index =>
      locatorFile.asString ++ [webIndexSeparator] ++ index
  | .cgi locatorFile cgiString =>
      locatorFile.asString ++ [webCgiSeparator] ++ cgiString

end OpenDylan.System.Web
