import Mathlib.Data.List.Basic

/-!
# File-system locators

A locator of a directory has a path, which is relative or not, and on Microsoft
systems perhaps a server: a host or a drive.  A locator of a file has perhaps a
directory, and a name in two parts.  Which of both a string stands for is told
by its last separator.
-/

namespace OpenDylan.System.Locators

/-! ## Paths -/

/-- An item of a path: `#"self"`, `#"parent"` or a name. -/
inductive Item where
  | self
  | parent
  | name (name : List Char)
deriving DecidableEq

/-- `canonicalize-path` -/
def canonicalizePath (path : List (List Char)) : List Item :=
  path.map fun item =>
    if item = ['.'] then .self
    else if item = ['.', '.'] then .parent
    else .name item

/-- `copy-sequence` within a string -/
def copySequence (string : List Char) (start finish : Nat) : List Char :=
  (string.take finish).drop start

/-- The loop of `parse-path`, over the characters from a position on. -/
def parsePathLoop (string : List Char) (start stop : Nat)
    (test : Char → Bool) :
    List Char → Nat → Nat → List (List Char) → Bool →
      List (List Char) × Bool
  | [], oldPosition, _, path, relative =>
      (if oldPosition < stop then
          path ++ [copySequence string oldPosition stop]
        else path,
        relative)
  | character :: characters, oldPosition, position, path, relative =>
      if test character then
        parsePathLoop string start stop test characters (position + 1)
          (position + 1)
          (if oldPosition < position then
              path ++ [copySequence string oldPosition position]
            else path)
          (if position = start then false else relative)
      else
        parsePathLoop string start stop test characters oldPosition
          (position + 1) path relative

/-- `parse-path`, from a position to the end -/
def parsePath (string : List Char) (start : Nat) (test : Char → Bool) :
    List (List Char) × Bool :=
  parsePathLoop string start string.length test (string.drop start) start
    start [] true

/-- `item-name` -/
def Item.itemName : Item → List Char
  | .self => ['.']
  | .parent => ['.', '.']
  | .name text => text

/-- `path-to-string` -/
def pathToString (path : List Item) (relative : Bool) (separator : Char) :
    List Char :=
  (if relative then [] else [separator]) ++
    path.flatMap fun item => item.itemName ++ [separator]

/-! ## Delimiters -/

/-- The loop of `find-delimiters`, over the characters from an index on. -/
def findDelimitersLoop (delimiter : Char → Bool) :
    List Char → Nat → Option Nat
  | [], _ => none
  | character :: characters, index =>
      if delimiter character then some index
      else findDelimitersLoop delimiter characters (index + 1)

/-- `find-delimiter` and `find-delimiters`, by a test of characters -/
def findDelimiters (string : List Char) (delimiter : Char → Bool)
    (start : Nat) : Option Nat :=
  findDelimitersLoop delimiter (string.drop start) start

/-- The loop of `find-delimiters-from-end` below an index. -/
def findDelimitersBelow (string : List Char) (delimiter : Char → Bool) :
    Nat → Option Nat
  | 0 => none
  | index + 1 =>
      if string[index]?.any delimiter then some index
      else findDelimitersBelow string delimiter index

/-- `find-delimiter-from-end` and `find-delimiters-from-end` -/
def findDelimitersFromEnd (string : List Char) (delimiter : Char → Bool) :
    Option Nat :=
  findDelimitersBelow string delimiter string.length

/-- `prefix-equal?` -/
def prefixEqual (string start : List Char) : Bool :=
  decide (string.length ≥ start.length ∧ string.take start.length = start)

/-! ## Locators -/

/-- `<microsoft-server-locator>` -/
inductive Server where
  | unc (host : List Char)
  | volume (drive : Char)
deriving DecidableEq

/-- `<posix-directory-locator>`, which has no server, and
`<microsoft-directory-locator>` -/
structure DirectoryLocator where
  server : Option Server
  path : List Item
  relative : Bool
deriving DecidableEq

/-- `<posix-file-locator>` and `<microsoft-file-locator>` -/
structure FileLocator where
  directory : Option DirectoryLocator
  base : List Char
  extension : Option (List Char)
deriving DecidableEq

/-- `<posix-file-system-locator>` and `<microsoft-file-system-locator>` -/
inductive Locator where
  | directory (directory : DirectoryLocator)
  | file (file : FileLocator)
deriving DecidableEq

/-- `locator-error` -/
inductive LocatorError where
  | invalidDirectory (string : List Char)
  | noBase
deriving DecidableEq

/-- `make` of a directory locator from a path -/
def makeDirectory (server : Option Server) (path : List (List Char))
    (relative : Bool) : DirectoryLocator where
  server := server
  path := canonicalizePath path
  relative := relative

/-- `current-directory-locator?` -/
def DirectoryLocator.isCurrentDirectory (locator : DirectoryLocator) : Bool :=
  locator.relative && locator.path == [.self]

/-- `make` of a file locator -/
def makeFile (directory : Option DirectoryLocator)
    (base extension name : Option (List Char)) :
    Except LocatorError FileLocator :=
  let directory := directory.filter fun directory =>
    !directory.isCurrentDirectory
  let position := name.bind fun name =>
    findDelimitersFromEnd name (· == '.')
  let base := base.or
    (name.map fun name =>
      match position with
      | some position => copySequence name 0 position
      | none => name)
  let extension := extension.or
    (match name, position with
      | some name, some position =>
          some (copySequence name (position + 1) name.length)
      | _, _ => none)
  match base with
  | none => .error .noBase
  | some base =>
      .ok { directory := directory, base := base, extension := extension }

/-- `locator-name` of a file locator -/
def FileLocator.locatorName (locator : FileLocator) : List Char :=
  match locator.extension with
  | some extension => locator.base ++ ['.'] ++ extension
  | none => locator.base

/-- `locator-relative?` -/
def Locator.relative : Locator → Bool
  | .directory locator => locator.relative
  | .file locator =>
      match locator.directory with
      | none => true
      | some parent => parent.relative

/-- `locator-path` -/
def Locator.path : Locator → List Item
  | .directory locator => locator.path
  | .file locator =>
      match locator.directory with
      | none => []
      | some parent => parent.path

/-- `locator-server` of a directory locator, or of the directory of a file
locator -/
def Locator.server : Locator → Option Server
  | .directory locator => locator.server
  | .file locator => locator.directory.bind DirectoryLocator.server

/-! ## Strings as locators -/

/-- `string-as-locator` of a class of file locators, by its separators and what
it does with the string of a directory -/
def fileAsLocator (isSeparator : Char → Bool)
    (directoryAsLocator : List Char → Except LocatorError DirectoryLocator)
    (string : List Char) : Except LocatorError FileLocator :=
  match findDelimitersFromEnd string isSeparator with
  | some position => do
      let directory ←
        directoryAsLocator (copySequence string 0 (position + 1))
      makeFile (some directory) none none
        (some (copySequence string (position + 1) string.length))
  | none => makeFile none none none (some string)

/-- `string-as-locator` of a class of file-system locators -/
def fileSystemAsLocator (isSeparator : Char → Bool)
    (directoryAsLocator : List Char → Except LocatorError DirectoryLocator)
    (string : List Char) : Except LocatorError Locator :=
  if findDelimitersFromEnd string isSeparator = some (string.length - 1) then
    (directoryAsLocator string).map .directory
  else
    (fileAsLocator isSeparator directoryAsLocator string).map .file

/-- `locator-as-string` of a class of file-system locators, by what it does
with a directory -/
def locatorAsString (directoryAsString : DirectoryLocator → List Char) :
    Locator → List Char
  | .directory locator => directoryAsString locator
  | .file locator =>
      match locator.directory with
      | none => locator.locatorName
      | some parent => directoryAsString parent ++ locator.locatorName

namespace Posix

/-- `$posix-separator` -/
def separator : Char := '/'

/-- `curry(\==, $posix-separator)` -/
def isSeparator (character : Char) : Bool := character == separator

/-- `string-as-locator` of `<posix-directory-locator>` -/
def directoryAsLocator (string : List Char) :
    Except LocatorError DirectoryLocator :=
  let (path, relative) := parsePath string 0 isSeparator
  .ok (makeDirectory none path relative)

/-- `locator-as-string` of a `<posix-directory-locator>` -/
def directoryAsString (locator : DirectoryLocator) : List Char :=
  pathToString locator.path locator.relative separator

/-- `as(<posix-file-system-locator>, string)` -/
def asLocator (string : List Char) : Except LocatorError Locator :=
  fileSystemAsLocator isSeparator directoryAsLocator string

/-- `as(<string>, locator)` -/
def asString (locator : Locator) : List Char :=
  locatorAsString directoryAsString locator

end Posix

namespace Microsoft

/-- The first of the `$microsoft-separators` -/
def separator : Char := '\\'

/-- `rcurry(member?, $microsoft-separators)` -/
def isSeparator (character : Char) : Bool :=
  character == '\\' || character == '/'

/-- `$unc-prefix` -/
def uncPrefix : List Char := ['\\', '\\']

/-- `$alternative-unc-prefix` -/
def alternativeUncPrefix : List Char := ['/', '/']

/-- What `string-as-locator` takes for the server, and where the path begins
then -/
def serverOf (string : List Char) : Except LocatorError (Option Server × Nat) :=
  if prefixEqual string uncPrefix ||
      prefixEqual string alternativeUncPrefix then
    match findDelimiters string isSeparator uncPrefix.length with
    | some position =>
        .ok (some (.unc (copySequence string uncPrefix.length position)),
          position)
    | none => .error (.invalidDirectory string)
  else
    match string with
    | drive :: ':' :: _ => .ok (some (.volume drive), 2)
    | _ => .ok (none, 0)

/-- `string-as-locator` of `<microsoft-directory-locator>` -/
def directoryAsLocator (string : List Char) :
    Except LocatorError DirectoryLocator := do
  let (server, nextPosition) ← serverOf string
  let (path, relative) := parsePath string nextPosition isSeparator
  return makeDirectory server path relative

/-- `locator-as-string` of a `<microsoft-server-locator>` -/
def serverAsString : Server → List Char
  | .unc host => uncPrefix ++ host
  | .volume drive => [drive, ':']

/-- `locator-as-string` of a `<microsoft-directory-locator>` -/
def directoryAsString (locator : DirectoryLocator) : List Char :=
  let directoryString := pathToString locator.path locator.relative separator
  match locator.server with
  | some server => serverAsString server ++ directoryString
  | none => directoryString

/-- `as(<microsoft-file-system-locator>, string)` -/
def asLocator (string : List Char) : Except LocatorError Locator :=
  fileSystemAsLocator isSeparator directoryAsLocator string

/-- `as(<string>, locator)` -/
def asString (locator : Locator) : List Char :=
  locatorAsString directoryAsString locator

end Microsoft

end OpenDylan.System.Locators
