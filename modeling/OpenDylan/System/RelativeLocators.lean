import Mathlib.Data.List.Forall2
import OpenDylan.System.SimplifiedPaths

/-!
# Relative and merged locators

`relative-locator` says how to get from a directory to a locator, and
`merge-locators` goes from a directory along a relative locator.  The two
classes of locators tell names apart in their own ways: a Microsoft locator
does not look at the case of letters.
-/

namespace OpenDylan.System.Locators

open OpenDylan.Lib.StackWalk

/-! ## Equality -/

/-- `case-insensitive=` of strings -/
def caseInsensitiveEqual (first second : List Char) : Bool :=
  first.length == second.length &&
    (first.zip second).all fun pair => pair.1.toLower == pair.2.toLower

/-- The classes of file-system locators. -/
inductive LocatorClass where
  | posix
  | microsoft
deriving DecidableEq

/-- `locator-test`, on the items of a path -/
def LocatorClass.locatorTest : LocatorClass → Item → Item → Bool
  | .microsoft, .name first, .name second => caseInsensitiveEqual first second
  | _, first, second => first == second

/-- `case-insensitive=` of bases and extensions on Microsoft systems, and `=`
on the other ones -/
def LocatorClass.equalText : LocatorClass → List Char → List Char → Bool
  | .posix, first, second => first == second
  | .microsoft, first, second => caseInsensitiveEqual first second

/-- `=` of two values that may be missing -/
def equalOption {Value : Type} (equal : Value → Value → Bool) :
    Option Value → Option Value → Bool
  | none, none => true
  | some first, some second => equal first second
  | _, _ => false

/-- `=` of servers -/
def Server.equal : Server → Server → Bool
  | .unc first, .unc second => caseInsensitiveEqual first second
  | .volume first, .volume second => first.toLower == second.toLower
  | _, _ => false

/-- `=` of directory locators -/
def LocatorClass.equalDirectory (kind : LocatorClass)
    (first second : DirectoryLocator) : Bool :=
  first.relative == second.relative &&
    equalOption Server.equal first.server second.server &&
      first.path.length == second.path.length &&
        (first.path.zip second.path).all fun pair =>
          kind.locatorTest pair.1 pair.2

/-- `=` of file locators -/
def LocatorClass.equalFile (kind : LocatorClass)
    (first second : FileLocator) : Bool :=
  equalOption kind.equalDirectory first.directory second.directory &&
    kind.equalText first.base second.base &&
      equalOption kind.equalText first.extension second.extension

/-- `=` of locators -/
def LocatorClass.equal (kind : LocatorClass) : Locator → Locator → Bool
  | .directory first, .directory second => kind.equalDirectory first second
  | .file first, .file second => kind.equalFile first second
  | _, _ => false

/-! ## Making locators -/

/-- An item of the loop of `canonicalize-path`. -/
def Item.canonicalize : Item → Item
  | .name text =>
      if text = ['.'] then .self
      else if text = ['.', '.'] then .parent
      else .name text
  | item => item

/-- What `locator-error` is called with: the texts are "Cannot find relative
path of absolute locator %= from relative locator %=" and "Cannot specify
server for posix directory locator: %=". -/
inductive RelativeError where
  | noRelativePath (locator fromLocator : DirectoryLocator)
  | serverOfPosix (server : Server)
  | making (error : LocatorError)
deriving DecidableEq

/-- `make` of a directory locator from the items of a path -/
def LocatorClass.makeLocator (kind : LocatorClass) (server : Option Server)
    (path : List Item) (relative : Bool) :
    Except RelativeError DirectoryLocator :=
  match kind, server with
  | .posix, some server => .error (.serverOfPosix server)
  | _, _ =>
      .ok {
        server := server
        path := path.map Item.canonicalize
        relative := relative }

/-- `make` of a file locator in another directory -/
def FileLocator.inDirectory (locator : FileLocator)
    (directory : Option DirectoryLocator) : Except RelativeError FileLocator :=
  (makeFile directory (some locator.base) locator.extension none).mapError
    .making

/-! ## Simplifying -/

/-- `simplify-locator` of a directory locator -/
def LocatorClass.simplifyDirectory (kind : LocatorClass)
    (locator : DirectoryLocator) : Except RelativeError DirectoryLocator :=
  let simplified := simplifyPath locator.path locator.relative
  if locator.path = simplified then .ok locator
  else kind.makeLocator locator.server simplified locator.relative

/-- `simplify-locator` of a file locator -/
def LocatorClass.simplifyFile (kind : LocatorClass) (locator : FileLocator) :
    Except RelativeError FileLocator := do
  let simplified ← locator.directory.mapM kind.simplifyDirectory
  if equalOption kind.equalDirectory locator.directory simplified then
    return locator
  else
    locator.inDirectory simplified

/-- `simplify-locator` -/
def LocatorClass.simplifyLocator (kind : LocatorClass) :
    Locator → Except RelativeError Locator
  | .directory locator => (kind.simplifyDirectory locator).map .directory
  | .file locator => (kind.simplifyFile locator).map .file

/-! ## Relative locators -/

/-- `relative-path`, from the items on where its loop is -/
def relativePath (test : Item → Item → Bool) :
    List Item → List Item → List Item
  | [], fromPath => List.replicate fromPath.length .parent
  | item :: path, [] => item :: path
  | item :: path, fromItem :: fromPath =>
      if test item fromItem then relativePath test path fromPath
      else
        List.replicate (fromPath.length + 1) .parent ++ item :: path

/-- `relative-locator` of a directory locator -/
def LocatorClass.relativeDirectory (kind : LocatorClass)
    (locator fromLocator : DirectoryLocator) :
    Except RelativeError DirectoryLocator :=
  if !locator.relative && fromLocator.relative then
    .error (.noRelativePath locator fromLocator)
  else if !equalOption Server.equal locator.server fromLocator.server then
    .ok locator
  else if locator.path = fromLocator.path then
    kind.makeLocator none [.self] true
  else
    kind.makeLocator none
      (relativePath kind.locatorTest locator.path fromLocator.path) true

/-- `relative-locator` of a file locator -/
def LocatorClass.relativeFile (kind : LocatorClass) (locator : FileLocator)
    (fromDirectory : DirectoryLocator) : Except RelativeError FileLocator := do
  let relativeDirectory ← locator.directory.mapM fun directory =>
    kind.relativeDirectory directory fromDirectory
  if equalOption kind.equalDirectory relativeDirectory locator.directory then
    return locator
  else
    locator.inDirectory relativeDirectory

/-- `relative-locator` from a directory -/
def LocatorClass.relativeLocator (kind : LocatorClass) :
    Locator → DirectoryLocator → Except RelativeError Locator
  | .directory locator, fromDirectory =>
      (kind.relativeDirectory locator fromDirectory).map .directory
  | .file locator, fromDirectory =>
      (kind.relativeFile locator fromDirectory).map .file

/-! ## Merged locators -/

/-- `merge-locators` of two directory locators -/
def LocatorClass.mergeDirectories (kind : LocatorClass)
    (locator fromLocator : DirectoryLocator) :
    Except RelativeError DirectoryLocator :=
  if locator.relative then
    kind.makeLocator fromLocator.server (fromLocator.path ++ locator.path)
      fromLocator.relative
  else .ok locator

/-- `merge-locators` of a file locator and a directory locator -/
def LocatorClass.mergeFile (kind : LocatorClass) (locator : FileLocator)
    (fromLocator : DirectoryLocator) : Except RelativeError FileLocator := do
  let mergedDirectory ←
    match locator.directory with
    | some directory => kind.mergeDirectories directory fromLocator
    | none => .ok fromLocator
  if equalOption kind.equalDirectory (some mergedDirectory)
      locator.directory then
    return locator
  else
    locator.inDirectory (some mergedDirectory)

/-- `merge-locators` with a directory -/
def LocatorClass.mergeLocators (kind : LocatorClass) :
    Locator → DirectoryLocator → Except RelativeError Locator
  | .directory locator, fromLocator =>
      (kind.mergeDirectories locator fromLocator).map .directory
  | .file locator, fromLocator =>
      (kind.mergeFile locator fromLocator).map .file

/-! ## Laws of equality -/

theorem caseInsensitiveEqual_iff (first second : List Char) :
    caseInsensitiveEqual first second = true ↔
      first.map Char.toLower = second.map Char.toLower := by
  rw [caseInsensitiveEqual]
  induction first generalizing second with
  | nil => cases second <;> simp
  | cons character first inductionHypothesis =>
      cases second with
      | nil => simp
      | cons letter second =>
          have rest := inductionHypothesis second
          simp only [Bool.and_eq_true, beq_iff_eq] at rest
          simp [← rest, and_left_comm]

theorem LocatorClass.locatorTest_self (kind : LocatorClass) (item : Item) :
    kind.locatorTest item item = true := by
  cases kind with
  | posix => simp [locatorTest]
  | microsoft =>
      cases item with
      | name text => simp [locatorTest, caseInsensitiveEqual_iff]
      | self => rfl
      | parent => rfl

theorem LocatorClass.locatorTest_symm (kind : LocatorClass)
    {first second : Item} (same : kind.locatorTest first second = true) :
    kind.locatorTest second first = true := by
  cases kind with
  | posix =>
      simp only [locatorTest, beq_iff_eq] at same ⊢
      exact same.symm
  | microsoft =>
      cases first <;> cases second <;>
        simp_all [locatorTest, caseInsensitiveEqual_iff]

theorem LocatorClass.locatorTest_trans (kind : LocatorClass)
    {first second third : Item} (same : kind.locatorTest first second = true)
    (next : kind.locatorTest second third = true) :
    kind.locatorTest first third = true := by
  cases kind with
  | posix =>
      simp only [locatorTest, beq_iff_eq] at same next ⊢
      exact same.trans next
  | microsoft =>
      cases first <;> cases second <;> cases third <;>
        simp_all [locatorTest, caseInsensitiveEqual_iff]

theorem Server.equal_self (server : Server) : server.equal server = true := by
  cases server with
  | unc host => simp [equal, caseInsensitiveEqual_iff]
  | volume drive => simp [equal]

theorem Server.equal_symm {first second : Server}
    (same : first.equal second = true) : second.equal first = true := by
  cases first <;> cases second <;>
    simp_all [equal, caseInsensitiveEqual_iff]

theorem Server.equal_trans {first second third : Server}
    (same : first.equal second = true) (next : second.equal third = true) :
    first.equal third = true := by
  cases first <;> cases second <;> cases third <;>
    simp_all [equal, caseInsensitiveEqual_iff]

section

variable {Value : Type} {equal : Value → Value → Bool}

theorem equalOption_self (self : ∀ value, equal value value = true)
    (value : Option Value) : equalOption equal value value = true := by
  cases value with
  | none => rfl
  | some value => exact self value

theorem equalOption_symm
    (symm : ∀ {first second}, equal first second = true →
      equal second first = true) {first second : Option Value}
    (same : equalOption equal first second = true) :
    equalOption equal second first = true := by
  cases first with
  | none =>
      cases second with
      | none => rfl
      | some value => exact same
  | some value =>
      cases second with
      | none => exact same
      | some other => exact symm same

theorem equalOption_trans
    (trans : ∀ {first second third}, equal first second = true →
      equal second third = true → equal first third = true)
    {first second third : Option Value}
    (same : equalOption equal first second = true)
    (next : equalOption equal second third = true) :
    equalOption equal first third = true := by
  cases first <;> cases second <;> cases third <;>
    simp_all [equalOption]
  exact trans same next

end

/-- Paths with the same items, as the class of locators tells them apart. -/
def LocatorClass.SamePath (kind : LocatorClass) (first second : List Item) :
    Prop :=
  List.Forall₂ (fun item other => kind.locatorTest item other = true) first
    second

theorem LocatorClass.samePath_self (kind : LocatorClass) (path : List Item) :
    kind.SamePath path path :=
  List.forall₂_same.mpr fun item _ => kind.locatorTest_self item

theorem LocatorClass.samePath_trans (kind : LocatorClass)
    {first second third : List Item} (same : kind.SamePath first second)
    (next : kind.SamePath second third) : kind.SamePath first third := by
  induction same generalizing third with
  | nil => exact next
  | cons same _ inductionHypothesis =>
      cases next with
      | cons nextSame rest =>
          constructor
          · exact kind.locatorTest_trans same nextSame
          · exact inductionHypothesis rest

theorem LocatorClass.equalDirectory_iff (kind : LocatorClass)
    (first second : DirectoryLocator) :
    kind.equalDirectory first second = true ↔
      first.relative = second.relative ∧
        equalOption Server.equal first.server second.server = true ∧
          kind.SamePath first.path second.path := by
  simp only [equalDirectory, SamePath, Bool.and_eq_true, beq_iff_eq,
    List.all_eq_true, List.forall₂_iff_zip, and_assoc, Prod.forall]

theorem LocatorClass.equalDirectory_self (kind : LocatorClass)
    (locator : DirectoryLocator) :
    kind.equalDirectory locator locator = true := by
  rw [equalDirectory_iff]
  exact ⟨rfl, equalOption_self Server.equal_self _, kind.samePath_self _⟩

theorem LocatorClass.equalDirectory_trans (kind : LocatorClass)
    {first second third : DirectoryLocator}
    (same : kind.equalDirectory first second = true)
    (next : kind.equalDirectory second third = true) :
    kind.equalDirectory first third = true := by
  rw [equalDirectory_iff] at same next ⊢
  rcases same with ⟨relative, server, path⟩
  rcases next with ⟨nextRelative, nextServer, nextPath⟩
  refine ⟨relative.trans nextRelative, ?_, kind.samePath_trans path nextPath⟩
  exact equalOption_trans (@Server.equal_trans) server nextServer

theorem LocatorClass.equalText_self (kind : LocatorClass) (text : List Char) :
    kind.equalText text text = true := by
  cases kind with
  | posix => simp [equalText]
  | microsoft => simp [equalText, caseInsensitiveEqual_iff]

theorem LocatorClass.equalFile_of {kind : LocatorClass}
    {first second : DirectoryLocator}
    (same : kind.equalDirectory first second = true) (base : List Char)
    (extension : Option (List Char)) :
    kind.equalFile ⟨some first, base, extension⟩
      ⟨some second, base, extension⟩ = true := by
  rw [equalFile, equalOption_self kind.equalText_self, kind.equalText_self,
    Bool.and_true, Bool.and_true]
  exact same

/-! ## Paths made of names -/

/-- A path made of names. -/
def Named (path : List Item) : Prop :=
  ∀ item ∈ path, ∃ text, item = .name text ∧ text ≠ ['.'] ∧
    text ≠ ['.', '.']

theorem Named.canonicalize {path : List Item} (named : Named path) :
    path.map Item.canonicalize = path := by
  conv_rhs => rw [← List.map_id path]
  apply List.map_congr_left
  intro item member
  rcases named item member with ⟨text, rfl, notSelf, notParent⟩
  simp [Item.canonicalize, notSelf, notParent]

theorem Named.texts {path : List Item} (named : Named path) :
    ∃ texts : List (List Char), path = texts.map .name := by
  induction path with
  | nil => exact ⟨[], rfl⟩
  | cons item path inductionHypothesis =>
      rcases named item List.mem_cons_self with ⟨text, rfl, -⟩
      have rest : Named path := fun item member =>
        named item (List.mem_cons_of_mem _ member)
      rcases inductionHypothesis rest with ⟨texts, rfl⟩
      exact ⟨text :: texts, rfl⟩

theorem Named.drop {path : List Item} (named : Named path) (count : Nat) :
    Named (path.drop count) :=
  fun item member => named item (List.mem_of_mem_drop member)

theorem Named.take {path : List Item} (named : Named path) (count : Nat) :
    Named (path.take count) :=
  fun item member => named item (List.mem_of_mem_take member)

theorem Named.append {first second : List Item} (named : Named first)
    (rest : Named second) : Named (first ++ second) := by
  intro item member
  cases List.mem_append.mp member with
  | inl before => exact named item before
  | inr after => exact rest item after

theorem canonicalize_parents (count : Nat) :
    (List.replicate count Item.parent).map Item.canonicalize =
      List.replicate count .parent := by
  rw [List.map_replicate]
  rfl

theorem canonicalize_comp_canonicalize :
    Item.canonicalize ∘ Item.canonicalize = Item.canonicalize := by
  ext item
  cases item with
  | self => rfl
  | parent => rfl
  | name text =>
      rw [Function.comp_apply, Item.canonicalize]
      split
      · rfl
      · split
        · rfl
        · rename_i notSelf notParent
          rw [Item.canonicalize, if_neg notSelf, if_neg notParent]

theorem net_names (texts : List (List Char)) :
    net (moves (texts.map .name)) = ⟨0, texts.reverse⟩ := by
  have straight : moves (texts.map .name) =
      (⟨0, texts.reverse⟩ : Net (List Char)).moves := by
    simp [moves, Net.moves, Item.toMove]
  rw [straight, net_moves]

theorem net_parents_names (count : Nat) (texts : List (List Char)) :
    net (moves (List.replicate count .parent ++ texts.map .name)) =
      ⟨count, texts.reverse⟩ := by
  have straight :
      moves (List.replicate count .parent ++ texts.map .name) =
        (⟨count, texts.reverse⟩ : Net (List Char)).moves := by
    simp [moves, Net.moves, Item.toMove]
  rw [straight, net_moves]

/-- Where a path leads that goes up from a directory and down again. -/
theorem simplifyPath_return {path fromPath : List Item} (named : Named path)
    (fromNamed : Named fromPath) {count : Nat}
    (inside : count ≤ fromPath.length) :
    simplifyPath (fromPath ++
      (List.replicate (fromPath.length - count) .parent ++ path)) false =
        fromPath.take count ++ path := by
  rcases named.texts with ⟨texts, rfl⟩
  rcases fromNamed.texts with ⟨fromTexts, rfl⟩
  rw [List.length_map] at inside ⊢
  have shorter : fromTexts.length - (fromTexts.length - count) = count := by
    omega
  have effect : net (moves (fromTexts.map .name ++
      (List.replicate (fromTexts.length - count) .parent ++
        texts.map .name))) =
      ⟨0, texts.reverse ++ (fromTexts.take count).reverse⟩ := by
    rw [moves, List.map_append, ← moves, ← moves, net_append, net_names,
      net_parents_names, Net.followedBy]
    simp [List.drop_reverse, shorter]
  rw [simplifyPath_eq, effect, simplePath]
  simp [List.map_take]

theorem named_nil : Named [] := by
  intro item member
  cases member

theorem simplifyPath_named {path : List Item} (named : Named path) :
    simplifyPath path false = path := by
  have whole := simplifyPath_return named_nil named (Nat.le_refl _)
  rw [Nat.sub_self, List.take_length, List.append_nil] at whole
  simpa using whole

theorem simplifyPath_self {path : List Item} (named : Named path) :
    simplifyPath (path ++ [.self]) false = path := by
  have stays : net (moves (path ++ [.self])) = net (moves path) := by
    rw [moves, List.map_append, ← moves, net_append]
    simp [net, Net.followedBy, Net.add, Item.toMove]
  rw [simplifyPath_eq, stays, ← simplifyPath_eq, simplifyPath_named named]

/-- The loop goes along what the paths have in common, then up and down. -/
theorem relativePath_eq (test : Item → Item → Bool)
    (path fromPath : List Item) :
    ∃ count, count ≤ fromPath.length ∧
      relativePath test path fromPath =
        List.replicate (fromPath.length - count) .parent ++
          path.drop count ∧
      List.Forall₂ (fun item other => test item other = true)
        (path.take count) (fromPath.take count) := by
  induction path generalizing fromPath with
  | nil => exact ⟨0, Nat.zero_le _, by simp [relativePath], by simp⟩
  | cons item path inductionHypothesis =>
      cases fromPath with
      | nil => exact ⟨0, Nat.zero_le _, by simp [relativePath], by simp⟩
      | cons fromItem fromPath =>
          rw [relativePath]
          split
          · rename_i same
            rcases inductionHypothesis fromPath with
              ⟨count, inside, result, common⟩
            refine ⟨count + 1, Nat.succ_le_succ inside, ?_, ?_⟩
            · simp [result]
            · exact List.Forall₂.cons same common
          · exact ⟨0, Nat.zero_le _, by simp, by simp⟩

/-! ## There and back -/

/-- A server that a class of locators has: none on other than Microsoft
systems. -/
def LocatorClass.Allows (kind : LocatorClass) (server : Option Server) : Prop :=
  kind = .posix → server = none

theorem LocatorClass.makeLocator_eq {kind : LocatorClass}
    {server : Option Server} (allowed : kind.Allows server)
    (path : List Item) (relative : Bool) :
    kind.makeLocator server path relative =
      .ok ⟨server, path.map Item.canonicalize, relative⟩ := by
  cases kind with
  | posix =>
      rw [allowed rfl]
      rfl
  | microsoft => rfl

theorem FileLocator.inDirectory_eq (locator : FileLocator)
    (directory : Option DirectoryLocator) :
    locator.inDirectory directory =
      .ok { locator with
        directory := directory.filter (!·.isCurrentDirectory) } := by
  rcases locator with ⟨old, base, extension⟩
  cases extension <;> rfl

theorem LocatorClass.simplifyDirectory_eq {kind : LocatorClass}
    {locator : DirectoryLocator} (allowed : kind.Allows locator.server)
    (named : Named (simplifyPath locator.path locator.relative)) :
    kind.simplifyDirectory locator =
      .ok { locator with
        path := simplifyPath locator.path locator.relative } := by
  rw [simplifyDirectory]
  split
  · rename_i simple
    rw [← simple]
  · rw [makeLocator_eq allowed, named.canonicalize]

/-- A relative locator is the way from a directory to a locator. -/
structure LocatorClass.IsWay (kind : LocatorClass)
    (way fromLocator locator : DirectoryLocator) : Prop where
  relative : way.relative = true
  canonical : way.path.map Item.canonicalize = way.path
  named : Named (simplifyPath (fromLocator.path ++ way.path) false)
  same : kind.SamePath
    (simplifyPath (fromLocator.path ++ way.path) false) locator.path

theorem LocatorClass.relativeDirectory_isWay (kind : LocatorClass)
    {locator fromLocator : DirectoryLocator}
    (absolute : fromLocator.relative = false)
    (named : Named locator.path) (fromNamed : Named fromLocator.path)
    (sameServer : equalOption Server.equal locator.server fromLocator.server =
      true) :
    ∃ way, kind.relativeDirectory locator fromLocator = .ok way ∧
      kind.IsWay way fromLocator locator := by
  have noServer : kind.Allows none := fun _ => rfl
  rw [relativeDirectory, absolute, sameServer]
  simp only [Bool.and_false, Bool.not_true, Bool.false_eq_true, if_false]
  split
  · rename_i samePath
    have stays := simplifyPath_self fromNamed
    refine ⟨_, makeLocator_eq noServer _ _, rfl, rfl, ?_, ?_⟩
    · show Named (simplifyPath (fromLocator.path ++ [.self]) false)
      rw [stays]
      exact fromNamed
    · show kind.SamePath (simplifyPath (fromLocator.path ++ [.self]) false)
        locator.path
      rw [stays, samePath]
      exact kind.samePath_self _
  · rcases relativePath_eq kind.locatorTest locator.path fromLocator.path with
      ⟨count, inside, result, common⟩
    have canonical : (relativePath kind.locatorTest locator.path
        fromLocator.path).map Item.canonicalize =
          relativePath kind.locatorTest locator.path fromLocator.path := by
      rw [result, List.map_append, canonicalize_parents,
        (named.drop count).canonicalize]
    have simplified :=
      simplifyPath_return (named.drop count) fromNamed inside
    rw [← result] at simplified
    refine ⟨_, makeLocator_eq noServer _ _, rfl, ?_, ?_, ?_⟩
    · rw [canonical, canonical]
    · rw [canonical, simplified]
      exact (fromNamed.take count).append (named.drop count)
    · rw [canonical, simplified]
      have whole := List.rel_append
        (common.flip.imp fun _ _ same => kind.locatorTest_symm same)
        (kind.samePath_self (locator.path.drop count))
      simp only [List.take_append_drop] at whole
      exact whole

/-- The way from a directory, merged with it and simplified. -/
theorem LocatorClass.IsWay.merge {kind : LocatorClass}
    {way fromLocator locator : DirectoryLocator}
    (isWay : kind.IsWay way fromLocator locator)
    (allowed : kind.Allows fromLocator.server)
    (absolute : fromLocator.relative = false)
    (fromNamed : Named fromLocator.path) :
    ∃ merged, kind.mergeDirectories way fromLocator = .ok merged ∧
      merged.relative = false ∧ kind.Allows merged.server ∧
      ∃ simplified, kind.simplifyDirectory merged = .ok simplified ∧
        simplified.relative = false ∧
        simplified.server = fromLocator.server ∧
        kind.SamePath simplified.path locator.path := by
  rw [mergeDirectories, isWay.relative, if_pos rfl, makeLocator_eq allowed,
    List.map_append, fromNamed.canonicalize, isWay.canonical, absolute]
  refine ⟨_, rfl, rfl, allowed, ?_⟩
  exact ⟨_, simplifyDirectory_eq allowed isWay.named, rfl, rfl, isWay.same⟩

/-- What `relative-locator` and `merge-locators` are for: the way from a
directory is relative if the directory is on the server of the locator, and
leads back to the locator. -/
def LocatorClass.WayBack (kind : LocatorClass) (locator : Locator)
    (fromLocator : DirectoryLocator) : Prop :=
  ∃ way merged simplified,
    kind.relativeLocator locator fromLocator = .ok way ∧
    (equalOption Server.equal locator.server fromLocator.server = true →
      way.relative = true) ∧
    kind.mergeLocators way fromLocator = .ok merged ∧
    kind.simplifyLocator merged = .ok simplified ∧
    kind.equal simplified locator = true

/-- From another server the way to a locator is the locator. -/
theorem LocatorClass.elsewhere (kind : LocatorClass)
    {locator fromLocator : DirectoryLocator}
    (absolute : locator.relative = false)
    (fromAbsolute : fromLocator.relative = false)
    (named : Named locator.path)
    (otherServer : equalOption Server.equal locator.server
      fromLocator.server = false) :
    kind.relativeDirectory locator fromLocator = .ok locator ∧
      kind.mergeDirectories locator fromLocator = .ok locator ∧
        kind.simplifyDirectory locator = .ok locator := by
  constructor
  · rw [relativeDirectory, fromAbsolute, otherServer]
    simp
  · constructor
    · rw [mergeDirectories, absolute]
      rfl
    · rw [simplifyDirectory, absolute, simplifyPath_named named]
      exact if_pos rfl

theorem LocatorClass.wayBack_directory {kind : LocatorClass}
    {locator fromLocator : DirectoryLocator}
    (fromAllowed : kind.Allows fromLocator.server)
    (absolute : locator.relative = false)
    (fromAbsolute : fromLocator.relative = false)
    (named : Named locator.path) (fromNamed : Named fromLocator.path) :
    kind.WayBack (.directory locator) fromLocator := by
  cases sameServer :
    equalOption Server.equal locator.server fromLocator.server with
  | true =>
      rcases relativeDirectory_isWay kind fromAbsolute named
        fromNamed sameServer with ⟨way, found, isWay⟩
      rcases isWay.merge fromAllowed fromAbsolute fromNamed with
        ⟨merged, mergedTo, -, -, simplified, simple, stays, server, same⟩
      refine ⟨.directory way, .directory merged, .directory simplified,
        ?_, fun _ => isWay.relative, ?_, ?_, ?_⟩
      · rw [relativeLocator, found]
        rfl
      · rw [mergeLocators, mergedTo]
        rfl
      · rw [simplifyLocator, simple]
        rfl
      · rw [equal, equalDirectory_iff, stays, absolute, server]
        exact ⟨rfl, equalOption_symm Server.equal_symm sameServer, same⟩
  | false =>
      rcases elsewhere kind absolute fromAbsolute named sameServer
        with ⟨relative, merged, simplified⟩
      refine ⟨.directory locator, .directory locator, .directory locator,
        ?_, ?_, ?_, ?_, kind.equalDirectory_self locator⟩
      · rw [relativeLocator, relative]
        rfl
      · intro same
        exact absurd (same.symm.trans sameServer) (by decide)
      · rw [mergeLocators, merged]
        rfl
      · rw [simplifyLocator, simplified]
        rfl

theorem LocatorClass.equalDirectory_relative {kind : LocatorClass}
    {first second : DirectoryLocator}
    (different : first.relative ≠ second.relative) :
    ¬kind.equalDirectory first second = true := by
  rw [equalDirectory_iff]
  exact fun same => different same.1

theorem inDirectory_absolute {directory : DirectoryLocator}
    (absolute : directory.relative = false) (old : Option DirectoryLocator)
    (base : List Char) (extension : Option (List Char)) :
    FileLocator.inDirectory ⟨old, base, extension⟩ (some directory) =
      .ok ⟨some directory, base, extension⟩ := by
  rw [FileLocator.inDirectory_eq]
  simp [Option.filter, DirectoryLocator.isCurrentDirectory, absolute]

/-- A file whose directory is simplified to one that equals another. -/
theorem LocatorClass.simplifyFile_equal {kind : LocatorClass}
    {directory merged simplified : DirectoryLocator}
    (simple : kind.simplifyDirectory merged = .ok simplified)
    (absolute : simplified.relative = false)
    (same : kind.equalDirectory simplified directory = true)
    (base : List Char) (extension : Option (List Char)) :
    ∃ result,
      kind.simplifyFile ⟨some merged, base, extension⟩ = .ok result ∧
      kind.equalFile result ⟨some directory, base, extension⟩ = true := by
  have steps : kind.simplifyFile ⟨some merged, base, extension⟩ =
      if kind.equalDirectory merged simplified = true then
        .ok ⟨some merged, base, extension⟩
      else
        FileLocator.inDirectory ⟨some merged, base, extension⟩
          (some simplified) := by
    rw [simplifyFile]
    simp only [Option.mapM_some, simple]
    rfl
  rw [steps]
  split
  · rename_i already
    exact ⟨_, rfl, equalFile_of (kind.equalDirectory_trans already same) _ _⟩
  · rw [inDirectory_absolute absolute]
    exact ⟨_, rfl, equalFile_of same _ _⟩

theorem LocatorClass.relativeFile_eq {kind : LocatorClass}
    {directory fromLocator way : DirectoryLocator}
    (relative : kind.relativeDirectory directory fromLocator = .ok way)
    (base : List Char) (extension : Option (List Char)) :
    kind.relativeFile ⟨some directory, base, extension⟩ fromLocator =
      if kind.equalDirectory way directory = true then
        .ok ⟨some directory, base, extension⟩
      else
        FileLocator.inDirectory ⟨some directory, base, extension⟩
          (some way) := by
  rw [relativeFile]
  simp only [Option.mapM_some, relative]
  rfl

theorem LocatorClass.mergeFile_eq {kind : LocatorClass}
    {way fromLocator merged : DirectoryLocator}
    (mergedTo : kind.mergeDirectories way fromLocator = .ok merged)
    (base : List Char) (extension : Option (List Char)) :
    kind.mergeFile ⟨some way, base, extension⟩ fromLocator =
      if kind.equalDirectory merged way = true then
        .ok ⟨some way, base, extension⟩
      else
        FileLocator.inDirectory ⟨some way, base, extension⟩
          (some merged) := by
  rw [mergeFile]
  simp only [mergedTo]
  rfl

/-- The way to a file, merged, before it is simplified. -/
theorem LocatorClass.IsWay.mergeFile {kind : LocatorClass}
    {way fromLocator locator : DirectoryLocator}
    (isWay : kind.IsWay way fromLocator locator)
    (allowed : kind.Allows fromLocator.server)
    (absolute : fromLocator.relative = false)
    (fromNamed : Named fromLocator.path)
    (old : Option DirectoryLocator) (base : List Char)
    (extension : Option (List Char)) :
    ∃ file, FileLocator.inDirectory ⟨old, base, extension⟩ (some way) =
        .ok file ∧
      (Locator.file file).relative = true ∧
      ∃ merged, kind.mergeFile file fromLocator =
          .ok ⟨some merged, base, extension⟩ ∧
        ∃ simplified, kind.simplifyDirectory merged = .ok simplified ∧
          simplified.relative = false ∧
          simplified.server = fromLocator.server ∧
          kind.SamePath simplified.path locator.path := by
  rw [FileLocator.inDirectory_eq]
  refine ⟨_, rfl, ?_⟩
  cases current : way.isCurrentDirectory with
  | true =>
      have dropped : (some way).filter (!·.isCurrentDirectory) = none := by
        simp [Option.filter, current]
      have pathSelf : way.path = [.self] := by
        simp only [DirectoryLocator.isCurrentDirectory, Bool.and_eq_true,
          beq_iff_eq] at current
        exact current.2
      have same := isWay.same
      rw [pathSelf, simplifyPath_self fromNamed] at same
      rw [dropped]
      refine ⟨rfl, fromLocator, ?_, fromLocator, ?_, absolute, rfl, same⟩
      · exact inDirectory_absolute absolute _ _ _
      · rw [simplifyDirectory, absolute, simplifyPath_named fromNamed]
        exact if_pos rfl
  | false =>
      have kept : (some way).filter (!·.isCurrentDirectory) = some way := by
        simp [Option.filter, current]
      rcases isWay.merge allowed absolute fromNamed with
        ⟨merged, mergedTo, fixed, -, simplified, simple, stays, server, same⟩
      have different : ¬kind.equalDirectory merged way = true := by
        apply equalDirectory_relative
        rw [fixed, isWay.relative]
        exact Bool.false_ne_true
      rw [kept]
      refine ⟨isWay.relative, merged, ?_, simplified, simple, stays, server,
        same⟩
      rw [mergeFile_eq mergedTo, if_neg different,
        inDirectory_absolute fixed]

theorem LocatorClass.wayBack_file {kind : LocatorClass}
    {directory fromLocator : DirectoryLocator}
    (fromAllowed : kind.Allows fromLocator.server)
    (absolute : directory.relative = false)
    (fromAbsolute : fromLocator.relative = false)
    (named : Named directory.path) (fromNamed : Named fromLocator.path)
    (base : List Char) (extension : Option (List Char)) :
    kind.WayBack (.file ⟨some directory, base, extension⟩) fromLocator := by
  cases sameServer :
    equalOption Server.equal directory.server fromLocator.server with
  | true =>
      rcases relativeDirectory_isWay kind fromAbsolute named
        fromNamed sameServer with ⟨way, found, isWay⟩
      have different : ¬kind.equalDirectory way directory = true := by
        apply equalDirectory_relative
        rw [absolute, isWay.relative]
        exact Bool.false_ne_true.symm
      rcases isWay.mergeFile fromAllowed fromAbsolute fromNamed
        (some directory) base extension with
        ⟨file, made, relative, merged, mergedTo, simplified, simple, stays,
          server, same⟩
      have equal : kind.equalDirectory simplified directory = true := by
        rw [equalDirectory_iff, stays, absolute, server]
        exact ⟨rfl, equalOption_symm (@Server.equal_symm) sameServer, same⟩
      rcases simplifyFile_equal simple stays equal base extension with
        ⟨result, final, resultEqual⟩
      refine ⟨.file file, .file ⟨some merged, base, extension⟩, .file result,
        ?_, fun _ => relative, ?_, ?_, resultEqual⟩
      · rw [relativeLocator, relativeFile_eq found, if_neg different, made]
        rfl
      · rw [mergeLocators, mergedTo]
        rfl
      · rw [simplifyLocator, final]
        rfl
  | false =>
      rcases elsewhere kind absolute fromAbsolute named sameServer
        with ⟨relative, merged, simplified⟩
      have self := kind.equalDirectory_self directory
      rcases simplifyFile_equal simplified absolute self base extension with
        ⟨result, final, resultEqual⟩
      refine ⟨.file ⟨some directory, base, extension⟩,
        .file ⟨some directory, base, extension⟩, .file result,
        ?_, ?_, ?_, ?_, resultEqual⟩
      · rw [relativeLocator, relativeFile_eq relative, if_pos self]
        rfl
      · intro same
        exact absurd (same.symm.trans sameServer) (by decide)
      · rw [mergeLocators, mergeFile_eq merged, if_pos self]
        rfl
      · rw [simplifyLocator, final]
        rfl

/-! ## Merging on -/

/-- Merging with one directory and the result with another is merging with the
first directory merged with the other. -/
def LocatorClass.MergesOn (kind : LocatorClass)
    (first second third : DirectoryLocator) : Prop :=
  ∃ front back merged,
    kind.mergeDirectories first second = .ok front ∧
    kind.mergeDirectories front third = .ok merged ∧
    kind.mergeDirectories second third = .ok back ∧
    kind.mergeDirectories first back = .ok merged

theorem LocatorClass.mergeDirectories_absolute (kind : LocatorClass)
    {locator : DirectoryLocator} (absolute : locator.relative = false)
    (fromLocator : DirectoryLocator) :
    kind.mergeDirectories locator fromLocator = .ok locator := by
  rw [mergeDirectories, absolute]
  rfl

theorem LocatorClass.mergeDirectories_relative {kind : LocatorClass}
    {locator fromLocator : DirectoryLocator}
    (relative : locator.relative = true)
    (allowed : kind.Allows fromLocator.server) :
    kind.mergeDirectories locator fromLocator =
      .ok ⟨fromLocator.server,
        (fromLocator.path ++ locator.path).map Item.canonicalize,
        fromLocator.relative⟩ := by
  rw [mergeDirectories, relative, if_pos rfl, makeLocator_eq allowed]

theorem LocatorClass.mergesOn {kind : LocatorClass}
    (first : DirectoryLocator) {second third : DirectoryLocator}
    (secondAllowed : kind.Allows second.server)
    (thirdAllowed : kind.Allows third.server) :
    kind.MergesOn first second third := by
  have merges : ∃ back, kind.mergeDirectories second third = .ok back := by
    cases relative : second.relative with
    | true => exact ⟨_, mergeDirectories_relative relative thirdAllowed⟩
    | false => exact ⟨_, mergeDirectories_absolute kind relative third⟩
  cases firstRelative : first.relative with
  | false =>
      have stays := mergeDirectories_absolute kind firstRelative
      rcases merges with ⟨back, merged⟩
      exact ⟨first, back, first, stays _, stays _, merged, stays _⟩
  | true =>
      have front := mergeDirectories_relative firstRelative secondAllowed
      cases secondRelative : second.relative with
      | false =>
          rw [secondRelative] at front
          have stays := mergeDirectories_absolute kind secondRelative third
          exact ⟨_, second, _, front, mergeDirectories_absolute kind rfl third,
            stays, front⟩
      | true =>
          have back := mergeDirectories_relative secondRelative thirdAllowed
          rw [secondRelative] at front
          refine ⟨_, _, _, front, mergeDirectories_relative rfl thirdAllowed,
            back, ?_⟩
          rw [mergeDirectories_relative firstRelative]
          · simp [canonicalize_comp_canonicalize]
          · exact thirdAllowed

/-- The way from a directory leads back to the locator, and merging is
associative. -/
theorem LocatorClass.ways_and_merges {kind : LocatorClass}
    {locator : Locator} {fromLocator : DirectoryLocator}
    (fromAllowed : kind.Allows fromLocator.server)
    (absolute : locator.relative = false)
    (fromAbsolute : fromLocator.relative = false)
    (named : Named locator.path) (fromNamed : Named fromLocator.path)
    (first : DirectoryLocator) {second third : DirectoryLocator}
    (secondAllowed : kind.Allows second.server)
    (thirdAllowed : kind.Allows third.server) :
    kind.WayBack locator fromLocator ∧ kind.MergesOn first second third := by
  constructor
  · cases locator with
    | directory locator =>
        exact wayBack_directory fromAllowed absolute fromAbsolute named
          fromNamed
    | file locator =>
        rcases locator with ⟨directory, base, extension⟩
        cases directory with
        | none => cases absolute
        | some directory =>
            exact wayBack_file fromAllowed absolute fromAbsolute named
              fromNamed base extension
  · exact mergesOn first secondAllowed thirdAllowed

/-- On a drive, from a directory that differs in the case of a letter. -/
theorem LocatorClass.ways_and_merges_drive :
    LocatorClass.WayBack .microsoft
      (.file ⟨some ⟨some (.volume 'c'), [.name ['A'], .name ['x']], false⟩,
        ['f'], none⟩)
      ⟨some (.volume 'C'), [.name ['a'], .name ['y']], false⟩ ∧
    LocatorClass.MergesOn .microsoft ⟨none, [.parent], true⟩
      ⟨none, [.name ['b']], true⟩
      ⟨some (.volume 'C'), [.name ['a']], false⟩ := by
  have noSymbol (letter : Char) (other : letter ≠ '.') :
      [letter] ≠ ['.'] ∧ [letter] ≠ ['.', '.'] := by
    simp [other]
  have named (letter : Char) (other : letter ≠ '.') (first : Char)
      (firstOther : first ≠ '.') :
      Named [.name [first], .name [letter]] := by
    intro item member
    rcases List.mem_cons.mp member with rfl | rest
    · exact ⟨[first], rfl, noSymbol first firstOther⟩
    · rw [List.mem_singleton.mp rest]
      exact ⟨[letter], rfl, noSymbol letter other⟩
  apply ways_and_merges
  · intro posix
    cases posix
  · rfl
  · rfl
  · exact named 'x' (by decide) 'A' (by decide)
  · exact named 'y' (by decide) 'a' (by decide)
  · intro posix
    cases posix
  · intro posix
    cases posix

end OpenDylan.System.Locators
