import OpenDylan.Lib.StackWalk
import OpenDylan.System.Locators

/-!
# Simplified paths

`simplify-path` keeps on a stack what is left of a path: names, above the
parents that no name cancels.  A path is walked from a directory item by item,
and the parent of the root is the root.
-/

namespace OpenDylan.System.Locators

open OpenDylan.Lib.StackWalk

/-! ## Simplifying -/

/-- An item of the loop of `simplify-path`. -/
def simplifyItem (newPath : List Item) : Item → List Item
  | .self => newPath
  | .parent =>
      if newPath.isEmpty || newPath.head? = some .parent then
        .parent :: newPath
      else
        newPath.tail
  | .name name => .name name :: newPath

/-- `simplify-path` -/
def simplifyPath (path : List Item) (relative : Bool) : List Item :=
  let newPath := path.foldl simplifyItem []
  let newPath :=
    if newPath.isEmpty && relative then [.self] else newPath
  newPath.reverse

/-! ## Walking -/

/-- What an item does on a walk. -/
def Item.toMove : Item → Move (List Char)
  | .self => .stay
  | .parent => .up
  | .name text => .down text

/-- The moves of a path. -/
def moves (path : List Item) : List (Move (List Char)) :=
  path.map Item.toMove

/-- The directory that a path leads to from a directory.  A directory is the
list of the names on the way to it, the last one first. -/
def walkPath (directory : List (List Char)) (path : List Item) :
    List (List Char) :=
  walk directory (moves path)

/-- The stack that stands for the effect of a walk. -/
def stackOf (effect : Net (List Char)) : List Item :=
  effect.downs.map .name ++ List.replicate effect.ups .parent

theorem simplifyItem_stackOf (effect : Net (List Char)) (item : Item) :
    simplifyItem (stackOf effect) item =
      stackOf (effect.add item.toMove) := by
  rcases effect with ⟨ups, downs⟩
  cases item with
  | self => rfl
  | name name => rfl
  | parent =>
      cases downs with
      | nil => cases ups <;> rfl
      | cons name downs => rfl

theorem foldl_simplifyItem (path : List Item) (effect : Net (List Char)) :
    path.foldl simplifyItem (stackOf effect) =
      stackOf ((moves path).foldl Net.add effect) := by
  induction path generalizing effect with
  | nil => rfl
  | cons item path inductionHypothesis =>
      rw [List.foldl_cons, simplifyItem_stackOf, inductionHypothesis]
      rfl

/-- The simplified path with a net effect. -/
def simplePath (effect : Net (List Char)) (relative : Bool) : List Item :=
  if effect = ⟨0, []⟩ ∧ relative = true then [.self]
  else List.replicate effect.ups .parent ++ effect.downs.reverse.map .name

theorem stackOf_eq_nil {effect : Net (List Char)} :
    stackOf effect = [] ↔ effect = ⟨0, []⟩ := by
  rcases effect with ⟨ups, downs⟩
  simp [stackOf, and_comm]

theorem simplifyPath_eq (path : List Item) (relative : Bool) :
    simplifyPath path relative = simplePath (net (moves path)) relative := by
  have stack : path.foldl simplifyItem [] = stackOf (net (moves path)) :=
    foldl_simplifyItem path ⟨0, []⟩
  rw [simplifyPath, stack, simplePath]
  simp only [Bool.and_eq_true, List.isEmpty_iff, stackOf_eq_nil]
  split
  · rfl
  · rw [stackOf, List.reverse_append, List.reverse_replicate, List.map_reverse]

/-- The simplified path has the effect of the path. -/
theorem net_simplePath (effect : Net (List Char)) (relative : Bool) :
    net (moves (simplePath effect relative)) = effect := by
  rw [simplePath]
  split
  · rename_i idle
    rw [idle.1]
    rfl
  · have straight : moves (List.replicate effect.ups .parent ++
        effect.downs.reverse.map .name) = effect.moves := by
      simp [moves, Net.moves, Item.toMove]
    rw [straight, net_moves]

theorem net_simplifyPath (path : List Item) (relative : Bool) :
    net (moves (simplifyPath path relative)) = net (moves path) := by
  rw [simplifyPath_eq, net_simplePath]

/-! ## The normal form -/

/-- What a simplified path is to be: it stands for itself, `#"self"` and
`#"parent"` are where they have to be, and it leads where the path does; an
absolute one does not start with the parent of the root, and is the same for
another path to the same directory. -/
structure Simplifies (path other : List Item) (relative : Bool) : Prop where
  idempotent : simplifyPath (simplifyPath path relative) relative =
    simplifyPath path relative
  self : .self ∈ simplifyPath path relative →
    relative = true ∧ simplifyPath path relative = [.self]
  parents : ∃ count rest, simplifyPath path relative =
    List.replicate count .parent ++ rest ∧ .parent ∉ rest
  walks : ∀ directory, walkPath directory (simplifyPath path relative) =
    walkPath directory path
  root : relative = false →
    (simplifyPath path relative).head? ≠ some .parent
  unique : relative = false → walkPath [] path = walkPath [] other →
    simplifyPath path relative = simplifyPath other relative

theorem self_mem_simplePath {effect : Net (List Char)} {relative : Bool}
    (member : .self ∈ simplePath effect relative) :
    relative = true ∧ simplePath effect relative = [.self] := by
  rw [simplePath] at member ⊢
  split
  · rename_i idle
    exact ⟨idle.2, rfl⟩
  · rename_i busy
    simp [busy] at member

theorem simplePath_parents (effect : Net (List Char)) (relative : Bool) :
    ∃ count rest, simplePath effect relative =
      List.replicate count .parent ++ rest ∧ .parent ∉ rest := by
  rw [simplePath]
  split
  · exact ⟨0, [.self], rfl, by simp⟩
  · exact ⟨effect.ups, _, rfl, by simp⟩

theorem head_simplePath (effect : Net (List Char)) :
    (simplePath effect false).head? = some .parent ↔ 0 < effect.ups := by
  rcases effect with ⟨ups, downs⟩
  cases ups with
  | zero =>
      cases downs.reverse with
      | nil => simp [simplePath]
      | cons name names => simp [simplePath]
  | succ ups => simp [simplePath, List.replicate_succ]

/-- From the root only the way down counts. -/
theorem walkPath_root (path : List Item) :
    walkPath [] path = (net (moves path)).downs := by
  rw [walkPath, walk_eq, Net.apply, List.drop_nil, List.append_nil]

theorem simplifies_of_low {path other : List Item} {relative : Bool}
    (low : relative = true ∨
      ¬Climbs (moves path) ∧ ¬Climbs (moves other)) :
    Simplifies path other relative where
  idempotent := by
    rw [simplifyPath_eq, net_simplifyPath, simplifyPath_eq]
  self := by
    rw [simplifyPath_eq]
    exact self_mem_simplePath
  parents := by
    rw [simplifyPath_eq]
    exact simplePath_parents _ relative
  walks := by
    intro directory
    rw [walkPath, walk_eq, net_simplifyPath, walkPath, walk_eq]
  root := by
    rintro rfl
    rw [simplifyPath_eq, ne_eq, head_simplePath, ← climbs_iff]
    exact (low.resolve_left Bool.false_ne_true).1
  unique := by
    rintro rfl same
    have flat := low.resolve_left Bool.false_ne_true
    rw [climbs_iff, climbs_iff] at flat
    rw [walkPath_root, walkPath_root] at same
    have effects : net (moves path) = net (moves other) := by
      rcases pathEffect : net (moves path) with ⟨ups, downs⟩
      rcases otherEffect : net (moves other) with ⟨ups', downs'⟩
      rw [pathEffect, otherEffect] at flat same
      simp at flat same
      simp [flat, same]
    rw [simplifyPath_eq, simplifyPath_eq, effects]

/-- Two paths are simplified as they are to be just when they are relative, or
neither of them climbs above the root. -/
theorem simplifies_iff (path other : List Item) (relative : Bool) :
    Simplifies path other relative ∧ Simplifies other path relative ↔
      relative = true ∨ ¬Climbs (moves path) ∧ ¬Climbs (moves other) := by
  constructor
  · rintro ⟨first, second⟩
    cases relative with
    | true => exact Or.inl rfl
    | false =>
        right
        have rootFirst := first.root rfl
        have rootSecond := second.root rfl
        rw [simplifyPath_eq, ne_eq, head_simplePath, ← climbs_iff]
          at rootFirst rootSecond
        exact ⟨rootFirst, rootSecond⟩
  · intro low
    constructor
    · exact simplifies_of_low low
    · exact simplifies_of_low (low.imp_right And.symm)

/-- The parent of the root stays in an absolute path. -/
theorem parent_of_root_kept :
    ¬(Simplifies [.parent] [] false ∧ Simplifies [] [.parent] false) := by
  rintro ⟨simplified, -⟩
  exact simplified.root rfl rfl

end OpenDylan.System.Locators
