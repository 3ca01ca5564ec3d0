import Mathlib.Data.List.Basic

/-!
# First sets of a grammar

The grammar compiler finds what the strings of each nonterminal may begin with
by a search through the rules.  The search does not go through an item again
that it is already at, and a set for which this cut something off is not kept,
but for the sets that were asked for in the first place.
-/

namespace OpenDylan.GrammarCompiler

variable {Token : Type} [DecidableEq Token]

/-! ## Terms, rules and items -/

/-- A rule as the user gives it, by its left-hand side and its right-hand
side. -/
structure UserRule (Token : Type) where
  lhs : Token
  rhs : List Token
deriving DecidableEq

/-- An `<item>`, by the index of its rule and by how many terms of the rule come
before it. -/
structure Item where
  rule : Nat
  position : Nat
deriving DecidableEq

/-- `%grammar-non-terminals`, in the order in which `setup-symbols` makes
them -/
def nonTerminals (rules : List (UserRule Token)) : List Token :=
  rules.foldl
    (fun found rule =>
      if rule.lhs ∈ found then found else found ++ [rule.lhs])
    []

/-- Does `setup-symbols` make a `<non-terminal>` of a token? -/
def isNonTerminal (rules : List (UserRule Token)) (token : Token) : Bool :=
  rules.any fun rule => rule.lhs = token

/-- `nont-rules`, where `add` has put each rule in front of the ones before
it -/
def nontRules (rules : List (UserRule Token)) (token : Token) :
    List (Nat × List Token) :=
  ((rules.zipIdx.filter fun entry => entry.1.lhs = token).map fun entry =>
    (entry.2, entry.1.rhs)).reverse

/-- All `<non-empty-item>`s of a grammar. -/
def nonEmptyItems (rules : List (UserRule Token)) : List Item :=
  rules.zipIdx.flatMap fun entry =>
    (List.range entry.1.rhs.length).map fun position => ⟨entry.2, position⟩

/-! ## First sets of terms -/

/-- A first set: terminals, and `#f` for the empty string. -/
abbrev FirstSet (Token : Type) : Type := List (Option Token)

/-- The slots `term-first-set` of the nonterminals. -/
abbrev FirstSets (Token : Type) : Type := Token → Option (FirstSet Token)

/-- Set the `term-first-set` of a nonterminal. -/
def setFirstSet (sets : FirstSets Token) (token : Token)
    (set : FirstSet Token) : FirstSets Token :=
  Function.update sets token (some set)

/-- `term-first-set`; that of a terminal is set when the terminal is made. -/
def termFirstSet (rules : List (UserRule Token)) (sets : FirstSets Token)
    (token : Token) : Option (FirstSet Token) :=
  if isNonTerminal rules token then sets token else some [some token]

/-- `add-new` -/
def addNew (set : FirstSet Token) (element : Option Token) :
    FirstSet Token :=
  if element ∈ set then set else element :: set

/-- The loop of `do-item` that adds the terminals of an initial first set. -/
def addTerminals (set initial : FirstSet Token) : FirstSet Token :=
  initial.foldl
    (fun set element => if element.isSome then addNew set element else set)
    set

/-- The variables of `compute-first-set` that `do-item` sets, and the slots. -/
structure Progress (Token : Type) where
  set : FirstSet Token
  complete : Bool
  sets : FirstSets Token

/-- The `initial-first-set` of `do-item`, with the slots after it. -/
def initialFirstSet (rules : List (UserRule Token))
    (compute : FirstSets Token → Token → List Item →
      FirstSet Token × FirstSets Token)
    (sets : FirstSets Token) (term : Token) (visited : List Item) :
    FirstSet Token × FirstSets Token :=
  match termFirstSet rules sets term with
  | some set => (set, sets)
  | none => compute sets term visited

/-- The local method `do-item` for the item at a position of a rule, over the
terms from there on and by what computes the first sets of terms that have
none. -/
def doItem (rules : List (UserRule Token))
    (compute : FirstSets Token → Token → List Item →
      FirstSet Token × FirstSets Token)
    (visited : List Item) (rule : Nat) :
    List Token → Nat → Progress Token → Progress Token
  | [], _, progress =>
      { progress with set := addNew progress.set none }
  | term :: terms, position, progress =>
      if ⟨rule, position⟩ ∈ visited then
        { progress with complete := false }
      else
        let (initial, sets) :=
          initialFirstSet rules compute progress.sets term
            (⟨rule, position⟩ :: visited)
        let progress := {
          set := addTerminals progress.set initial
          complete :=
            progress.complete && (termFirstSet rules sets term).isSome
          sets := sets }
        if none ∈ initial then
          doItem rules compute visited rule terms (position + 1) progress
        else progress

/-- `compute-first-set`, with a bound on how deep the search goes. -/
def computeFirstSet (rules : List (UserRule Token)) :
    Nat → FirstSets Token → Token → List Item →
      FirstSet Token × FirstSets Token
  | 0, sets, _, _ => ([], sets)
  | depth + 1, sets, token, visited =>
      let progress := (nontRules rules token).foldl
        (fun progress entry =>
          doItem rules (computeFirstSet rules depth) visited entry.1 entry.2 0
            progress)
        { set := [], complete := true, sets := sets }
      (progress.set,
        if progress.complete then
          setFirstSet progress.sets token progress.set
        else progress.sets)

/-- A depth that no search reaches, for each step of it visits another item. -/
def depth (rules : List (UserRule Token)) : Nat :=
  (nonEmptyItems rules).length + 1

/-- The step of `setup-first-sets` for a nonterminal. -/
def setupFirstSet (rules : List (UserRule Token)) (sets : FirstSets Token)
    (token : Token) : FirstSets Token :=
  match sets token with
  | some _ => sets
  | none =>
      let (set, sets) := computeFirstSet rules (depth rules) sets token []
      setFirstSet sets token set

/-- `setup-first-sets` -/
def setupFirstSets (rules : List (UserRule Token)) : FirstSets Token :=
  (nonTerminals rules).foldl (setupFirstSet rules) fun _ => none

/-! ## First sets of items -/

/-- The slots `item-first-set` of the items. -/
abbrev ItemFirstSets (Token : Type) : Type := Item → Option (FirstSet Token)

/-- `combine-first-sets` -/
def combineFirstSets (alpha beta : FirstSet Token) : FirstSet Token :=
  if none ∈ alpha then
    alpha.foldl
      (fun result element =>
        if element.isSome ∧ element ∉ beta then element :: result else result)
      beta
  else alpha

/-- `item-next-first-set` of the item before a position of a rule, over the
terms from there on, with `compute-item-first-set`; `none` is the error for a
term without a first set. -/
def nextFirstSet (rules : List (UserRule Token)) (sets : FirstSets Token)
    (rule : Nat) :
    List Token → Nat → ItemFirstSets Token →
      Option (FirstSet Token × ItemFirstSets Token)
  | [], _, slots => some ([none], slots)
  | term :: terms, position, slots =>
      if isNonTerminal rules term = false ∨ terms = [] then
        (termFirstSet rules sets term).map fun set => (set, slots)
      else
        match slots ⟨rule, position⟩ with
        | some set => some (set, slots)
        | none =>
            match termFirstSet rules sets term with
            | none => none
            | some first =>
                if none ∈ first then
                  (nextFirstSet rules sets rule terms (position + 1)
                    slots).map fun (rest, slots) =>
                      let set := combineFirstSets first rest
                      (set, Function.update slots ⟨rule, position⟩ (some set))
                else
                  some (first,
                    Function.update slots ⟨rule, position⟩ (some first))

/-- The terms that come after the one at an item. -/
def termsAfter (rules : List (UserRule Token)) (item : Item) : List Token :=
  match rules[item.rule]? with
  | some rule => rule.rhs.drop (item.position + 1)
  | none => []

/-- `item-next-first-set` -/
def itemNextFirstSet (rules : List (UserRule Token))
    (sets : FirstSets Token) (item : Item) (slots : ItemFirstSets Token) :
    Option (FirstSet Token × ItemFirstSets Token) :=
  nextFirstSet rules sets item.rule (termsAfter rules item)
    (item.position + 1) slots

/-- The answers of `item-next-first-set` for items one after the other. -/
def itemNextFirstSets (rules : List (UserRule Token))
    (sets : FirstSets Token) :
    List Item → ItemFirstSets Token → Option (List (FirstSet Token))
  | [], _ => some []
  | item :: items, slots =>
      match itemNextFirstSet rules sets item slots with
      | none => none
      | some (set, slots) =>
          (itemNextFirstSets rules sets items slots).map (set :: ·)

end OpenDylan.GrammarCompiler
