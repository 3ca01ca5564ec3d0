import OpenDylan.System.Locators
import OpenDylan.Lib.Words

/-!
# What locators are read from

The loops of the parser in terms of words: a path is the words between the
separators, the last delimiter splits a string, and the items of a path are
written as the words that they come from.
-/

namespace OpenDylan.System.Locators

open Lib.Words

variable {isSeparator : Char → Bool} {string front name text : List Char}
  {character separator : Char}

/-! ## Delimiters -/

theorem findDelimitersBelow_plain {count : Nat}
    (plain : Plain isSeparator string) :
    findDelimitersBelow string isSeparator count = none := by
  induction count with
  | zero => rfl
  | succ count inductionHypothesis =>
      unfold findDelimitersBelow
      rw [inductionHypothesis]
      cases here : string[count]? with
      | none => rfl
      | some character =>
          have member := List.mem_of_getElem? here
          simp [plain character member]

theorem findDelimitersBelow_last {count : Nat}
    (delimiter : isSeparator character = true)
    (plain : Plain isSeparator name) :
    findDelimitersBelow (front ++ character :: name) isSeparator
      (front.length + 1 + count) = some front.length := by
  induction count with
  | zero =>
      unfold findDelimitersBelow
      simp [delimiter]
  | succ count inductionHypothesis =>
      rw [← Nat.add_assoc]
      unfold findDelimitersBelow
      rw [inductionHypothesis]
      cases here : (front ++ character :: name)[front.length + 1 + count]? with
      | none => rfl
      | some other =>
          have index : front.length + 1 + count =
              front.length + (count + 1) := by omega
          rw [index, List.getElem?_append_right (Nat.le_add_right _ _),
            Nat.add_sub_cancel_left, List.getElem?_cons_succ] at here
          have member := List.mem_of_getElem? here
          simp [plain other member]

/-- A string without delimiters. -/
theorem findDelimitersFromEnd_plain (plain : Plain isSeparator string) :
    findDelimitersFromEnd string isSeparator = none :=
  findDelimitersBelow_plain plain

/-- The last delimiter of a string. -/
theorem findDelimitersFromEnd_last (delimiter : isSeparator character = true)
    (plain : Plain isSeparator name) :
    findDelimitersFromEnd (front ++ character :: name) isSeparator =
      some front.length := by
  unfold findDelimitersFromEnd
  have length : (front ++ character :: name).length =
      front.length + 1 + name.length := by
    simp
    omega
  rw [length]
  exact findDelimitersBelow_last delimiter plain

theorem findDelimitersLoop_plain {index : Nat}
    (plain : Plain isSeparator string) :
    findDelimitersLoop isSeparator string index = none := by
  induction string generalizing index with
  | nil => rfl
  | cons first rest inductionHypothesis =>
      unfold findDelimitersLoop
      rw [plain first List.mem_cons_self, if_neg Bool.false_ne_true]
      apply inductionHypothesis
      intro letter member
      exact plain letter (List.mem_cons_of_mem first member)

theorem findDelimitersLoop_first {index : Nat}
    (plain : Plain isSeparator front)
    (delimiter : isSeparator character = true) :
    findDelimitersLoop isSeparator (front ++ character :: name) index =
      some (index + front.length) := by
  induction front generalizing index with
  | nil =>
      show findDelimitersLoop isSeparator (character :: name) index = _
      unfold findDelimitersLoop
      rw [if_pos delimiter]
      rfl
  | cons first rest inductionHypothesis =>
      show findDelimitersLoop isSeparator
        (first :: (rest ++ character :: name)) index = _
      unfold findDelimitersLoop
      rw [plain first List.mem_cons_self, if_neg Bool.false_ne_true,
        inductionHypothesis fun letter member =>
          plain letter (List.mem_cons_of_mem first member)]
      rw [List.length_cons]
      congr 1
      omega

/-! ## Paths -/

/-- Whether a text does not begin with a separator. -/
def isRelative (isSeparator : Char → Bool) (text : List Char) : Bool :=
  !text.head?.any isSeparator

theorem copySequence_front :
    copySequence (front ++ character :: name) 0 (front.length + 1) =
      front ++ [character] := by
  unfold copySequence
  rw [List.drop_zero, List.take_length_add_append]
  rfl

theorem copySequence_name :
    copySequence (front ++ character :: name) (front.length + 1)
      (front ++ character :: name).length = name := by
  unfold copySequence
  rw [List.take_length, List.drop_length_add_append]
  rfl

theorem drop_eq_append {oldPosition position : Nat}
    (order : oldPosition ≤ position) :
    string.drop oldPosition =
      copySequence string oldPosition position ++ string.drop position := by
  unfold copySequence
  rw [List.drop_take]
  have later : string.drop position =
      (string.drop oldPosition).drop (position - oldPosition) := by
    rw [List.drop_drop]
    congr 1
    omega
  rw [later, List.take_append_drop]

theorem length_copySequence {start finish : Nat}
    (inside : finish ≤ string.length) :
    (copySequence string start finish).length = finish - start := by
  unfold copySequence
  rw [List.length_drop, List.length_take, Nat.min_eq_left inside]

/-- A part without separators is a word if there is anything in it. -/
theorem words_part {oldPosition position : Nat}
    (inside : position ≤ string.length)
    (plain : Plain isSeparator (copySequence string oldPosition position)) :
    words isSeparator (copySequence string oldPosition position) =
      if oldPosition < position then
        [copySequence string oldPosition position]
      else [] := by
  have length : (copySequence string oldPosition position).length =
      position - oldPosition := length_copySequence inside
  by_cases some : oldPosition < position
  · rw [if_pos some]
    apply words_plain plain
    intro nothing
    rw [nothing] at length
    simp only [List.length_nil] at length
    omega
  · rw [if_neg some]
    have nothing : copySequence string oldPosition position = [] := by
      apply List.eq_nil_of_length_eq_zero
      omega
    rw [nothing, words_nil]

/-- The loop of `parse-path` adds the words from the old position on, when
there is no separator between it and the position. -/
theorem parsePathLoop_words {start oldPosition position : Nat}
    {characters : List Char} {path : List (List Char)} {relative : Bool}
    (rest : string.drop position = characters)
    (order : oldPosition ≤ position) (inside : position ≤ string.length)
    (plain : Plain isSeparator
      (copySequence string oldPosition position)) :
    (parsePathLoop string start string.length isSeparator characters
        oldPosition position path relative).1 =
      path ++ words isSeparator (string.drop oldPosition) := by
  induction characters generalizing oldPosition position path relative with
  | nil =>
      have ended : position = string.length := by
        rw [List.drop_eq_nil_iff] at rest
        omega
      subst ended
      rw [drop_eq_append order, rest, List.append_nil,
        words_part inside plain]
      unfold parsePathLoop
      split <;> simp
  | cons character characters inductionHypothesis =>
      have next : string.drop (position + 1) = characters := by
        rw [← List.drop_drop, rest]
        rfl
      have room : position + 1 ≤ string.length := by
        have length := congrArg List.length rest
        rw [List.length_drop, List.length_cons] at length
        omega
      unfold parsePathLoop
      cases here : isSeparator character with
      | true =>
          have nothing : Plain isSeparator
              (copySequence string (position + 1) (position + 1)) := by
            unfold copySequence
            rw [List.drop_take_self]
            intro letter member
            cases member
          rw [if_pos rfl, inductionHypothesis next (Nat.le_refl _) room
            nothing, drop_eq_append order, rest, words_append here,
            words_part inside plain, next]
          split <;> simp
      | false =>
          rw [if_neg Bool.false_ne_true]
          apply inductionHypothesis next (by omega) room
          have longer : copySequence string oldPosition (position + 1) =
              copySequence string oldPosition position ++ [character] := by
            have further : oldPosition ≤ position + 1 := by omega
            have more : string.drop oldPosition =
                copySequence string oldPosition (position + 1) ++
                  string.drop (position + 1) := drop_eq_append further
            rw [drop_eq_append order, rest, next] at more
            have same : (copySequence string oldPosition position ++
                [character]) ++ characters =
                copySequence string oldPosition (position + 1) ++
                  characters := by
              rw [List.append_assoc]
              exact more
            exact (List.append_cancel_right same).symm
          rw [longer]
          intro letter member
          cases List.mem_append.mp member with
          | inl earlier => exact plain letter earlier
          | inr last =>
              rw [List.mem_singleton.mp last]
              exact here

/-- Past the start, `parse-path` does not change whether a path is
relative. -/
theorem parsePathLoop_relative {start stop oldPosition position : Nat}
    {characters : List Char} {path : List (List Char)} {relative : Bool}
    (past : start < position) :
    (parsePathLoop string start stop isSeparator characters oldPosition
      position path relative).2 = relative := by
  induction characters generalizing oldPosition position path with
  | nil => rfl
  | cons character characters inductionHypothesis =>
      unfold parsePathLoop
      rw [if_neg (Nat.ne_of_gt past)]
      split
      · exact inductionHypothesis (by omega)
      · exact inductionHypothesis (by omega)

/-- What `parse-path` comes to. -/
theorem parsePath_eq {start : Nat} (inside : start ≤ string.length) :
    parsePath string start isSeparator =
      (words isSeparator (string.drop start),
        isRelative isSeparator (string.drop start)) := by
  apply Prod.ext
  · have nothing : Plain isSeparator (copySequence string start start) := by
      unfold copySequence
      rw [List.drop_take_self]
      intro letter member
      cases member
    exact parsePathLoop_words rfl (Nat.le_refl start) inside nothing
  · unfold parsePath isRelative
    cases rest : string.drop start with
    | nil => rfl
    | cons character characters =>
        unfold parsePathLoop
        rw [if_pos rfl, List.head?_cons]
        split
        case isTrue here =>
            rw [parsePathLoop_relative (Nat.lt_succ_self start)]
            simp [here]
        case isFalse other =>
            rw [parsePathLoop_relative (Nat.lt_succ_self start)]
            simp [other]

/-! ## Items -/

theorem itemName_canonicalizePath (path : List (List Char)) :
    (canonicalizePath path).map Item.itemName = path := by
  unfold canonicalizePath
  rw [List.map_map]
  apply List.map_id''
  intro item
  show (if item = ['.'] then Item.self
    else if item = ['.', '.'] then Item.parent
    else Item.name item).itemName = item
  by_cases isSelf : item = ['.']
  · rw [if_pos isSelf, isSelf]
    rfl
  · rw [if_neg isSelf]
    by_cases isParent : item = ['.', '.']
    · rw [if_pos isParent, isParent]
      rfl
    · rw [if_neg isParent]
      rfl

/-- A path is printed as the words that it comes from. -/
theorem pathToString_canonicalizePath (path : List (List Char))
    (relative : Bool) :
    pathToString (canonicalizePath path) relative separator =
      (if relative then [] else [separator]) ++ written separator path := by
  unfold pathToString written
  have items : ((canonicalizePath path).map Item.itemName).flatMap
      (fun name => name ++ [separator]) =
        path.flatMap fun name => name ++ [separator] := by
    rw [itemName_canonicalizePath]
  rw [List.flatMap_map] at items
  rw [items]

end OpenDylan.System.Locators
