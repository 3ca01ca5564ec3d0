import OpenDylan.System.LocatorRoundTrip
import OpenDylan.System.WebLocators
import OpenDylan.System.DateFields

/-!
# What the searches in a URL find

The text that begins at a position of a string decides what a search from there
finds.  Each part of a URL is taken off the front of such a text, and what is
printed for the part stands where it was taken off.
-/

namespace OpenDylan.System.Web

open Locators OpenDylan.System.Dates Lib.Words

/-! ## Positions -/

/-- A text begins at a position of a string. -/
structure TextAt (string : List Char) (position : Nat) (text : List Char) :
    Prop where
  within : position ≤ string.length
  drop_eq : string.drop position = text

variable {string text piece rest front name : List Char}
  {position index : Nat} {isDelimiter : Char → Bool} {character : Char}

theorem textAt_zero (string : List Char) : TextAt string 0 string := by
  constructor
  · exact Nat.zero_le _
  · exact List.drop_zero

theorem findDelimiterDown_here {start : Nat} (order : start ≤ index)
    (found : string[index]? = some character)
    (delimiter : isDelimiter character = true) :
    findDelimiterDown string isDelimiter start (index + 1) = some index := by
  unfold findDelimiterDown
  rw [if_neg (Nat.not_lt.mpr order), found, Option.any_some, if_pos delimiter]

theorem findDelimiterDown_past {start : Nat} (order : start ≤ index)
    (found : string[index]? = some character)
    (other : isDelimiter character = false) :
    findDelimiterDown string isDelimiter start (index + 1) =
      findDelimiterDown string isDelimiter start index := by
  rw [findDelimiterDown, if_neg (Nat.not_lt.mpr order), found,
    Option.any_some, other, if_neg Bool.false_ne_true]

namespace TextAt

theorem length_eq (here : TextAt string position text) :
    string.length = position + text.length := by
  have within := here.within
  rw [← here.drop_eq, List.length_drop]
  omega

theorem advance (here : TextAt string position (piece ++ rest)) :
    TextAt string (position + piece.length) rest := by
  have length := here.length_eq
  rw [List.length_append] at length
  constructor
  · omega
  · rw [← List.drop_drop, here.drop_eq, List.drop_left]

theorem next (here : TextAt string position (character :: rest)) :
    TextAt string (position + 1) rest :=
  @advance string [character] rest position here

theorem copy (here : TextAt string position (piece ++ rest)) :
    copySequence string position (position + piece.length) = piece := by
  unfold copySequence
  rw [List.drop_take, here.drop_eq, Nat.add_sub_cancel_left, List.take_left]

theorem copy_rest (here : TextAt string position text) :
    copySequence string position string.length = text := by
  unfold copySequence
  rw [List.take_length, here.drop_eq]

theorem getElem?_eq (here : TextAt string position text) :
    string[position]? = text.head? := by
  rw [← here.drop_eq, List.head?_drop]

theorem lt_length (here : TextAt string position text) :
    position < string.length ↔ text ≠ [] := by
  rw [here.length_eq, ← List.length_pos_iff]
  omega

/-! ## Searches -/

theorem find_none (here : TextAt string position text)
    (plain : Plain isDelimiter text) :
    findDelimiters string isDelimiter position = none := by
  unfold findDelimiters
  rw [here.drop_eq]
  exact findDelimitersLoop_plain plain

theorem find_first (here : TextAt string position
      (front ++ character :: rest))
    (plain : Plain isDelimiter front)
    (delimiter : isDelimiter character = true) :
    findDelimiters string isDelimiter position =
      some (position + front.length) := by
  unfold findDelimiters
  rw [here.drop_eq]
  exact findDelimitersLoop_first plain delimiter

/-- A search goes past what comes before the first delimiter, or past
everything. -/
theorem search (here : TextAt string position text) :
    (findDelimiters string isDelimiter position).getD string.length =
      position + (beforeFirst isDelimiter text).length := by
  cases split_at_first isDelimiter text with
  | inl plain =>
      rw [here.find_none plain, beforeFirst_plain plain]
      exact here.length_eq
  | inr split =>
      obtain ⟨front, separator, rest, whole, plain, delimiter⟩ := split
      subst whole
      rw [here.find_first plain delimiter, beforeFirst_split plain delimiter]
      rfl

/-- What a search goes past, and where it ends. -/
theorem searched (isDelimiter : Char → Bool)
    (here : TextAt string position text) {stop : Nat}
    (stops : (findDelimiters string isDelimiter position).getD
      string.length = stop) :
    copySequence string position stop = beforeFirst isDelimiter text ∧
      TextAt string stop (fromFirst isDelimiter text) := by
  have parts : TextAt string position
      (beforeFirst isDelimiter text ++ fromFirst isDelimiter text) := by
    rw [beforeFirst_append]
    exact here
  rw [here.search] at stops
  subst stops
  exact ⟨parts.copy, parts.advance⟩

theorem findWithin_none (here : TextAt string position (name ++ rest))
    (plain : Plain isDelimiter name) :
    findDelimiterWithin string isDelimiter position
      (position + name.length) = none := by
  unfold findDelimiterWithin
  rw [here.copy]
  exact findDelimitersLoop_plain plain

theorem findWithin_first
    (here : TextAt string position ((front ++ character :: name) ++ rest))
    (plain : Plain isDelimiter front)
    (delimiter : isDelimiter character = true) :
    findDelimiterWithin string isDelimiter position
        (position + (front ++ character :: name).length) =
      some (position + front.length) := by
  unfold findDelimiterWithin
  rw [here.copy]
  exact findDelimitersLoop_first plain delimiter

/-- A search from an end goes down past what has no delimiters. -/
theorem findDown_plain (here : TextAt string position (name ++ rest))
    (plain : Plain isDelimiter name) {start : Nat}
    (order : start ≤ position) :
    findDelimiterDown string isDelimiter start (position + name.length) =
      findDelimiterDown string isDelimiter start position := by
  induction name using List.reverseRecOn generalizing rest with
  | nil => rfl
  | append_singleton name last inductionHypothesis =>
      have last_plain : isDelimiter last = false :=
        plain last (List.mem_append_right name (List.mem_singleton_self last))
      rw [List.append_assoc] at here
      have found : string[position + name.length]? = some last :=
        here.advance.getElem?_eq
      rw [List.length_append, List.length_singleton, ← Nat.add_assoc,
        findDelimiterDown_past (by omega) found last_plain]
      apply inductionHypothesis here
      intro letter member
      exact plain letter (List.mem_append_left _ member)

theorem findDown_none (here : TextAt string position (name ++ rest))
    (plain : Plain isDelimiter name) :
    findDelimiterDown string isDelimiter position
      (position + name.length) = none := by
  rw [here.findDown_plain plain (Nat.le_refl position)]
  cases position with
  | zero => rfl
  | succ position =>
      unfold findDelimiterDown
      rw [if_pos (Nat.lt_succ_self position)]

/-- The last delimiter before an end. -/
theorem findDown_last
    (here : TextAt string position ((front ++ character :: name) ++ rest))
    (delimiter : isDelimiter character = true)
    (plain : Plain isDelimiter name) :
    findDelimiterDown string isDelimiter position
        (position + (front ++ character :: name).length) =
      some (position + front.length) := by
  have length : position + (front ++ character :: name).length =
      position + front.length + 1 + name.length := by
    rw [List.length_append, List.length_cons]
    omega
  rw [List.append_assoc, List.cons_append] at here
  have found : string[position + front.length]? = some character :=
    here.advance.getElem?_eq
  rw [length, here.advance.next.findDown_plain plain (by omega)]
  exact findDelimiterDown_here (Nat.le_add_right _ _) found delimiter

end TextAt

/-! ## Paths below an end -/

theorem copySequence_take {start finish stop : Nat} (below : finish ≤ stop) :
    copySequence (string.take stop) start finish =
      copySequence string start finish := by
  unfold copySequence
  rw [List.take_take, Nat.min_eq_left below]

/-- The loop of `parse-path` sees nothing past the end. -/
theorem parsePathLoop_take {start stop oldPosition : Nat}
    {characters : List Char} {path : List (List Char)} {relative : Bool}
    (ends : position + characters.length ≤ stop) :
    parsePathLoop (string.take stop) start stop isDelimiter characters
        oldPosition position path relative =
      parsePathLoop string start stop isDelimiter characters oldPosition
        position path relative := by
  induction characters generalizing oldPosition position path relative with
  | nil =>
      unfold parsePathLoop
      rw [copySequence_take (Nat.le_refl stop)]
  | cons character characters inductionHypothesis =>
      rw [List.length_cons] at ends
      unfold parsePathLoop
      rw [copySequence_take (by omega), inductionHypothesis (by omega),
        inductionHypothesis (by omega)]

theorem TextAt.parsePathWithin_eq
    (here : TextAt string position (piece ++ rest)) :
    parsePathWithin string position (position + piece.length) isDelimiter =
      (words isDelimiter piece, isRelative isDelimiter piece) := by
  have stop := here.advance.within
  have length : (string.take (position + piece.length)).length =
      position + piece.length := by
    rw [List.length_take, Nat.min_eq_left stop]
  have whole : parsePath (string.take (position + piece.length)) position
      isDelimiter = _ := parsePath_eq (by omega)
  have taken : (string.take (position + piece.length)).drop position =
      piece := here.copy
  unfold parsePath at whole
  rw [length, taken, parsePathLoop_take (Nat.le_refl _)] at whole
  unfold parsePathWithin
  rw [here.copy]
  exact whole

end OpenDylan.System.Web
