import Mathlib.Data.List.Basic

/-!
# Lines of a text

A line ends with a line feed, a carriage return or both in this order, and the
last line of a text perhaps with none of them.  A text whose lines are told
apart is one in which no line feed comes after a lone carriage return.
-/

namespace OpenDylan.Lib.Lines

inductive Terminator where
  | lineFeed
  | carriageReturn
  | both
deriving DecidableEq

def Terminator.text : Terminator → List Char
  | .lineFeed => ['\n']
  | .carriageReturn => ['\r']
  | .both => ['\r', '\n']

/-- A text without a line feed if it begins with one. -/
def dropLineFeed : List Char → List Char
  | '\n' :: text => text
  | text => text

/-- The first line of a text, whether it ends with a terminator, and the text
after it. -/
structure Split where
  line : List Char
  terminated : Bool
  rest : List Char
deriving DecidableEq

def split : List Char → Split
  | [] => ⟨[], false, []⟩
  | character :: text =>
      if character = '\n' then ⟨[], true, text⟩
      else if character = '\r' then ⟨[], true, dropLineFeed text⟩
      else
        let split := split text
        { split with line := character :: split.line }

/-- A text with a line feed for every terminator. -/
def unified : List Char → List Char
  | [] => []
  | '\r' :: '\n' :: text => '\n' :: unified text
  | '\r' :: text => '\n' :: unified text
  | character :: text => character :: unified text

/-- A text without terminators. -/
def Plain (text : List Char) : Prop :=
  ∀ character ∈ text, character ≠ '\n' ∧ character ≠ '\r'

/-- Lines with their terminators, and a last one without. -/
def joined : List (List Char × Terminator) → List Char → List Char
  | [], last => last
  | (line, terminator) :: lines, last =>
      line ++ (terminator.text ++ joined lines last)

/-- Lines that are told apart when they are joined. -/
def Separated : List (List Char × Terminator) → List Char → Prop
  | [], last => Plain last
  | (line, terminator) :: lines, last =>
      Plain line ∧
        (terminator = .carriageReturn →
          (joined lines last).head? ≠ some '\n') ∧
        Separated lines last

variable {text line rest : List Char}

theorem plain_cons {character : Char} :
    Plain (character :: text) ↔
      (character ≠ '\n' ∧ character ≠ '\r') ∧ Plain text :=
  List.forall_mem_cons

theorem dropLineFeed_of_head (other : text.head? ≠ some '\n') :
    dropLineFeed text = text := by
  unfold dropLineFeed
  split
  · exact absurd rfl other
  · rfl

theorem split_plain_append (plain : Plain line) (text : List Char) :
    split (line ++ text) =
      { split text with line := line ++ (split text).line } := by
  induction line with
  | nil => rfl
  | cons character line inductionHypothesis =>
      have first := plain_cons.mp plain
      rw [List.cons_append, split, if_neg first.1.1, if_neg first.1.2,
        inductionHypothesis first.2]
      rfl

/-- The first line of joined lines. -/
theorem split_terminated {terminator : Terminator} (plain : Plain line)
    (apart : terminator = .carriageReturn → rest.head? ≠ some '\n') :
    split (line ++ (terminator.text ++ rest)) = ⟨line, true, rest⟩ := by
  rw [split_plain_append plain]
  cases terminator with
  | lineFeed => simp [Terminator.text, split]
  | both => simp [Terminator.text, split, dropLineFeed]
  | carriageReturn =>
      simp [Terminator.text, split, dropLineFeed_of_head (apart rfl)]

theorem split_plain (plain : Plain line) : split line = ⟨line, false, []⟩ := by
  have whole := split_plain_append plain []
  rw [List.append_nil] at whole
  rw [whole]
  simp [split]

theorem unified_return (text : List Char) :
    unified ('\r' :: text) = '\n' :: unified (dropLineFeed text) := by
  cases text with
  | nil => rfl
  | cons character text =>
      by_cases lineFeed : character = '\n'
      · rw [lineFeed]
        rfl
      · rw [dropLineFeed_of_head (by simpa using lineFeed), unified]
        intro text same
        exact lineFeed (List.cons.inj same).1

theorem unified_cons {character : Char} (other : character ≠ '\r')
    (text : List Char) :
    unified (character :: text) = character :: unified text := by
  rw [unified]
  · rintro - rfl
    exact absurd rfl other
  · rintro rfl
    exact absurd rfl other

end OpenDylan.Lib.Lines
