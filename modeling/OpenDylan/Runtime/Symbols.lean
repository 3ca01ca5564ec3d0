import Mathlib.Data.Char
import Mathlib.Data.List.Lex

/-!
# Symbols

Strings that differ only in the case of letters name the same symbol, which has
the spelling with which it was interned first.
-/

namespace OpenDylan.Runtime.Symbols

/-- A symbol, by its name in lower case. -/
structure Name where
  lowercase : List Char
  isLowercase : lowercase.map Char.toLower = lowercase
deriving DecidableEq

theorem toLower_toLower (character : Char) :
    character.toLower.toLower = character.toLower := by
  unfold Char.toLower
  split
  case isTrue upper =>
      rw [dif_neg]
      rintro ⟨_, notAbove⟩
      have above := upper.1
      have below := upper.2
      simp [UInt32.le_iff_toNat_le] at *
      omega
  case isFalse => rfl

/-- `as(<symbol>, string)` -/
def asSymbol (string : List Char) : Name :=
  ⟨string.map Char.toLower, by
    rw [List.map_map]
    apply List.map_congr_left
    intro character _
    exact toLower_toLower character⟩

/-- What `as(<string>, symbol)` is for every symbol, interned already or
not. -/
structure Spellings where
  asString : Name → List Char
  spelled : ∀ name, asSymbol (asString name) = name

theorem Name.ext_lowercase {name other : Name}
    (same : name.lowercase = other.lowercase) : name = other := by
  cases name
  cases other
  simpa using same

theorem asSymbol_append (first second : List Char) :
    (asSymbol (first ++ second)).lowercase =
      (asSymbol first).lowercase ++ (asSymbol second).lowercase :=
  List.map_append

theorem lowercase_asString (spellings : Spellings) (name : Name) :
    (asSymbol (spellings.asString name)).lowercase = name.lowercase := by
  rw [spellings.spelled]

/-! ## Order -/

/-- `case-insensitive-less-than?` -/
def caseInsensitiveLessThan : List Char → List Char → Bool
  | [], [] => false
  | [], _ :: _ => true
  | _ :: _, [] => false
  | character1 :: string1, character2 :: string2 =>
      let x := character1.toLower
      let y := character2.toLower
      if x = y then caseInsensitiveLessThan string1 string2
      else decide (x < y)

/-- `symbol-less-than?` -/
def symbolLessThan (spellings : Spellings) (x y : Name) : Bool :=
  caseInsensitiveLessThan (spellings.asString x) (spellings.asString y)

theorem caseInsensitiveLessThan_iff (string1 string2 : List Char) :
    caseInsensitiveLessThan string1 string2 = true ↔
      string1.map Char.toLower < string2.map Char.toLower := by
  induction string1 generalizing string2 with
  | nil =>
      cases string2 with
      | nil => simp [caseInsensitiveLessThan]
      | cons character2 string2 => simp [caseInsensitiveLessThan]
  | cons character1 string1 inductionHypothesis =>
      cases string2 with
      | nil => simp [caseInsensitiveLessThan]
      | cons character2 string2 =>
          rw [List.map_cons, List.map_cons, List.cons_lt_cons_iff,
            ← inductionHypothesis]
          rw [caseInsensitiveLessThan]
          by_cases same : character1.toLower = character2.toLower
          · simp [same]
          · simp [same]

/-- The order on symbols is that on their names in lower case. -/
theorem symbolLessThan_iff (spellings : Spellings) (x y : Name) :
    symbolLessThan spellings x y = true ↔ x.lowercase < y.lowercase := by
  unfold symbolLessThan
  rw [caseInsensitiveLessThan_iff]
  have left : (spellings.asString x).map Char.toLower = x.lowercase :=
    lowercase_asString spellings x
  have right : (spellings.asString y).map Char.toLower = y.lowercase :=
    lowercase_asString spellings y
  rw [left, right]

theorem symbolLessThan_irrefl (spellings : Spellings) (x : Name) :
    symbolLessThan spellings x x = false := by
  rw [Bool.eq_false_iff, Ne, symbolLessThan_iff]
  exact lt_irrefl x.lowercase

theorem symbolLessThan_trans {spellings : Spellings} {x y z : Name}
    (first : symbolLessThan spellings x y = true)
    (second : symbolLessThan spellings y z = true) :
    symbolLessThan spellings x z = true := by
  rw [symbolLessThan_iff] at first second ⊢
  exact lt_trans first second

theorem symbolLessThan_total {spellings : Spellings} {x y : Name}
    (different : x ≠ y) :
    symbolLessThan spellings x y = true ∨
      symbolLessThan spellings y x = true := by
  rw [symbolLessThan_iff, symbolLessThan_iff]
  apply lt_or_gt_of_ne
  intro same
  exact different (Name.ext_lowercase same)

end OpenDylan.Runtime.Symbols
