import Mathlib

/-!
# Numerals

A numeral of a given width is a text of that many decimal digits.  How a number
is written is kept apart from how it is read: writers make numerals, and a
reader only has to know that what it reads is one.
-/

namespace OpenDylan.Lib

/-- A text is the numeral of a number with a given number of digits. -/
structure IsNumeral (text : List Char) (width value : Nat) : Prop where
  length_eq : text.length = width
  isDigit : ∀ char ∈ text, char.isDigit = true
  value_eq : Nat.ofDigitChars 10 text 0 = value

namespace IsNumeral

theorem nil : IsNumeral [] 0 0 := by
  constructor
  · rfl
  · intro char isChar
    cases isChar
  · rfl

/-- A number is written without leading zeros. -/
theorem toDigits (value : Nat) :
    IsNumeral (Nat.toDigits 10 value) (Nat.toDigits 10 value).length value := by
  constructor
  · rfl
  · intro char isChar
    exact Nat.isDigit_of_mem_toDigits (by decide) (by decide) isChar
  · exact Nat.ofDigitChars_ten_toDigits

/-- The width of a number that is written without leading zeros. -/
theorem toDigits_width {value width : Nat} (large : 10 ^ width ≤ value)
    (small : value < 10 ^ (width + 1)) :
    IsNumeral (Nat.toDigits 10 value) (width + 1) value := by
  have most : (Nat.toDigits 10 value).length ≤ width + 1 :=
    (Nat.length_toDigits_le_iff (by decide) (Nat.succ_pos width)).2 small
  have least : width < (Nat.toDigits 10 value).length := by
    cases width with
    | zero => exact Nat.length_toDigits_pos
    | succ width =>
        by_contra short
        have fits := (Nat.length_toDigits_le_iff (by decide)
          (Nat.succ_pos width)).1 (Nat.le_of_not_lt short)
        exact absurd fits (Nat.not_lt.2 large)
  have numeral := toDigits value
  have widthEq : (Nat.toDigits 10 value).length = width + 1 :=
    Nat.le_antisymm most least
  rw [widthEq] at numeral
  exact numeral

theorem toDigits_single {value : Nat} (small : value < 10) :
    IsNumeral (Nat.toDigits 10 value) 1 value := by
  have single := toDigits value
  rw [Nat.toDigits_of_lt_base small] at single ⊢
  exact single

variable {text : List Char} {width value : Nat}

/-- A zero in front changes the width only. -/
theorem cons_zero (numeral : IsNumeral text width value) :
    IsNumeral ('0' :: text) (width + 1) value := by
  constructor
  · rw [List.length_cons, numeral.length_eq]
  · intro char isChar
    rcases List.mem_cons.1 isChar with isZero | inText
    · rw [isZero]
      rfl
    · exact numeral.isDigit char inText
  · rw [Nat.ofDigitChars_cons]
    exact numeral.value_eq

/-- A digit more at the end. -/
theorem concat (numeral : IsNumeral text width value) {digit : Nat}
    (small : digit < 10) :
    IsNumeral (text ++ [digit.digitChar]) (width + 1)
      (10 * value + digit) := by
  constructor
  · rw [List.length_append, numeral.length_eq]
    rfl
  · intro char isChar
    rcases List.mem_append.1 isChar with inText | isLast
    · exact numeral.isDigit char inText
    · rw [List.mem_singleton.1 isLast, Nat.isDigit_digitChar]
      exact decide_eq_true small
  · rw [Nat.ofDigitChars_append, numeral.value_eq,
      Nat.ofDigitChars_cons_digitChar_of_lt_ten small, Nat.ofDigitChars_nil]

end IsNumeral

/-- A digit lies between the first and the last. -/
theorem isDigit_iff {char : Char} :
    char.isDigit = true ↔ '0' ≤ char ∧ char ≤ '9' := by
  unfold Char.isDigit
  rw [Bool.and_eq_true, decide_eq_true_iff, decide_eq_true_iff]
  exact Iff.rfl

end OpenDylan.Lib
