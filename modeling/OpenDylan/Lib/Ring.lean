import Mathlib.Data.List.Basic

/-!
# Rings

A vector is used as a ring: the elements between an index where they are taken
out and one where they are put in go on at the front when they come to the end
of the vector.  Equal indices stand for no elements, so that there is always a
free place.
-/

namespace OpenDylan.Lib.Ring

variable {Element : Type} {vector : List Element} {out into : Nat}

/-- The elements from one index up to another, round the end. -/
def between (vector : List Element) (out into : Nat) : List Element :=
  if out ≤ into then (vector.take into).drop out
  else vector.drop out ++ vector.take into

@[simp]
theorem between_self (vector : List Element) (index : Nat) :
    between vector index index = [] := by
  simp [between]

theorem between_eq_nil_iff (outside : out < vector.length)
    (inside : into < vector.length) :
    between vector out into = [] ↔ out = into := by
  constructor
  · intro nothing
    rw [between] at nothing
    split at nothing
    · rw [List.drop_eq_nil_iff, List.length_take] at nothing
      omega
    · rw [List.append_eq_nil_iff, List.drop_eq_nil_iff] at nothing
      omega
  · intro same
    rw [same, between_self]

theorem between_of_le (order : out ≤ into) :
    between vector out into = (vector.take into).drop out :=
  if_pos order

theorem between_of_lt (order : into < out) :
    between vector out into = vector.drop out ++ vector.take into :=
  if_neg (Nat.not_le_of_lt order)

theorem take_set_succ (inside : into < vector.length) (element : Element) :
    (vector.set into element).take (into + 1) =
      vector.take into ++ [element] := by
  rw [List.take_add_one, List.take_set_of_le (Nat.le_refl into),
    List.getElem?_set_self inside]
  rfl

/-- The index after the last one is the first one. -/
theorem next_cases {size index : Nat} (inside : index < size) :
    (index + 1 < size ∧ (index + 1) % size = index + 1) ∨
      (index + 1 = size ∧ (index + 1) % size = 0) := by
  by_cases last : index + 1 = size
  · right
    exact ⟨last, by rw [last, Nat.mod_self]⟩
  · left
    have below : index + 1 < size := by omega
    exact ⟨below, Nat.mod_eq_of_lt below⟩

/-- An element put into a free place that is not the only one. -/
theorem between_push (outside : out < vector.length)
    (inside : into < vector.length) (element : Element)
    (room : (into + 1) % vector.length ≠ out) :
    between (vector.set into element) out ((into + 1) % vector.length) =
      between vector out into ++ [element] := by
  have put := take_set_succ inside element
  rcases next_cases inside with ⟨below, next⟩ | ⟨last, next⟩
  · rw [next] at room ⊢
    by_cases order : out ≤ into
    · rw [between_of_le (by omega), between_of_le order, put,
        List.drop_append_of_le_length]
      rw [List.length_take]
      omega
    · rw [between_of_lt (by omega), between_of_lt (by omega), put,
        List.drop_set_of_lt (by omega), List.append_assoc]
  · rw [next] at room ⊢
    have whole : vector.set into element = vector.take into ++ [element] := by
      rw [← put, last, List.take_of_length_le]
      exact Nat.le_of_eq List.length_set
    rw [between_of_lt (by omega), between_of_le (by omega), List.take_zero,
      List.append_nil, whole, List.drop_append_of_le_length]
    rw [List.length_take]
    omega

/-- An element taken out. -/
theorem between_pop (outside : out < vector.length)
    (inside : into < vector.length) (nonempty : out ≠ into) :
    between vector out into =
      vector[out] :: between vector ((out + 1) % vector.length) into := by
  have taken : vector.drop out = vector[out] :: vector.drop (out + 1) :=
    List.drop_eq_getElem_cons outside
  rcases next_cases outside with ⟨below, next⟩ | ⟨last, next⟩
  · rw [next]
    by_cases order : out ≤ into
    · rw [between_of_le order, between_of_le (by omega), List.drop_take,
        List.drop_take, taken]
      have one : into - out = into - (out + 1) + 1 := by omega
      rw [one, List.take_succ_cons]
    · rw [between_of_lt (by omega), taken, List.cons_append]
      by_cases meet : into < out + 1
      · rw [between_of_lt meet]
      · exact absurd meet (by omega)
  · rw [next, between_of_lt (by omega), between_of_le (by omega), taken, last,
      List.drop_length, List.drop_zero]
    rfl

/-- An element put into the only free place makes the ring full: it then
starts and ends at the same index. -/
theorem between_full (inside : into < vector.length) (element : Element)
    (full : (into + 1) % vector.length = out) :
    between vector out into ++ [element] =
      (vector.set into element).drop out ++
        (vector.set into element).take out := by
  have put := take_set_succ inside element
  rcases next_cases inside with ⟨below, next⟩ | ⟨last, next⟩
  · rw [next] at full
    subst full
    rw [between_of_lt (by omega), put, List.drop_set_of_lt (by omega),
      List.append_assoc]
  · rw [next] at full
    subst full
    rw [between_of_le (by omega), List.drop_zero, List.drop_zero,
      List.take_zero, List.append_nil, ← put, last, List.take_of_length_le]
    exact Nat.le_of_eq List.length_set

/-- A gap in the middle of a full ring. -/
theorem between_gap (gap : List Element) (inside : out < vector.length)
    (wide : 0 < gap.length) :
    between (vector.take out ++ gap ++ vector.drop out) (out + gap.length)
        out =
      vector.drop out ++ vector.take out := by
  have front : (vector.take out).length = out := by
    rw [List.length_take]
    omega
  have before : (vector.take out ++ gap).length = out + gap.length := by
    rw [List.length_append, front]
  rw [between_of_lt (by omega), List.append_assoc]
  congr 1
  · rw [← List.append_assoc, ← before, List.drop_left]
  · rw [List.take_append_of_le_length (Nat.le_of_eq front.symm), List.take_take, Nat.min_self]

end OpenDylan.Lib.Ring
