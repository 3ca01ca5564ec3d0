import Mathlib.Data.List.Basic

/-!
# Contents with a position

What a sequential device holds, and the place in it at which the next operation
takes place.  What is written goes over what is there, and past its end.
-/

namespace OpenDylan.Lib.Positioned

variable {Element : Type*}

/-- A list with elements written over it from a position on. -/
def overlay (contents : List Element) (position : Nat)
    (elements : List Element) : List Element :=
  contents.take position ++ elements ++
    contents.drop (position + elements.length)

/-- Contents and a position in them. -/
@[ext]
structure Cursor (Element : Type*) where
  contents : List Element
  position : Nat
  within : position ≤ contents.length

section Overlays

variable {contents elements before after : List Element} {position : Nat}

theorem overlay_nil : overlay contents position [] = contents := by
  simp [overlay]

theorem length_overlay (within : position ≤ contents.length) :
    (overlay contents position elements).length =
      max contents.length (position + elements.length) := by
  simp only [overlay, List.length_append, List.length_take, List.length_drop]
  omega

/-- Writing in the middle of a list writes over what is there and over what
comes after it. -/
theorem overlay_append (within : position ≤ contents.length) :
    overlay (before ++ contents ++ after) (before.length + position)
        elements =
      before ++ overlay contents position elements ++
        after.drop (position + elements.length - contents.length) := by
  unfold overlay
  rw [List.append_assoc before, List.take_length_add_append, Nat.add_assoc,
    List.drop_length_add_append, List.take_append_of_le_length within,
    List.drop_append]
  simp only [List.append_assoc]

theorem overlay_singleton {element : Element}
    (inside : position < contents.length) :
    overlay contents position [element] = contents.set position element := by
  unfold overlay
  rw [List.set_eq_take_append_cons_drop, if_pos inside]
  simp

theorem overlay_snoc {element : Element}
    (inside : position + elements.length < contents.length) :
    (overlay contents position elements).set (position + elements.length)
        element =
      overlay contents position (elements ++ [element]) := by
  have front : (contents.take position ++ elements).length =
      position + elements.length := by
    rw [List.length_append, List.length_take]
    omega
  have next : contents.drop (position + elements.length) =
      contents[position + elements.length] ::
        contents.drop (position + elements.length + 1) :=
    List.drop_eq_getElem_cons inside
  unfold overlay
  rw [List.set_append_right _ _ (Nat.le_of_eq front), front, Nat.sub_self,
    next, List.set_cons_zero]
  simp [Nat.add_assoc]

/-- Elements are written one after the other. -/
theorem overlay_cons {element : Element}
    (inside : position < contents.length) :
    overlay (contents.set position element) (position + 1) elements =
      overlay contents position (element :: elements) := by
  have length : (contents.take position).length = position := by
    rw [List.length_take]
    omega
  unfold overlay
  rw [List.set_eq_take_append_cons_drop, if_pos inside,
    List.take_append, List.drop_append, length, List.take_take,
    List.drop_take]
  have first : position + 1 - position = 1 := by omega
  have rest : position + 1 + elements.length - position =
      elements.length + 1 := by omega
  have none : position - (position + 1 + elements.length) = 0 := by omega
  have least : min (position + 1) position = position := by omega
  rw [first, rest, none, least]
  simp only [List.take_succ_cons, List.take_zero, List.drop_succ_cons,
    List.drop_drop, List.nil_append, List.append_assoc, List.cons_append,
    List.length_cons]
  congr 3
  congr 1
  omega

end Overlays

namespace Cursor

/-- The position at the start of contents. -/
def start (contents : List Element) : Cursor Element :=
  ⟨contents, 0, Nat.zero_le _⟩

/-- What comes after the position. -/
def rest (cursor : Cursor Element) : List Element :=
  cursor.contents.drop cursor.position

/-- Go past some elements. -/
def advance (cursor : Cursor Element) (count : Nat) : Cursor Element where
  contents := cursor.contents
  position := min (cursor.position + count) cursor.contents.length
  within := Nat.min_le_right _ _

/-- Put an element back where the last one was. -/
def back (cursor : Cursor Element) (element : Element) : Cursor Element where
  contents :=
    if cursor.position = 0 then cursor.contents
    else cursor.contents.set (cursor.position - 1) element
  position := cursor.position - 1
  within := by
    have within := cursor.within
    split
    · omega
    · rw [List.length_set]
      omega

/-- Write at the position. -/
def overwrite (cursor : Cursor Element) (elements : List Element) :
    Cursor Element where
  contents := overlay cursor.contents cursor.position elements
  position := cursor.position + elements.length
  within := by
    rw [length_overlay cursor.within]
    exact Nat.le_max_right _ _

variable {cursor : Cursor Element}

theorem length_rest :
    cursor.rest.length = cursor.contents.length - cursor.position :=
  List.length_drop

theorem rest_advance (cursor : Cursor Element) (count : Nat) :
    (cursor.advance count).rest = cursor.rest.drop count := by
  show cursor.contents.drop
    (min (cursor.position + count) cursor.contents.length) = _
  rw [rest, List.drop_drop]
  by_cases inside : cursor.position + count ≤ cursor.contents.length
  · rw [Nat.min_eq_left inside]
  · have past := Nat.le_of_not_le inside
    rw [Nat.min_eq_right past, List.drop_length,
      List.drop_eq_nil_of_le past]

end Cursor

end OpenDylan.Lib.Positioned
