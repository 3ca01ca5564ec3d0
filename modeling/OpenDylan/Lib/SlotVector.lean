import Mathlib.Data.List.Perm.Basic
import Mathlib.Data.List.Range

/-!
# The contents of a vector of slots

A vector of slots some of which hold an item has the list of its items for its
contents.  Changing a single slot changes at most one item of that list, up to
the order; this is what the lemmas are about.
-/

namespace OpenDylan.Lib.SlotVector

variable {Item : Type*} {slot other : Nat → Option Item} {count index : Nat}

/-- The items of the first slots, in order. -/
def contents (slot : Nat → Option Item) (count : Nat) : List Item :=
  (List.range count).filterMap slot

theorem contents_zero : contents slot 0 = [] := rfl

theorem contents_succ :
    contents slot (count + 1) = contents slot count ++ (slot count).toList := by
  rw [contents, contents, List.range_succ, List.filterMap_append]
  cases content : slot count <;> simp [content]

theorem mem_contents {item : Item} :
    item ∈ contents slot count ↔
      ∃ index < count, slot index = some item := by
  simp only [contents, List.mem_filterMap, List.mem_range]

theorem contents_congr
    (same : ∀ place < count, other place = slot place) :
    contents other count = contents slot count := by
  apply List.filterMap_congr
  intro place member
  exact same place (List.mem_range.mp member)

theorem contents_eq_nil (empty : ∀ place < count, slot place = none) :
    contents slot count = [] := by
  rw [contents, List.filterMap_eq_nil_iff]
  intro place member
  exact empty place (List.mem_range.mp member)

/-- One slot and all others. -/
theorem contents_split (slot : Nat → Option Item) (inside : index < count) :
    ∃ others : List Item, ∀ other : Nat → Option Item,
      (∀ place, place ≠ index → other place = slot place) →
        (contents other count).Perm ((other index).toList ++ others) := by
  induction count with
  | zero => exact absurd inside (Nat.not_lt_zero index)
  | succ count ih =>
      rcases Nat.lt_or_eq_of_le (Nat.le_of_lt_succ inside) with before | last
      · obtain ⟨others, split⟩ := ih before
        refine ⟨others ++ (slot count).toList, fun other same => ?_⟩
        have kept : other count = slot count :=
          same count (Nat.ne_of_gt before)
        rw [contents_succ, kept, ← List.append_assoc]
        exact (split other same).append_right _
      · subst last
        refine ⟨contents slot index, fun other same => ?_⟩
        have kept : contents other index = contents slot index :=
          contents_congr fun place before =>
            same place (Nat.ne_of_lt before)
        rw [contents_succ, kept]
        exact List.perm_append_comm

/-- Changing a slot exchanges its item. -/
theorem contents_exchange (inside : index < count)
    (same : ∀ place, place ≠ index → other place = slot place) :
    ((slot index).toList ++ contents other count).Perm
      ((other index).toList ++ contents slot count) := by
  obtain ⟨others, split⟩ := contents_split slot inside
  have before := split slot fun _ _ => rfl
  have after := split other same
  have swapped : ((slot index).toList ++ ((other index).toList ++
      others)).Perm ((other index).toList ++ ((slot index).toList ++
        others)) := by
    rw [← List.append_assoc, ← List.append_assoc]
    exact List.perm_append_comm.append_right others
  have left := after.append_left (slot index).toList
  have right := before.append_left (other index).toList
  exact left.trans (swapped.trans right.symm)

/-- Filling a slot without an item. -/
theorem contents_fill {item : Item} (inside : index < count)
    (free : slot index = none) (filled : other index = some item)
    (same : ∀ place, place ≠ index → other place = slot place) :
    (contents other count).Perm (item :: contents slot count) := by
  have exchange := contents_exchange inside same
  rwa [free, filled] at exchange

/-- Taking an item out of its slot. -/
theorem contents_take {item : Item} (inside : index < count)
    (full : slot index = some item) (free : other index = none)
    (same : ∀ place, place ≠ index → other place = slot place) :
    (contents slot count).Perm (item :: contents other count) :=
  contents_fill inside free full fun place different =>
    (same place different).symm

/-- Changing the item of a slot. -/
theorem contents_replace {old new : Item} (inside : index < count)
    (full : slot index = some old) (changed : other index = some new)
    (same : ∀ place, place ≠ index → other place = slot place) :
    ∃ others, (contents slot count).Perm (old :: others) ∧
      (contents other count).Perm (new :: others) := by
  obtain ⟨others, split⟩ := contents_split slot inside
  have before := split slot fun _ _ => rfl
  have after := split other same
  rw [full] at before
  rw [changed] at after
  exact ⟨others, before, after⟩

/-- As many items as there are slots with one. -/
theorem contents_length_congr {Other : Type*} {there : Nat → Option Other}
    (same : ∀ place < count, (there place).isSome = (slot place).isSome) :
    (contents there count).length = (contents slot count).length := by
  induction count with
  | zero => rfl
  | succ count ih =>
      have last := same count (Nat.lt_succ_self count)
      have first := ih fun place before =>
        same place (Nat.lt_succ_of_lt before)
      rw [contents_succ, contents_succ, List.length_append,
        List.length_append, first]
      cases here : slot count <;> cases other : there count <;>
        simp [here, other] at last ⊢

/-- Items in different slots are different members of the contents. -/
theorem contents_pairwise {apart : Item → Item → Prop}
    (symmetric : ∀ {first second}, apart first second → apart second first)
    (pairwise : (contents slot count).Pairwise apart) {place : Nat}
    (inside : index < count) (insideToo : place < count)
    (different : index ≠ place) {first second : Item}
    (holds : slot index = some first) (holdsToo : slot place = some second) :
    apart first second := by
  obtain ⟨others, split⟩ := contents_split slot inside
  have whole := split slot fun _ _ => rfl
  have without := split
    (fun other => if other = index then none else slot other)
    (fun other distinct => if_neg distinct)
  rw [if_pos rfl, Option.toList_none, List.nil_append] at without
  rw [holds, Option.toList_some, List.singleton_append] at whole
  have member : second ∈ others := by
    rw [← without.mem_iff, mem_contents]
    exact ⟨place, insideToo, (if_neg (Ne.symm different)).trans holdsToo⟩
  have moved := (whole.pairwise_iff symmetric).mp pairwise
  exact List.rel_of_pairwise_cons moved member

/-- A vector with fewer items than slots has a slot without an item. -/
theorem exists_free (room : (contents slot count).length < count) :
    ∃ index < count, slot index = none := by
  induction count with
  | zero => exact absurd room (Nat.not_lt_zero _)
  | succ count ih =>
      cases last : slot count with
      | none => exact ⟨count, Nat.lt_succ_self count, last⟩
      | some item =>
          rw [contents_succ, last, List.length_append] at room
          obtain ⟨index, inside, free⟩ := ih (Nat.lt_of_succ_lt_succ room)
          exact ⟨index, Nat.lt_succ_of_lt inside, free⟩

theorem contents_length_le : (contents slot count).length ≤ count := by
  have bound := List.length_filterMap_le slot (List.range count)
  rwa [List.length_range] at bound

end OpenDylan.Lib.SlotVector
