import OpenDylan.Runtime.DequeLoops

/-!
# Deques refine lists

A deque stands for the list of the elements between its first and its last
index.  Every operation returns what it returns for the list and leaves a deque
that stands for the list after it; no access lies outside the vector, and room
is made at most once.
-/

namespace OpenDylan.Runtime.Deque

open Objects

variable {α : Type}

/-! ## The invariant -/

/-- The vector has room for elements, and the contents stand in it between the
first and the last index. -/
structure Holds (rep : IslandDeque α) (contents : List α) : Prop where
  large : 4 ≤ rep.elements.length
  split : ∃ front back : List α,
    rep.elements = front ++ (contents ++ back) ∧
      rep.firstIndex = front.length ∧
      rep.lastIndex = front.length + contents.length - 1

/-- The deque stands for the list. -/
structure Represents (elementType : α → Bool) (deque : ObjectDeque α)
    (contents : List α) : Prop where
  elementType : deque.elementType = elementType
  holds : Holds deque.representation contents

/-- The elements from the first to the last index. -/
def IslandDeque.contents (rep : IslandDeque α) : List α :=
  (rep.elements.drop rep.firstIndex.toNat).take
    (rep.lastIndex - rep.firstIndex + 1).toNat

theorem Holds.contents_eq {rep : IslandDeque α} {contents : List α}
    (holds : Holds rep contents) : rep.contents = contents := by
  rcases holds.split with ⟨front, back, elements, first, last⟩
  have count : (rep.lastIndex - rep.firstIndex + 1).toNat =
      contents.length := by omega
  have start : rep.firstIndex.toNat = front.length := by omega
  rw [IslandDeque.contents, elements, start, count, List.drop_left,
    List.take_left]

/-- The indices stay within the vector; those of an empty deque may pass each
other by one. -/
theorem Holds.bounds {rep : IslandDeque α} {contents : List α}
    (holds : Holds rep contents) :
    0 ≤ rep.firstIndex ∧ rep.firstIndex ≤ rep.lastIndex + 1 ∧
      rep.lastIndex < rep.vectorSize := by
  rcases holds.split with ⟨front, back, elements, first, last⟩
  have length := congrArg List.length elements
  rw [List.length_append, List.length_append] at length
  rw [IslandDeque.vectorSize]
  omega

section Steps

variable {elementType : α → Bool} {deque : ObjectDeque α} {contents : List α}

theorem Represents.size (represents : Represents elementType deque contents) :
    deque.size = contents.length := by
  rcases represents.holds.split with ⟨front, back, -, first, last⟩
  rw [ObjectDeque.size]
  omega

theorem Represents.checkType
    (represents : Represents elementType deque contents) (object : α) :
    deque.checkType object =
      if elementType object then .ok () else .error (.wrongType object) := by
  rw [ObjectDeque.checkType, represents.elementType]

theorem Represents.mk' {rep : IslandDeque α} (front back : List α)
    (large : 4 ≤ rep.elements.length)
    (elements : rep.elements = front ++ (contents ++ back))
    (first : rep.firstIndex = front.length)
    (last : rep.lastIndex = front.length + contents.length - 1) :
    Represents elementType ⟨elementType, rep⟩ contents :=
  ⟨rfl, large, front, back, elements, first, last⟩

/-! ## Room -/

variable [Objects α]

theorem grow_represents (represents : Represents elementType deque contents)
    (full : deque.representation.vectorSize = deque.size) :
    ∃ deque', grow deque = .ok deque' ∧
      Represents elementType deque' contents ∧
      contents.length < deque'.representation.elements.length := by
  rcases represents with ⟨rfl, large, front, back, elements, first, last⟩
  have size : (deque.representation.lastIndex -
      deque.representation.firstIndex) + 1 = contents.length := by omega
  have length := congrArg List.length elements
  rw [List.length_append, List.length_append] at length
  rw [IslandDeque.vectorSize, ObjectDeque.size, size] at full
  have half : (contents.length : Int) / 2 = (contents.length / 2 : Nat) := by
    omega
  have space : List.replicate ((contents.length : Int) * 2).toNat (no : α) =
      List.replicate (contents.length / 2) no ++
        (List.replicate contents.length no ++
          List.replicate (contents.length - contents.length / 2) no) := by
    rw [List.replicate_append_replicate, List.replicate_append_replicate]
    congr 1
    omega
  have newFirst : (contents.length : Int) / 2 =
      (List.replicate (contents.length / 2) (no : α)).length := by
    rw [List.length_replicate, half]
  simp only [grow, makeIslandDeque, size, Int.toNat_natCast, bind,
    Except.bind]
  generalize List.replicate ((contents.length : Int) * 2).toNat (no : α) =
    slots at space
  have copied : copyElements deque.representation contents.length
      deque.representation.firstIndex ((contents.length : Int) / 2)
      ⟨(contents.length : Int) / 2, 0, slots⟩ = .ok (IslandDeque.withElements
        ⟨(contents.length : Int) / 2, 0, slots⟩ _) :=
    copyElements_blocks elements space (List.length_replicate ..) first
      newFirst
  rw [copied]
  refine ⟨_, rfl, Represents.mk' _ _ ?_ rfl newFirst ?_, ?_⟩
  · simp
    omega
  · change (contents.length : Int) / 2 + _ - 1 = _
    rw [newFirst]
  · simp
    omega

theorem growIfFull_represents
    (represents : Represents elementType deque contents) :
    ∃ deque', growIfFull deque = .ok deque' ∧
      Represents elementType deque' contents ∧
      contents.length < deque'.representation.elements.length := by
  rw [growIfFull]
  split
  · rename_i full
    exact grow_represents represents full
  · rename_i room
    refine ⟨deque, rfl, represents, ?_⟩
    rw [represents.size, IslandDeque.vectorSize] at room
    rcases represents.holds.split with ⟨front, back, elements, -, -⟩
    have length := congrArg List.length elements
    rw [List.length_append, List.length_append] at length
    omega

theorem makeRoomAtFirst_represents
    (represents : Represents elementType deque contents) :
    ∃ deque', makeRoomAtFirst deque = .ok deque' ∧
      Represents elementType deque' contents ∧
      deque'.representation.firstIndex ≠ 0 := by
  rcases growIfFull_represents represents with
    ⟨roomy, grown, represents', room⟩
  simp only [makeRoomAtFirst, grown, bind, Except.bind]
  rcases represents' with ⟨rfl, large, front, back, elements, first, last⟩
  have length := congrArg List.length elements
  rw [List.length_append, List.length_append] at length
  split
  · rename_i done
    refine ⟨roomy, rfl, ⟨rfl, large, front, back, elements, first, last⟩, ?_⟩
    rw [IslandDeque.vectorSize] at done
    omega
  · rename_i unlucky
    rw [IslandDeque.vectorSize] at unlucky ⊢
    have size : roomy.representation.lastIndex -
        roomy.representation.firstIndex = contents.length - 1 := by omega
    have count : ((roomy.representation.elements.length : Int) - 1 -
        (roomy.representation.elements.length - 1 -
          (contents.length - 1)) + 1).toNat = contents.length := by omega
    have blocks : roomy.representation.elements =
        front ++ (contents ++ (back ++ [])) := by
      rw [List.append_nil, elements]
    have target : (roomy.representation.elements.length : Int) - 1 =
        front.length + contents.length + back.length - 1 := by omega
    have place : (roomy.representation.elements.length : Int) - 1 -
        (roomy.representation.elements.length - 1 -
          (contents.length - 1)) + roomy.representation.firstIndex =
        front.length + contents.length - 1 := by omega
    rcases moveElements_right blocks target place with ⟨gap, same, moved⟩
    rw [size, count, moved]
    refine ⟨_, rfl, Represents.mk' _ _ ?_ (List.append_assoc _ _ _).symm ?_ ?_,
      ?_⟩
    · simp
      omega
    · simp
      omega
    · simp
      omega
    · simp
      omega

theorem makeRoomAtLast_represents
    (represents : Represents elementType deque contents) :
    ∃ deque', makeRoomAtLast deque = .ok deque' ∧
      Represents elementType deque' contents ∧
      deque'.representation.lastIndex ≠
        deque'.representation.vectorSize - 1 := by
  rcases growIfFull_represents represents with
    ⟨roomy, grown, represents', room⟩
  simp only [makeRoomAtLast, grown, bind, Except.bind]
  rcases represents' with ⟨rfl, large, front, back, elements, first, last⟩
  have length := congrArg List.length elements
  rw [List.length_append, List.length_append] at length
  split
  · rename_i done
    refine ⟨roomy, rfl, ⟨rfl, large, front, back, elements, first, last⟩, ?_⟩
    rw [IslandDeque.vectorSize]
    omega
  · rename_i unlucky
    have size : roomy.representation.lastIndex -
        roomy.representation.firstIndex = contents.length - 1 := by omega
    have count : ((contents.length : Int) - 1 + 1).toNat =
        contents.length := by omega
    have blocks : roomy.representation.elements =
        [] ++ (front ++ (contents ++ back)) := elements
    have place : roomy.representation.firstIndex =
        ([] : List α).length + front.length := by simp [first]
    rcases moveElements_left blocks rfl place with ⟨gap, same, moved⟩
    rw [List.length_nil, Int.natCast_zero] at moved
    rw [size, count, moved]
    refine ⟨_, rfl, Represents.mk' _ _ ?_ rfl rfl ?_, ?_⟩
    · simp
      omega
    · simp
    · simp [IslandDeque.vectorSize]
      omega

theorem roomAtFirst_represents {rounds : Nat}
    (represents : Represents elementType deque contents)
    (enough : 2 ≤ rounds) :
    ∃ deque', roomAtFirst rounds deque = .ok deque' ∧
      Represents elementType deque' contents ∧
      deque'.representation.firstIndex ≠ 0 := by
  rcases Nat.exists_eq_add_of_le' enough with ⟨rounds, rfl⟩
  rw [roomAtFirst]
  split
  · rcases makeRoomAtFirst_represents represents with
      ⟨deque', made, represents', room⟩
    refine ⟨deque', ?_, represents', room⟩
    simp only [bind, Except.bind, made, roomAtFirst, room, if_false]
    rfl
  · rename_i room
    exact ⟨deque, rfl, represents, room⟩

theorem roomAtLast_represents {rounds : Nat}
    (represents : Represents elementType deque contents)
    (enough : 2 ≤ rounds) :
    ∃ deque', roomAtLast rounds deque = .ok deque' ∧
      Represents elementType deque' contents ∧
      deque'.representation.lastIndex ≠
        deque'.representation.vectorSize - 1 := by
  rcases Nat.exists_eq_add_of_le' enough with ⟨rounds, rfl⟩
  rw [roomAtLast]
  split
  · rcases makeRoomAtLast_represents represents with
      ⟨deque', made, represents', room⟩
    refine ⟨deque', ?_, represents', room⟩
    simp only [bind, Except.bind, made, roomAtLast, room, if_false]
    rfl
  · rename_i room
    exact ⟨deque, rfl, represents, room⟩

/-! ## Ends -/

theorem trustedPushLast_represents {rounds : Nat}
    (represents : Represents elementType deque contents)
    (enough : 2 ≤ rounds) (object : α) :
    ∃ deque', trustedPushLast rounds deque object = .ok deque' ∧
      Represents elementType deque' (contents ++ [object]) := by
  rcases roomAtLast_represents represents enough with
    ⟨roomy, made, represents', room⟩
  simp only [trustedPushLast, made, bind, Except.bind]
  rcases represents' with ⟨rfl, large, front, back, elements, first, last⟩
  have length := congrArg List.length elements
  rw [List.length_append, List.length_append] at length
  rw [IslandDeque.vectorSize] at room
  cases back with
  | nil =>
      rw [List.length_nil] at length
      omega
  | cons old back =>
      have place : roomy.representation.lastIndex + 1 =
          (front ++ contents).length := by
        rw [List.length_append]
        omega
      have slot : roomy.representation.elements =
          (front ++ contents) ++ old :: back := by
        rw [elements, List.append_assoc]
      have written := setElement_at ⟨roomy.representation.firstIndex,
        roomy.representation.lastIndex + 1, roomy.representation.elements⟩
        slot place object
      rw [written]
      refine ⟨_, rfl, Represents.mk' front back ?_ ?_ first ?_⟩
      · simpa [slot] using large
      · simp
      · simp
        omega

theorem push_represents {rounds : Nat}
    (represents : Represents elementType deque contents)
    (enough : 2 ≤ rounds) {object : α} (typed : elementType object) :
    ∃ deque', push rounds deque object = .ok deque' ∧
      Represents elementType deque' (object :: contents) := by
  rcases roomAtFirst_represents represents enough with
    ⟨roomy, made, represents', room⟩
  have checked : deque.checkType object = .ok () := by
    rw [represents.checkType, if_pos typed]
  simp only [push, checked, made, bind, Except.bind]
  rcases represents' with ⟨rfl, large, front, back, elements, first, last⟩
  rcases List.eq_nil_or_concat front with rfl | ⟨front, old, rfl⟩
  · exact absurd first room
  · rw [List.concat_eq_append] at elements first last
    rw [List.length_append, List.length_singleton] at first last
    have place : roomy.representation.firstIndex - 1 = front.length := by
      omega
    have slot : roomy.representation.elements =
        front ++ old :: (contents ++ back) := by
      simp [elements]
    have written := setElement_at ⟨roomy.representation.firstIndex - 1,
      roomy.representation.lastIndex, roomy.representation.elements⟩
      slot place object
    rw [written]
    refine ⟨_, rfl, Represents.mk' _ _ ?_ rfl place ?_⟩
    · simpa [slot] using large
    · change roomy.representation.lastIndex = _
      rw [List.length_cons]
      omega

theorem pop_represents {object : α}
    (represents : Represents elementType deque (object :: contents)) :
    ∃ deque', pop deque = .ok (object, deque') ∧
      Represents elementType deque' contents := by
  rcases represents with ⟨rfl, large, front, back, elements, first, last⟩
  rw [List.length_cons] at last
  have read : deque.representation.element
      deque.representation.firstIndex = .ok object :=
    element_at elements first
  have written := setElement_at deque.representation elements first no
  have order : ¬ deque.representation.lastIndex <
      deque.representation.firstIndex := by omega
  simp only [pop, if_neg order, read, written, bind, Except.bind]
  refine ⟨_, rfl, Represents.mk' (front ++ [no]) back ?_ ?_ ?_ ?_⟩
  · simpa [elements] using large
  · simp
  · simpa using first
  · simp
    omega

theorem pop_empty (represents : Represents elementType deque []) :
    pop deque = .error .emptyCollection ∧
      popLast deque = .error .emptyCollection := by
  rcases represents with ⟨rfl, large, front, back, elements, first, last⟩
  have order : deque.representation.lastIndex <
      deque.representation.firstIndex := by
    simp at last
    omega
  constructor
  · rw [pop, if_pos order]
  · rw [popLast, if_pos order]

theorem popLast_represents {object : α}
    (represents : Represents elementType deque (contents ++ [object])) :
    ∃ deque', popLast deque = .ok (object, deque') ∧
      Represents elementType deque' contents := by
  rcases represents with ⟨rfl, large, front, back, elements, first, last⟩
  rw [List.length_append, List.length_singleton] at last
  have slot : deque.representation.elements =
      (front ++ contents) ++ object :: back := by
    simp [elements]
  have place : deque.representation.lastIndex =
      (front ++ contents).length := by
    rw [List.length_append]
    omega
  have read : deque.representation.element
      deque.representation.lastIndex = .ok object :=
    element_at slot place
  have written := setElement_at deque.representation slot place no
  have order : ¬ deque.representation.lastIndex <
      deque.representation.firstIndex := by omega
  simp only [popLast, if_neg order, read, written, bind, Except.bind]
  refine ⟨_, rfl, Represents.mk' front (no :: back) ?_ ?_ first ?_⟩
  · simpa [slot] using large
  · simp
  · simp
    omega

/-! ## Sizes and elements -/

theorem popLasts_represents {count : Nat}
    (represents : Represents elementType deque contents)
    (within : count ≤ contents.length) :
    ∃ deque', popLasts count deque = .ok deque' ∧
      Represents elementType deque'
        (contents.take (contents.length - count)) := by
  induction count generalizing deque contents with
  | zero =>
      refine ⟨deque, rfl, ?_⟩
      rwa [Nat.sub_zero, List.take_length]
  | succ count ih =>
      rcases List.eq_nil_or_concat contents with rfl | ⟨front, last, rfl⟩
      · exact absurd within (Nat.not_succ_le_zero count)
      · rw [List.concat_eq_append] at represents within ⊢
        rcases popLast_represents represents with ⟨shorter, popped, holds⟩
        rw [List.length_append, List.length_singleton] at within
        rcases ih holds (Nat.le_of_succ_le_succ within) with
          ⟨deque', popped', holds'⟩
        refine ⟨deque', ?_, ?_⟩
        · simp only [popLasts, bind, Except.bind, popped, popped']
        · rw [List.length_append, List.length_singleton,
            Nat.add_sub_add_right, List.take_append_of_le_length (by omega)]
          exact holds'

theorem pushLasts_represents {rounds : Nat} (count : Nat)
    (represents : Represents elementType deque contents)
    (enough : 2 ≤ rounds) :
    ∃ deque', pushLasts rounds count deque = .ok deque' ∧
      Represents elementType deque'
        (contents ++ List.replicate count no) := by
  induction count generalizing deque contents with
  | zero =>
      refine ⟨deque, rfl, ?_⟩
      rwa [List.replicate_zero, List.append_nil]
  | succ count ih =>
      rcases trustedPushLast_represents represents enough no with
        ⟨longer, pushed, holds⟩
      rcases ih holds with ⟨deque', pushed', holds'⟩
      refine ⟨deque', ?_, ?_⟩
      · simp only [pushLasts, bind, Except.bind, pushed, pushed']
      · rw [List.replicate_succ, ← List.singleton_append,
          ← List.append_assoc]
        exact holds'

/-- The list cut or filled up to a size. -/
def resize (size : Nat) (contents : List α) : List α :=
  contents.take size ++ List.replicate (size - contents.length) no

theorem trustedSizeSetter_represents {rounds size : Nat}
    (represents : Represents elementType deque contents)
    (enough : 2 ≤ rounds) :
    ∃ deque', trustedSizeSetter rounds size deque = .ok deque' ∧
      Represents elementType deque' (resize size contents) := by
  simp only [trustedSizeSetter, represents.size, resize]
  split
  · rename_i shorter
    have count : (-((size : Int) - contents.length)).toNat =
        contents.length - size := by omega
    have none : size - contents.length = 0 := by omega
    have kept : contents.length - (contents.length - size) = size := by
      omega
    have popped := popLasts_represents represents
      (Nat.sub_le contents.length size)
    rw [kept] at popped
    rw [count, none, List.replicate_zero, List.append_nil]
    exact popped
  · rename_i longer
    have count : ((size : Int) - contents.length).toNat =
        size - contents.length := by omega
    have all : contents.take size = contents :=
      List.take_of_length_le (by omega)
    rw [count, all]
    exact pushLasts_represents _ represents enough

theorem sizeSetter_represents {rounds size : Nat}
    (represents : Represents elementType deque contents)
    (enough : 2 ≤ rounds)
    (allowed : size ≤ contents.length ∨ elementType no) :
    ∃ deque', sizeSetter rounds size deque = .ok deque' ∧
      Represents elementType deque' (resize size contents) := by
  have natural : (checkNat size : Except (Stop α) Unit) = .ok () :=
    if_pos (Int.natCast_nonneg size)
  have sized : ∃ deque', trustedSizeSetter rounds (size : Int) deque =
      .ok deque' ∧ _ := trustedSizeSetter_represents represents enough
  simp only [sizeSetter, natural, bind, Except.bind]
  by_cases shorter : (size : Int) ≤ deque.size
  · rw [if_pos shorter]
    exact sized
  · have typed : elementType no := by
      apply allowed.resolve_left
      rw [represents.size] at shorter
      omega
    rw [if_neg shorter, represents.checkType, if_pos typed]
    exact sized

omit [Objects α] in
theorem elements_at_index {rep : IslandDeque α} {front back : List α}
    {index : Nat} (inside : index < contents.length)
    (elements : rep.elements = front ++ (contents ++ back)) :
    ∃ before after, contents = before ++ contents[index] :: after ∧
      before.length = index ∧
      rep.elements = (front ++ before) ++ contents[index] :: (after ++ back) ∧
      ∀ object, contents.set index object = before ++ object :: after := by
  have split : contents =
      contents.take index ++ contents[index] :: contents.drop (index + 1) := by
    rw [List.getElem_cons_drop, List.take_append_drop]
  have count : (contents.take index).length = index :=
    List.length_take_of_le (Nat.le_of_lt inside)
  refine ⟨_, _, split, count, ?_, ?_⟩
  · rw [elements, List.append_assoc, ← List.cons_append,
      ← List.append_assoc (contents.take index), ← split]
  · intro object
    rw [List.set_eq_take_append_cons_drop, if_pos inside]

omit [Objects α] in
theorem element_represents (represents : Represents elementType deque contents)
    {index : Nat} (inside : index < contents.length) (default : Option α) :
    element deque index default = .ok contents[index] := by
  rcases represents with ⟨rfl, large, front, back, elements, first, last⟩
  rcases elements_at_index inside elements with
    ⟨before, after, -, length, slot, -⟩
  have within : ¬ ((index : Int) < 0 ∨ (index : Int) >
      deque.representation.lastIndex - deque.representation.firstIndex) := by
    omega
  simp only [element, if_neg within]
  apply element_at slot
  rw [List.length_append]
  omega

omit [Objects α] in
theorem element_outside (represents : Represents elementType deque contents)
    {index : Int} (outside : index < 0 ∨ contents.length ≤ index)
    (default : Option α) :
    element deque index default =
      match default with
      | none => .error (.rangeError index)
      | some default =>
          if elementType default then
            .ok default
          else
            .error (.wrongType default) := by
  rcases represents with ⟨rfl, large, front, back, elements, first, last⟩
  have passed : index < 0 ∨ index >
      deque.representation.lastIndex - deque.representation.firstIndex := by
    omega
  simp only [element, if_pos passed]
  cases default with
  | none => rfl
  | some default =>
      simp only [ObjectDeque.checkType, bind, Except.bind]
      cases deque.elementType default with
      | true => rfl
      | false => rfl

theorem elementSetterFrom_inside {rounds index tries : Nat}
    (represents : Represents elementType deque contents)
    (inside : index < contents.length) {object : α}
    (typed : elementType object) :
    ∃ deque', elementSetterFrom rounds object index (tries + 1) deque =
        .ok deque' ∧
      Represents elementType deque' (contents.set index object) := by
  rcases represents with ⟨rfl, large, front, back, elements, first, last⟩
  rcases elements_at_index inside elements with
    ⟨before, after, -, length, slot, changed⟩
  have natural : ¬ (index : Int) < 0 := by omega
  have within : ¬ (index : Int) >
      deque.representation.lastIndex - deque.representation.firstIndex := by
    omega
  have checked : deque.checkType object = .ok () := by
    rw [ObjectDeque.checkType, if_pos typed]
  have place : (index : Int) + deque.representation.firstIndex =
      (front ++ before).length := by
    rw [List.length_append]
    omega
  have written := setElement_at _ slot place object
  simp only [elementSetterFrom, checked, if_neg natural, if_neg within, bind,
    Except.bind, written]
  refine ⟨_, rfl, Represents.mk' front back ?_ ?_ first ?_⟩
  · simpa [slot] using large
  · simp [changed]
  · rw [List.length_set]
    exact last

/-- The list with an object put at an index, filled up to it. -/
def putElement (object : α) (index : Nat) (contents : List α) : List α :=
  (if index < contents.length then
    contents
  else
    resize (index + 1) contents).set index object

theorem resize_length (size : Nat) (contents : List α) :
    (resize size contents).length = size := by
  rw [resize, List.length_append, List.length_take, List.length_replicate]
  omega

theorem elementSetter_represents {rounds index : Nat}
    (represents : Represents elementType deque contents)
    (enough : 2 ≤ rounds) {object : α} (typed : elementType object)
    (allowed : index ≤ contents.length ∨ elementType no) :
    ∃ deque', elementSetter rounds object deque index = .ok deque' ∧
      Represents elementType deque' (putElement object index contents) := by
  rcases Nat.exists_eq_add_of_le' enough with ⟨tries, rfl⟩
  rw [elementSetter, putElement]
  split
  · rename_i inside
    exact elementSetterFrom_inside represents inside typed
  · rename_i outside
    have natural : ¬ (index : Int) < 0 := by omega
    have size := represents.size
    have passed : (index : Int) >
        deque.representation.lastIndex -
          deque.representation.firstIndex := by
      rw [ObjectDeque.size] at size
      omega
    have checked : deque.checkType object = .ok () := by
      rw [represents.checkType, if_pos typed]
    have longerSize : index < (resize (index + 1) contents).length := by
      rw [resize_length]
      exact Nat.lt_succ_self index
    have again : ∀ longer,
        Represents elementType longer (resize (index + 1) contents) →
        ∃ deque', elementSetterFrom (tries + 2) object index (tries + 1)
            longer = .ok deque' ∧
          Represents elementType deque'
            ((resize (index + 1) contents).set index object) :=
      fun _ holds => elementSetterFrom_inside holds longerSize typed
    rw [elementSetterFrom]
    simp only [checked, if_neg natural, if_pos passed, bind, Except.bind]
    split
    · have sized : ∃ longer, trustedSizeSetter (tries + 2)
          ((index + 1 : Nat) : Int) deque = .ok longer ∧ _ :=
        trustedSizeSetter_represents represents enough
      rcases sized with ⟨longer, sized, holds⟩
      push_cast at sized
      rw [sized]
      exact again longer holds
    · rename_i apart
      have typedNo : elementType no := by
        apply allowed.resolve_left
        omega
      have sized : ∃ longer, sizeSetter (tries + 2)
          ((index + 1 : Nat) : Int) deque = .ok longer ∧ _ :=
        sizeSetter_represents represents enough (Or.inr typedNo)
      rcases sized with ⟨longer, sized, holds⟩
      push_cast at sized
      rw [sized]
      exact again longer holds

/-! ## Removal and reversal -/

theorem remove_represents (represents : Represents elementType deque contents)
    (target : α) (test : α → α → Bool) (count : Option Int) :
    ∃ deque', remove deque target test count = .ok deque' ∧
      Represents elementType deque'
        (removeFirst target test (count.getD contents.length) contents) := by
  have size := represents.size
  rcases represents with ⟨rfl, large, front, back, elements, first, last⟩
  have unseen : (deque.representation.lastIndex -
      deque.representation.firstIndex + 1).toNat = contents.length := by
    omega
  have blocks : deque.representation.elements =
      front ++ ([] ++ ([] ++ (contents ++ back))) := elements
  have place : deque.representation.firstIndex =
      front.length + ([] : List α).length + ([] : List α).length := by
    simp [first]
  have place' : deque.representation.firstIndex =
      front.length + ([] : List α).length := by
    simp [first]
  rcases grovel_blocks blocks target test (count.getD contents.length) place
    place' with ⟨free, same, done⟩
  simp only [remove, unseen, size, done, bind, Except.bind]
  refine ⟨_, rfl, Represents.mk' front (free ++ back) ?_ rfl first ?_⟩
  · have length := congrArg List.length elements
    simp only [List.length_append, List.length_nil] at length same ⊢
    omega
  · simp

omit [Objects α] in
theorem reverse_represents
    (represents : Represents elementType deque contents) :
    ∃ deque', reverse deque = .ok deque' ∧
      Represents elementType deque' contents.reverse := by
  rcases represents with ⟨rfl, large, front, back, elements, first, last⟩
  have half : (-(-(deque.representation.firstIndex +
      deque.representation.lastIndex) / 2) -
        deque.representation.firstIndex).toNat = contents.length / 2 := by
    omega
  have swapped := swapElements_blocks elements first last
  simp only [reverse, half, swapped, bind, Except.bind]
  refine ⟨_, rfl, Represents.mk' front back ?_ rfl first ?_⟩
  · simpa [elements] using large
  · simpa using last

/-! ## Lists -/

/-- The operation on a list. -/
def listPerform (elementType : α → Bool) (contents : List α) :
    Operation α → Except (Stop α) (Reply α × List α)
  | .push object =>
      if elementType object then
        .ok (.object object, object :: contents)
      else
        .error (.wrongType object)
  | .pushLast object =>
      if elementType object then
        .ok (.object object, contents ++ [object])
      else
        .error (.wrongType object)
  | .pop =>
      match contents with
      | [] => .error .emptyCollection
      | object :: rest => .ok (.object object, rest)
  | .popLast =>
      match contents.getLast? with
      | none => .error .emptyCollection
      | some object => .ok (.object object, contents.dropLast)
  | .element index default =>
      match (if 0 ≤ index then contents[index.toNat]? else none), default with
      | some object, _ => .ok (.object object, contents)
      | none, none => .error (.rangeError index)
      | none, some default =>
          if elementType default then
            .ok (.object default, contents)
          else
            .error (.wrongType default)
  | .elementSetter object index =>
      if ¬ elementType object then
        .error (.wrongType object)
      else if index < 0 then
        .error (.rangeError index)
      else if index ≤ contents.length ∨ elementType no then
        .ok (.object object, putElement object index.toNat contents)
      else
        .error (.wrongType no)
  | .sizeSetter size =>
      if size < 0 then
        .error (.negativeSize size)
      else if size ≤ contents.length ∨ elementType no then
        .ok (.size size, resize size.toNat contents)
      else
        .error (.wrongType no)
  | .remove target test count =>
      .ok (.deque,
        removeFirst target test (count.getD contents.length) contents)
  | .reverse => .ok (.deque, contents.reverse)

/-- The operations on a list, which stays as it is when one signals an
error. -/
def listRun (elementType : α → Bool) :
    List (Operation α) → List α →
      List (Except (Stop α) (Reply α)) × List α
  | [], contents => ([], contents)
  | operation :: operations, contents =>
      match listPerform elementType contents operation with
      | .ok (reply, contents) =>
          let (replies, contents) :=
            listRun elementType operations contents
          (.ok reply :: replies, contents)
      | .error stop =>
          let (replies, contents) :=
            listRun elementType operations contents
          (.error stop :: replies, contents)

/-- The deque does what the list does. -/
def Follows (elementType : α → Bool) :
    Except (Stop α) (Reply α × ObjectDeque α) →
      Except (Stop α) (Reply α × List α) → Prop
  | .ok (reply, deque), .ok (reply', contents) =>
      reply = reply' ∧ Represents elementType deque contents
  | .error stop, .error stop' => stop = stop'
  | _, _ => False

theorem push_follows {rounds : Nat}
    (represents : Represents elementType deque contents)
    (enough : 2 ≤ rounds) (object : α) :
    Follows elementType (perform rounds deque (.push object))
      (listPerform elementType contents (.push object)) := by
  rw [listPerform, perform]
  split
  · rename_i typed
    rcases push_represents represents enough typed with
      ⟨deque', pushed, holds⟩
    simp only [pushed, bind, Except.bind]
    exact ⟨rfl, holds⟩
  · rename_i wrong
    simp only [push, represents.checkType, if_neg wrong, bind, Except.bind]
    rfl

theorem pushLast_follows {rounds : Nat}
    (represents : Represents elementType deque contents)
    (enough : 2 ≤ rounds) (object : α) :
    Follows elementType (perform rounds deque (.pushLast object))
      (listPerform elementType contents (.pushLast object)) := by
  rw [listPerform, perform]
  split
  · rename_i typed
    rcases trustedPushLast_represents represents enough object with
      ⟨deque', pushed, holds⟩
    simp only [pushLast, represents.checkType, if_pos typed, pushed, bind,
      Except.bind]
    exact ⟨rfl, holds⟩
  · rename_i wrong
    simp only [pushLast, represents.checkType, if_neg wrong, bind,
      Except.bind]
    rfl

theorem pop_follows {rounds : Nat}
    (represents : Represents elementType deque contents) :
    Follows elementType (perform rounds deque .pop)
      (listPerform elementType contents .pop) := by
  cases contents with
  | nil =>
      simp only [listPerform, perform, (pop_empty represents).1, bind,
        Except.bind]
      rfl
  | cons object contents =>
      rcases pop_represents represents with ⟨deque', popped, holds⟩
      simp only [listPerform, perform, popped, bind, Except.bind]
      exact ⟨rfl, holds⟩

theorem popLast_follows {rounds : Nat}
    (represents : Represents elementType deque contents) :
    Follows elementType (perform rounds deque .popLast)
      (listPerform elementType contents .popLast) := by
  rcases List.eq_nil_or_concat contents with rfl | ⟨front, object, rfl⟩
  · simp only [listPerform, perform, (pop_empty represents).2, bind,
      Except.bind]
    rfl
  · rw [List.concat_eq_append] at represents ⊢
    rcases popLast_represents represents with ⟨deque', popped, holds⟩
    simp only [listPerform, perform, popped, bind, Except.bind,
      List.getLast?_concat, List.dropLast_concat]
    exact ⟨rfl, holds⟩

theorem element_follows {rounds : Nat}
    (represents : Represents elementType deque contents) (index : Int)
    (default : Option α) :
    Follows elementType (perform rounds deque (.element index default))
      (listPerform elementType contents (.element index default)) := by
  by_cases inside : 0 ≤ index ∧ index < contents.length
  · rcases Int.eq_ofNat_of_zero_le inside.1 with ⟨place, rfl⟩
    have within : place < contents.length := by omega
    have found : contents[(place : Int).toNat]? = some contents[place] := by
      rw [Int.toNat_natCast, List.getElem?_eq_getElem within]
    simp only [listPerform, perform, if_pos inside.1, found,
      element_represents represents within default, bind, Except.bind]
    exact ⟨rfl, represents⟩
  · have outside : index < 0 ∨ contents.length ≤ index := by omega
    have missing : (if 0 ≤ index then contents[index.toNat]? else none) =
        none := by
      split
      · rw [List.getElem?_eq_none_iff]
        omega
      · rfl
    simp only [listPerform, perform, missing,
      element_outside represents outside default, bind, Except.bind]
    cases default with
    | none => rfl
    | some default =>
        by_cases typed : elementType default
        · simp only [if_pos typed]
          exact ⟨rfl, represents⟩
        · simp only [if_neg typed]
          rfl

theorem sizeSetter_follows {rounds : Nat}
    (represents : Represents elementType deque contents)
    (enough : 2 ≤ rounds) (size : Int) :
    Follows elementType (perform rounds deque (.sizeSetter size))
      (listPerform elementType contents (.sizeSetter size)) := by
  by_cases negative : size < 0
  · have refused : ¬ 0 ≤ size := by omega
    simp only [listPerform, perform, if_pos negative, sizeSetter, checkNat,
      if_neg refused, bind, Except.bind]
    rfl
  · rcases Int.eq_ofNat_of_zero_le (Int.not_lt.mp negative) with
      ⟨count, rfl⟩
    rw [listPerform, if_neg negative]
    split
    · rename_i allowed
      have allowed' : count ≤ contents.length ∨ elementType no := by
        rcases allowed with short | typed
        · exact Or.inl (by omega)
        · exact Or.inr typed
      rcases sizeSetter_represents represents enough allowed' with
        ⟨deque', sized, holds⟩
      simp only [perform, sized, bind, Except.bind]
      exact ⟨rfl, holds⟩
    · rename_i refused
      have long : ¬ (count : Int) ≤ deque.size := by
        rw [represents.size]
        exact fun short => refused (Or.inl short)
      have wrong : ¬ elementType no := fun typed =>
        refused (Or.inr typed)
      have natural : (checkNat count : Except (Stop α) Unit) = .ok () :=
        if_pos (Int.natCast_nonneg count)
      simp only [perform, sizeSetter, natural, if_neg long,
        represents.checkType, if_neg wrong, bind, Except.bind]
      rfl

theorem elementSetter_refused {rounds : Nat}
    (represents : Represents elementType deque contents)
    (enough : 2 ≤ rounds) (object : α) (index : Int) :
    (¬ elementType object →
      elementSetter rounds object deque index =
        .error (.wrongType object)) ∧
    (elementType object → index < 0 →
      elementSetter rounds object deque index = .error (.rangeError index)) ∧
    (elementType object → contents.length < index → ¬ elementType no →
      elementSetter rounds object deque index = .error (.wrongType no)) := by
  rcases Nat.exists_eq_add_of_le' enough with ⟨tries, rfl⟩
  have size := represents.size
  refine ⟨fun wrong => ?_, fun typed negative => ?_,
    fun typed beyond wrong => ?_⟩
  · simp only [elementSetter, elementSetterFrom, represents.checkType,
      if_neg wrong, bind, Except.bind]
  · simp only [elementSetter, elementSetterFrom, represents.checkType,
      if_pos typed, if_pos negative, bind, Except.bind]
  · have natural : ¬ index < 0 := by omega
    have passed : index > deque.representation.lastIndex -
        deque.representation.firstIndex := by
      rw [ObjectDeque.size] at size
      omega
    have apart : ¬ deque.size = index := by omega
    have long : ¬ index + 1 ≤ deque.size := by omega
    have positive : 0 ≤ index + 1 := by omega
    simp only [elementSetter, elementSetterFrom, represents.checkType,
      if_pos typed, if_neg natural, if_pos passed, if_neg apart, sizeSetter,
      checkNat, if_pos positive, if_neg long, if_neg wrong, bind,
      Except.bind]

theorem elementSetter_follows {rounds : Nat}
    (represents : Represents elementType deque contents)
    (enough : 2 ≤ rounds) (object : α) (index : Int) :
    Follows elementType (perform rounds deque (.elementSetter object index))
      (listPerform elementType contents (.elementSetter object index)) := by
  rcases elementSetter_refused represents enough object index with
    ⟨untyped, negative, beyond⟩
  rw [listPerform]
  split
  · rename_i wrong
    simp only [perform, untyped wrong, bind, Except.bind]
    rfl
  · rename_i typed
    rw [not_not] at typed
    split
    · rename_i below
      simp only [perform, negative typed below, bind, Except.bind]
      rfl
    · rename_i natural
      rcases Int.eq_ofNat_of_zero_le (Int.not_lt.mp natural) with
        ⟨place, rfl⟩
      split
      · rename_i allowed
        have allowed' : place ≤ contents.length ∨ elementType no := by
          rcases allowed with short | typedNo
          · exact Or.inl (by omega)
          · exact Or.inr typedNo
        rcases elementSetter_represents represents enough typed allowed' with
          ⟨deque', put, holds⟩
        simp only [perform, put, bind, Except.bind]
        exact ⟨rfl, holds⟩
      · rename_i refused
        have far : (contents.length : Int) < place :=
          Int.not_le.mp fun short => refused (Or.inl short)
        have wrong : ¬ elementType no := fun typedNo =>
          refused (Or.inr typedNo)
        simp only [perform, beyond typed far wrong, bind, Except.bind]
        rfl

/-- Every operation on a deque does what it does on the list. -/
theorem perform_follows {rounds : Nat}
    (represents : Represents elementType deque contents)
    (enough : 2 ≤ rounds) (operation : Operation α) :
    Follows elementType (perform rounds deque operation)
      (listPerform elementType contents operation) := by
  cases operation with
  | push object => exact push_follows represents enough object
  | pushLast object => exact pushLast_follows represents enough object
  | pop => exact pop_follows represents
  | popLast => exact popLast_follows represents
  | element index default => exact element_follows represents index default
  | elementSetter object index =>
      exact elementSetter_follows represents enough object index
  | sizeSetter size => exact sizeSetter_follows represents enough size
  | remove target test count =>
      rcases remove_represents represents target test count with
        ⟨deque', removed, holds⟩
      simp only [perform, removed, bind, Except.bind]
      exact ⟨rfl, holds⟩
  | reverse =>
      rcases reverse_represents represents with ⟨deque', reversed, holds⟩
      simp only [perform, reversed, bind, Except.bind]
      exact ⟨rfl, holds⟩

theorem run_follows {rounds : Nat} (enough : 2 ≤ rounds)
    (operations : List (Operation α))
    (represents : Represents elementType deque contents) :
    (run rounds operations deque).1 =
        (listRun elementType operations contents).1 ∧
      Represents elementType (run rounds operations deque).2
        (listRun elementType operations contents).2 := by
  induction operations generalizing deque contents with
  | nil => exact ⟨rfl, represents⟩
  | cons operation operations ih =>
      have follows := perform_follows represents enough operation
      rw [run, listRun]
      cases result : perform rounds deque operation with
      | ok outcome =>
          cases expected : listPerform elementType contents operation with
          | ok outcome' =>
              rw [result, expected] at follows
              rcases follows with ⟨same, holds⟩
              rcases ih holds with ⟨replies, holds'⟩
              exact ⟨by simp [same, replies], holds'⟩
          | error stop =>
              rw [result, expected] at follows
              exact follows.elim
      | error stop =>
          cases expected : listPerform elementType contents operation with
          | ok outcome' =>
              rw [result, expected] at follows
              exact follows.elim
          | error stop' =>
              rw [result, expected] at follows
              cases follows
              rcases ih represents with ⟨replies, holds⟩
              exact ⟨by simp [replies], holds⟩

end Steps

/-- A new deque stands for the list of its initial elements. -/
theorem initializeDeque_represents [Objects α] [DecidableEq α]
    (elementType : α → Bool) (size : Nat) (fill : α) :
    ∃ deque, initializeDeque elementType size fill = .ok deque ∧
      Represents elementType deque (List.replicate size fill) := by
  have natural : (checkNat size : Except (Stop α) Unit) = .ok () :=
    if_pos (Int.natCast_nonneg size)
  generalize dataSize : max ((size : Int) * 2) 4 = data
  rcases Int.eq_ofNat_of_zero_le (by omega : 0 ≤ data) with ⟨data, rfl⟩
  have count : ((data : Int) / 2 + size - 1 - (data : Int) / 2 + 1).toNat =
      size := by omega
  have space : List.replicate data (no : α) =
      List.replicate (data / 2) no ++ (List.replicate size no ++
        List.replicate (data - data / 2 - size) no) := by
    rw [List.replicate_append_replicate, List.replicate_append_replicate]
    congr 1
    omega
  have start : (data : Int) / 2 =
      (List.replicate (data / 2) (no : α)).length := by
    rw [List.length_replicate]
    omega
  have blocks : (makeIslandDeque (data : Int) : IslandDeque α).elements =
      List.replicate (data / 2) no ++ (List.replicate size no ++
        List.replicate (data - data / 2 - size) no) := space
  have filled := fillElements_blocks blocks start fill
  rw [List.length_replicate] at filled
  have holds : Represents elementType ⟨elementType, (data : Int) / 2,
      (data : Int) / 2 + size - 1, List.replicate (data / 2) no ++
        (List.replicate size fill ++
          List.replicate (data - data / 2 - size) no)⟩
      (List.replicate size fill) := by
    apply Represents.mk' _ _ _ rfl start
    · simp
    · simp
      omega
  simp only [initializeDeque, natural, dataSize, count, bind, Except.bind]
  split
  · rename_i same
    rw [same, ← space] at holds
    rw [same]
    exact ⟨_, rfl, holds⟩
  · rw [filled]
    exact ⟨_, rfl, holds⟩

/-- A run on a new deque returns what it returns for the list of its initial
elements; the elements between the first and the last index are the list, and
the indices stay within the vector. -/
theorem deque_refines_list [Objects α] [DecidableEq α]
    (elementType : α → Bool) (size : Nat) (fill : α) {rounds : Nat}
    (enough : 2 ≤ rounds) (operations : List (Operation α)) :
    ∃ deque, initializeDeque elementType size fill = .ok deque ∧
      (run rounds operations deque).1 =
        (listRun elementType operations (List.replicate size fill)).1 ∧
      (run rounds operations deque).2.representation.contents =
        (listRun elementType operations (List.replicate size fill)).2 ∧
      0 ≤ (run rounds operations deque).2.representation.firstIndex ∧
      (run rounds operations deque).2.representation.firstIndex ≤
        (run rounds operations deque).2.representation.lastIndex + 1 ∧
      (run rounds operations deque).2.representation.lastIndex <
        (run rounds operations deque).2.representation.vectorSize := by
  rcases initializeDeque_represents elementType size fill with
    ⟨deque, made, represents⟩
  rcases run_follows enough operations represents with ⟨replies, holds⟩
  exact ⟨deque, made, replies, holds.holds.contents_eq, holds.holds.bounds⟩

instance : Objects (Option Nat) := ⟨none⟩

theorem deque_refines_list_pushes :
    ∃ deque, initializeDeque (fun _ => true) 1 (some 7) = .ok deque ∧
      (run 2 [.push (some 8), .pushLast (some 9), .reverse, .popLast, .pop]
          deque).1 =
        [.ok (.object (some 8)), .ok (.object (some 9)), .ok .deque,
          .ok (.object (some 8)), .ok (.object (some 9))] ∧
      (run 2 [.push (some 8), .pushLast (some 9), .reverse, .popLast, .pop]
          deque).2.representation.contents = [some 7] := by
  rcases deque_refines_list (fun _ => true) 1 (some 7) (Nat.le_refl 2)
    [.push (some 8), .pushLast (some 9), .reverse, .popLast, .pop] with
    ⟨deque, made, replies, contents, -⟩
  exact ⟨deque, made, replies, contents⟩

end OpenDylan.Runtime.Deque
