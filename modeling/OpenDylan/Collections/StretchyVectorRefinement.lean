import OpenDylan.Collections.StretchyVector

/-!
# Stretchy vectors as lists

While all slots behind the elements hold the fill of the collection, every
operation does to the elements what it does to a list that grows by that fill.
A vector that is made with another fill and with more slots than elements shows
these slots as soon as it grows.
-/

namespace OpenDylan.Collections.StretchyVector

variable {α : Type}

/-! ## Loops over slots -/

theorem setStretchyVectorElement_at (value old : α) (size : Nat)
    {front back : List α} {key : Nat} (place : key = front.length) :
    setStretchyVectorElement value ⟨size, front ++ old :: back⟩ key =
      .ok ⟨size, front ++ value :: back⟩ := by
  have inside : key < (front ++ old :: back).length := by
    rw [place, List.length_append, List.length_cons]
    omega
  have written : (front ++ old :: back).set key value =
      front ++ value :: back := by
    rw [place, List.set_append_right _ _ (Nat.le_refl _), Nat.sub_self]
    rfl
  unfold setStretchyVectorElement
  rw [if_pos inside, written]

theorem stretchyVectorElement_at (element : α) (size : Nat)
    {front back : List α} {key : Nat} (place : key = front.length) :
    stretchyVectorElement ⟨size, front ++ element :: back⟩ key =
      .ok element := by
  have found : (front ++ element :: back)[key]? = some element := by
    rw [place, List.getElem?_append_right (Nat.le_refl _), Nat.sub_self]
    rfl
  unfold stretchyVectorElement
  simp only [found]

/-- Writing replaces as many slots as there are objects. -/
theorem writeElements_at (items : List α) (size : Nat)
    {front old back : List α} {key : Nat} (place : key = front.length)
    (room : old.length = items.length) :
    writeElements items key ⟨size, front ++ (old ++ back)⟩ =
      .ok ⟨size, front ++ (items ++ back)⟩ := by
  induction items generalizing front old key with
  | nil =>
      rw [List.eq_nil_of_length_eq_zero room]
      rfl
  | cons item items ih =>
      cases old with
      | nil => cases room
      | cons slot old =>
          have next := @ih (front ++ [item]) old (key + 1)
            (by rw [place, List.length_append, List.length_singleton])
            (Nat.succ.inj room)
          have written := @setStretchyVectorElement_at α item slot size front
            (old ++ back) key place
          rw [List.append_assoc, List.singleton_append,
            List.append_assoc] at next
          rw [writeElements, List.cons_append, written]
          exact next

theorem fillElements_eq (fill : α) (count key : Nat)
    (rep : Representation α) :
    fillElements fill count key rep =
      writeElements (List.replicate count fill) key rep := by
  induction count generalizing key rep with
  | zero => rfl
  | succ count ih =>
      rw [fillElements, List.replicate_succ, writeElements]
      exact bind_congr fun rep => ih (key + 1) rep

/-- Copying writes the elements of the other representation. -/
theorem copyElements_eq (items : List α) {source : Representation α}
    {before after : List α} (slots : source.slots = before ++ (items ++ after))
    {count sourceKey : Nat} (countEq : count = items.length)
    (place : sourceKey = before.length) (key : Nat) (rep : Representation α) :
    copyElements source count sourceKey key rep =
      writeElements items key rep := by
  induction items generalizing before count sourceKey key rep with
  | nil =>
      rw [countEq]
      rfl
  | cons item items ih =>
      have found : stretchyVectorElement source sourceKey = .ok item := by
        have found := @stretchyVectorElement_at α item source.size before
          (items ++ after) sourceKey place
        rw [← List.cons_append, ← slots] at found
        exact found
      rw [countEq, List.length_cons, copyElements, found, writeElements]
      show (setStretchyVectorElement item rep key >>= fun rep =>
        copyElements source items.length (sourceKey + 1) (key + 1) rep) = _
      refine bind_congr fun rep => ?_
      apply @ih (before ++ [item]) _ items.length (sourceKey + 1) rfl
      · rw [place, List.length_append, List.length_singleton]
      · rw [slots]
        simp

/-! ## Lists -/

section Lists

variable [ElementType α]

/-- A list of another size, which grows by the fill of the collection. -/
def resized (newSize : Nat) (list : List α) : List α :=
  list.take newSize ++
    List.replicate (newSize - list.length) collectionFill

/-- A list with another element, which grows up to its index. -/
def assigned (list : List α) (index : Nat) (value : α) : List α :=
  if index < list.length then list.set index value
  else list ++ List.replicate (index - list.length) collectionFill ++ [value]

omit [ElementType α] in
/-- A list without the first so many of the elements that pass a test. -/
def removed (test : α → α → Bool) (target : α) : Int → List α → List α
  | _, [] => []
  | count, item :: rest =>
      if count > 0 ∧ test item target = true then
        removed test target (count - 1) rest
      else
        item :: removed test target count rest

omit [ElementType α] in
/-- A list with another list in place of a part of it. -/
def replaced (list insert : List α) (start last : Nat) : List α :=
  list.take start ++ (insert ++ list.drop last)

/-- A representation has the elements of a list, and in the other slots the
fill of the collection. -/
structure Represents (rep : Representation α) (list : List α) : Prop where
  size_eq : rep.size = list.length
  slots_eq : ∃ spare,
    rep.slots = list ++ List.replicate spare collectionFill

theorem powerOfTwoSearch_le (value powerOfTwo : Nat)
    (positive : 0 < powerOfTwo) :
    value ≤ powerOfTwoSearch value powerOfTwo positive := by
  induction powerOfTwo, positive using powerOfTwoSearch.induct value with
  | case1 powerOfTwo positive enough =>
      rw [powerOfTwoSearch, if_pos enough]
      exact enough
  | case2 powerOfTwo positive small ih =>
      rw [powerOfTwoSearch, if_neg small]
      exact ih

/-- A new size makes the list shorter or fills it up. -/
theorem Represents.trustedSizeSetter {vector : LimitedStretchyVector α}
    {list : List α} (represents : Represents vector.representation list)
    (newSize : Nat) :
    ∃ vector', trustedSizeSetter newSize vector = .ok vector' ∧
      Represents vector'.representation (resized newSize list) := by
  obtain ⟨⟨size, slots⟩⟩ := vector
  obtain ⟨sizeEq, spare, slotsEq⟩ := represents
  change size = list.length at sizeEq
  change slots = _ at slotsEq
  subst sizeEq slotsEq
  have capacity : (list ++
      List.replicate spare (collectionFill : α)).length =
        list.length + spare := by
    rw [List.length_append, List.length_replicate]
  unfold StretchyVector.trustedSizeSetter Representation.capacity
  by_cases beyond : newSize > list.length + spare
  · -- The elements are copied into new slots, all of which hold the fill.
    have enough : newSize ≤ powerOfTwoCeiling newSize :=
      powerOfTwoSearch_le newSize 1 Nat.one_pos
    have fresh : List.replicate (powerOfTwoCeiling newSize)
        (collectionFill : α) =
          List.replicate list.length collectionFill ++
            (List.replicate (newSize - list.length) collectionFill ++
              List.replicate (powerOfTwoCeiling newSize - newSize)
                collectionFill) := by
      rw [List.replicate_append_replicate, List.replicate_append_replicate]
      congr 1
      omega
    have copied := @copyElements_eq α list
      ⟨list.length, list ++ List.replicate spare collectionFill⟩ []
      (List.replicate spare collectionFill) rfl list.length 0 rfl rfl 0
      (makeRepresentation (powerOfTwoCeiling newSize) newSize collectionFill)
    have written := @writeElements_at α list newSize []
      (List.replicate list.length collectionFill)
      (List.replicate (newSize - list.length) collectionFill ++
        List.replicate (powerOfTwoCeiling newSize - newSize) collectionFill)
      0 rfl List.length_replicate
    have filled := @writeElements_at α
      (List.replicate (newSize - list.length) collectionFill) newSize list
      (List.replicate (newSize - list.length) collectionFill)
      (List.replicate (powerOfTwoCeiling newSize - newSize) collectionFill)
      list.length rfl rfl
    rw [List.nil_append, ← fresh] at written
    have whole : List.take newSize list = list :=
      List.take_of_length_le (by omega)
    refine ⟨⟨⟨newSize, list ++
      (List.replicate (newSize - list.length) collectionFill ++
        List.replicate (powerOfTwoCeiling newSize - newSize)
          collectionFill)⟩⟩, ?_, ?_, powerOfTwoCeiling newSize - newSize, ?_⟩
    rotate_left
    · rw [resized, whole, List.length_append, List.length_replicate]
      show newSize = _
      omega
    · show list ++ (_ ++ _) = _
      rw [resized, whole, List.append_assoc]
    · simp only [capacity]
      rw [if_pos beyond, copied]
      show (writeElements list 0 ⟨newSize, List.replicate _ _⟩ >>= _) = _
      rw [written]
      show (fillElements _ _ list.length ⟨newSize, list ++ _⟩ >>= _) = _
      rw [fillElements_eq, filled]
      rfl
  · by_cases shorter : newSize < list.length
    · have parts : list = list.take newSize ++ list.drop newSize :=
        (List.take_append_drop newSize list).symm
      have filled := @writeElements_at α
        (List.replicate (list.length - newSize) collectionFill) newSize
        (list.take newSize) (list.drop newSize)
        (List.replicate spare collectionFill) newSize
        (by rw [List.length_take]; omega)
        (by rw [List.length_drop, List.length_replicate])
      rw [← List.append_assoc, List.take_append_drop] at filled
      refine ⟨⟨⟨newSize, list.take newSize ++
        (List.replicate (list.length - newSize) collectionFill ++
          List.replicate spare collectionFill)⟩⟩, ?_, ?_,
        list.length - newSize + spare, ?_⟩
      rotate_left
      · rw [resized, List.length_append, List.length_take,
          List.length_replicate]
        show newSize = _
        omega
      · show list.take newSize ++ (_ ++ _) = _
        rw [resized, Nat.sub_eq_zero_of_le (Nat.le_of_lt shorter),
          List.replicate_append_replicate, List.replicate_zero,
          List.append_nil]
      · simp only [capacity]
        rw [if_neg beyond, if_pos shorter, fillElements_eq, filled]
        rfl
    · refine ⟨⟨⟨newSize, list ++ List.replicate spare collectionFill⟩⟩, ?_,
        ?_, spare - (newSize - list.length), ?_⟩
      rotate_left
      · rw [resized, List.length_append, List.length_take,
          List.length_replicate]
        show newSize = _
        omega
      · show list ++ _ = _
        rw [resized, List.take_of_length_le (by omega), List.append_assoc,
          List.replicate_append_replicate]
        congr 2
        omega
      · simp only [capacity]
        rw [if_neg beyond, if_neg shorter]
        rfl

/-! ## Elements -/

theorem Represents.setElement {rep : Representation α} {list : List α}
    (represents : Represents rep list) {key : Nat}
    (inside : key < list.length) (value : α) :
    ∃ rep', setStretchyVectorElement value rep key = .ok rep' ∧
      Represents rep' (list.set key value) := by
  obtain ⟨sizeEq, spare, slotsEq⟩ := represents
  have within : key < rep.slots.length := by
    rw [slotsEq, List.length_append]
    omega
  refine ⟨_, if_pos within, ?_, spare, ?_⟩
  · rw [List.length_set]
    exact sizeEq
  · show rep.slots.set key value = _
    rw [slotsEq, List.set_append_left _ _ inside]

theorem Represents.element {vector : LimitedStretchyVector α}
    {list : List α} (represents : Represents vector.representation list)
    (index : Nat) (inside : index < list.length) :
    vector.element index none = .ok list[index] := by
  obtain ⟨sizeEq, spare, slotsEq⟩ := represents
  have found : vector.representation.slots[index]? = some list[index] := by
    rw [slotsEq, List.getElem?_append_left inside,
      List.getElem?_eq_getElem inside]
  have size : vector.size = list.length := sizeEq
  unfold LimitedStretchyVector.element stretchyVectorElement
  rw [if_pos (by omega)]
  simp only [Int.toNat_natCast, found]

theorem Represents.add {vector : LimitedStretchyVector α} {list : List α}
    (represents : Represents vector.representation list) (newElement : α) :
    ∃ vector', add vector newElement = .ok vector' ∧
      Represents vector'.representation (list ++ [newElement]) := by
  have size : vector.size = list.length := represents.size_eq
  obtain ⟨grown, grows, grownHas⟩ :=
    represents.trustedSizeSetter (list.length + 1)
  have shape : resized (list.length + 1) list =
      list ++ [collectionFill] := by
    rw [resized, List.take_of_length_le (by omega), Nat.add_sub_cancel_left]
    rfl
  rw [shape] at grownHas
  obtain ⟨rep, sets, repHas⟩ := @grownHas.setElement _ _ _ _ list.length
    (by simp) newElement
  rw [List.set_append_right _ _ (Nat.le_refl _), Nat.sub_self] at repHas
  refine ⟨⟨rep⟩, ?_, repHas⟩
  unfold StretchyVector.add
  simp only [size]
  rw [grows]
  show (setStretchyVectorElement newElement grown.representation
    list.length >>= _) = _
  rw [sets]
  rfl

theorem Represents.sizeSetter {vector : LimitedStretchyVector α}
    {list : List α} (represents : Represents vector.representation list)
    (newSize : Nat) :
    ∃ vector', sizeSetter newSize vector = .ok vector' ∧
      Represents vector'.representation (resized newSize list) := by
  obtain ⟨vector', sets, has⟩ := represents.trustedSizeSetter newSize
  refine ⟨vector', ?_, has⟩
  unfold StretchyVector.sizeSetter checkNat
  rw [if_pos (Int.natCast_nonneg newSize)]
  exact sets

/-- The room for an element behind the others. -/
theorem Represents.growTo {vector : LimitedStretchyVector α} {list : List α}
    (represents : Represents vector.representation list) {index : Nat}
    (outside : list.length ≤ index) :
    ∃ vector', growTo index vector = .ok vector' ∧
      Represents vector'.representation (resized (index + 1) list) := by
  have size : vector.size = list.length := represents.size_eq
  unfold StretchyVector.growTo
  rw [if_pos (by omega)]
  split
  · exact represents.trustedSizeSetter (index + 1)
  · exact represents.sizeSetter (index + 1)

theorem Represents.elementSetter {vector : LimitedStretchyVector α}
    {list : List α} (represents : Represents vector.representation list)
    (index : Nat) (value : α) :
    ∃ vector', elementSetter value vector index = .ok vector' ∧
      Represents vector'.representation (assigned list index value) := by
  have size : vector.size = list.length := represents.size_eq
  have notNegative : ¬((index : Int) < 0) := by omega
  unfold StretchyVector.elementSetter
  rw [if_neg notNegative, Int.toNat_natCast]
  by_cases inside : index < list.length
  · obtain ⟨rep, sets, has⟩ := represents.setElement inside value
    have stays : StretchyVector.growTo index vector = .ok vector := by
      unfold StretchyVector.growTo
      rw [if_neg (by omega)]
    refine ⟨⟨rep⟩, ?_, ?_⟩
    · rw [stays]
      show (setStretchyVectorElement value vector.representation index >>=
        _) = _
      rw [sets]
      rfl
    · rw [assigned, if_pos inside]
      exact has
  · obtain ⟨grown, grows, grownHas⟩ :=
      represents.growTo (Nat.le_of_not_lt inside)
    have room : index + 1 - list.length = index - list.length + 1 := by
      omega
    have shape : resized (index + 1) list =
        list ++ List.replicate (index - list.length) collectionFill ++
          [collectionFill] := by
      rw [resized, List.take_of_length_le (by omega), room,
        List.replicate_succ', List.append_assoc]
    have place : index = (list ++ List.replicate (index - list.length)
        (collectionFill : α)).length := by
      rw [List.length_append, List.length_replicate]
      omega
    rw [shape] at grownHas
    obtain ⟨rep, sets, has⟩ := @grownHas.setElement _ _ _ _ index
      (by rw [List.length_append, ← place]; exact Nat.lt_succ_self index)
      value
    refine ⟨⟨rep⟩, ?_, ?_⟩
    · rw [grows]
      show (setStretchyVectorElement value grown.representation index >>=
        _) = _
      rw [sets]
      rfl
    · rw [List.set_append_right _ _ (Nat.le_of_eq place.symm), ← place,
        Nat.sub_self] at has
      rw [assigned, if_neg inside]
      exact has

end Lists

end OpenDylan.Collections.StretchyVector
