import Mathlib.Data.List.Induction
import OpenDylan.Collections.StretchyVectorRefinement

/-!
# Runs of operations on stretchy vectors

Removing and replacing also keep the fill of the collection in the slots behind
the elements.  So whole runs of operations answer like a list, exactly if the
vector was made without such slots or with the fill of the collection.
-/

namespace OpenDylan.Collections.StretchyVector

variable {α : Type}

/-! ## Removing -/

/-- Slots that have been passed over take the next element that stays. -/
theorem keep_item (size : Nat) (done junk back : List α) (item : α) :
    ∃ rest : List α, rest.length = junk.length ∧
      setStretchyVectorElement item
          ⟨size, done ++ (junk ++ item :: back)⟩ done.length =
        .ok ⟨size, (done ++ [item]) ++ (rest ++ back)⟩ := by
  cases junk with
  | nil =>
      refine ⟨[], rfl, ?_⟩
      rw [List.nil_append, setStretchyVectorElement_at item item size rfl]
      simp
  | cons first junk =>
      refine ⟨junk ++ [item], by simp, ?_⟩
      rw [List.cons_append, setStretchyVectorElement_at item first size rfl]
      simp

/-- The loop keeps what passes behind what has been kept before. -/
theorem grovel_spec (test : α → α → Bool) (target : α) (size : Nat)
    (items : List α) (count : Int) (done junk back : List α) :
    ∃ rest : List α,
      rest.length + (removed test target count items).length =
          junk.length + items.length ∧
        grovel test target items.length count (done.length + junk.length)
            done.length ⟨size, done ++ (junk ++ (items ++ back))⟩ =
          .ok (⟨size, done ++ (removed test target count items ++
            (rest ++ back))⟩,
              done.length + (removed test target count items).length) := by
  induction items generalizing count done junk with
  | nil =>
      refine ⟨junk, rfl, ?_⟩
      rw [removed, List.nil_append, List.nil_append]
      rfl
  | cons item items ih =>
      have read : stretchyVectorElement
          ⟨size, done ++ (junk ++ (item :: items ++ back))⟩
            (done.length + junk.length) = .ok item := by
        have read := @stretchyVectorElement_at α item size (done ++ junk)
          (items ++ back) (done.length + junk.length)
          (by rw [List.length_append])
        rwa [List.append_assoc] at read
      rw [List.length_cons, grovel, read]
      by_cases matching : count > 0 ∧ test item target = true
      · obtain ⟨rest, lengths, loops⟩ := ih (count - 1) done (junk ++ [item])
        refine ⟨rest, ?_, ?_⟩
        · rw [removed, if_pos matching]
          rw [List.length_append, List.length_singleton] at lengths
          omega
        · rw [removed, if_pos matching]
          show (if count > 0 ∧ test item target = true then
            grovel test target items.length (count - 1) _ _ _ else _) = _
          rw [if_pos matching]
          rw [List.length_append, List.length_singleton, ← Nat.add_assoc,
            List.append_assoc] at loops
          exact loops
      · obtain ⟨kept, keptLength, sets⟩ :=
          keep_item size done junk (items ++ back) item
        obtain ⟨rest, lengths, loops⟩ := ih count (done ++ [item]) kept
        have places : (done ++ [item]).length + kept.length =
            done.length + junk.length + 1 := by
          rw [List.length_append, List.length_singleton, keptLength]
          omega
        refine ⟨rest, ?_, ?_⟩
        · rw [removed, if_neg matching]
          simp only [List.length_cons]
          omega
        · rw [removed, if_neg matching]
          show (if count > 0 ∧ test item target = true then _ else
            setStretchyVectorElement item _ done.length >>= _) = _
          rw [if_neg matching]
          show (setStretchyVectorElement item
            ⟨size, done ++ (junk ++ item :: (items ++ back))⟩ done.length >>=
              _) = _
          rw [sets]
          rw [places, List.length_append, List.length_singleton] at loops
          show grovel test target items.length count
            (done.length + junk.length + 1) (done.length + 1) _ = _
          have total : done.length + 1 +
              (removed test target count items).length = done.length +
                (item :: removed test target count items).length := by
            rw [List.length_cons]
            omega
          rw [loops, total]
          simp only [List.append_assoc, List.cons_append, List.nil_append]

section Operations

variable [ElementType α]

theorem Represents.remove {vector : LimitedStretchyVector α} {list : List α}
    (represents : Represents vector.representation list) (target : α)
    (test : α → α → Bool) (count : Option Int) :
    ∃ vector', remove vector target test count = .ok vector' ∧
      Represents vector'.representation
        (removed test target (count.getD list.length) list) := by
  obtain ⟨⟨size, slots⟩⟩ := vector
  obtain ⟨sizeEq, spare, slotsEq⟩ := represents
  change size = list.length at sizeEq
  change slots = _ at slotsEq
  subst sizeEq slotsEq
  obtain ⟨rest, lengths, loops⟩ := grovel_spec test target list.length list
    (count.getD list.length) [] [] (List.replicate spare collectionFill)
  simp only [List.length_nil, List.nil_append, Nat.zero_add] at lengths loops
  have filled := @writeElements_at α
    (List.replicate rest.length collectionFill) list.length
    (removed test target (count.getD list.length) list) rest
    (List.replicate spare collectionFill)
    (removed test target (count.getD list.length) list).length rfl
    (by rw [List.length_replicate])
  have remaining : list.length -
      (removed test target (count.getD list.length) list).length =
        rest.length := by
    omega
  refine ⟨⟨⟨_, removed test target (count.getD list.length) list ++
    (List.replicate rest.length collectionFill ++
      List.replicate spare collectionFill)⟩⟩, ?_, rfl,
    rest.length + spare, ?_⟩
  · unfold StretchyVector.remove
    show (grovel test target list.length (count.getD list.length) 0 0
      ⟨list.length, list ++ List.replicate spare collectionFill⟩ >>= _) = _
    rw [loops]
    show (fillElements collectionFill (list.length - _) _ _ >>= _) = _
    rw [remaining, fillElements_eq, filled]
    rfl
  · rw [List.replicate_append_replicate]

/-! ## Replacing in place and in a new vector -/

theorem checkStartComputeEnd_ok {vector : LimitedStretchyVector α}
    {start last : Nat} (ordered : start ≤ last)
    (inside : last ≤ vector.size) :
    checkStartComputeEnd vector start last = .ok () := by
  unfold checkStartComputeEnd
  rw [if_neg (by omega)]

/-- A vector made without a capacity has no slots to spare. -/
theorem makeVector_size (size : Nat) :
    makeVector { size := some (size : Int), capacity := none, fill := none } =
      .ok ⟨⟨size, List.replicate size (collectionFill : α)⟩⟩ := by
  show stretchyInitialize (size : Int) (size : Int) collectionFill = _
  unfold stretchyInitialize checkNat
  rw [if_pos (Int.natCast_nonneg size)]
  show (if (size : Int) < size then _ else _) = _
  rw [if_neg (Int.lt_irrefl _)]
  cases size with
  | zero => rfl
  | succ size =>
      rw [if_pos (by omega)]
      rfl

omit [ElementType α] in
/-- The parts of a list before, in and behind a subsequence. -/
theorem split_at (list : List α) {start last : Nat} (ordered : start ≤ last)
    (inside : last ≤ list.length) :
    ∃ before within after : List α, list = before ++ (within ++ after) ∧
      before.length = start ∧ within.length = last - start ∧
        before = list.take start ∧ after = list.drop last := by
  refine ⟨list.take start, (list.drop start).take (last - start),
    list.drop last, ?_, ?_, ?_, rfl, rfl⟩
  · have rest : list.drop last = (list.drop start).drop (last - start) := by
      rw [List.drop_drop, Nat.add_sub_cancel' ordered]
    rw [rest, List.take_append_drop, List.take_append_drop]
  · rw [List.length_take]
    omega
  · rw [List.length_take, List.length_drop]
    omega

/-- Replacing as many elements as are inserted. -/
theorem Represents.writeElements {rep : Representation α} {list : List α}
    (represents : Represents rep list) (insert : List α) {start last : Nat}
    (ordered : start ≤ last) (inside : last ≤ list.length)
    (same : last - start = insert.length) :
    ∃ rep', writeElements insert start rep = .ok rep' ∧
      Represents rep' (replaced list insert start last) := by
  obtain ⟨before, within, after, parts, beforeLength, withinLength, isTake,
    isDrop⟩ := split_at list ordered inside
  obtain ⟨size, slots⟩ := rep
  obtain ⟨sizeEq, spare, slotsEq⟩ := represents
  change size = list.length at sizeEq
  change slots = _ at slotsEq
  have written := @writeElements_at α insert size before within
    (after ++ List.replicate spare collectionFill) start beforeLength.symm
    (withinLength.trans same)
  refine ⟨⟨size, before ++ (insert ++
    (after ++ List.replicate spare collectionFill))⟩, ?_, ?_, spare, ?_⟩
  · rw [slotsEq, parts]
    simpa only [List.append_assoc] using written
  · show size = _
    rw [sizeEq, replaced, ← isTake, ← isDrop, parts]
    simp only [List.length_append]
    omega
  · show before ++ (insert ++ (after ++ _)) = _
    rw [replaced, ← isTake, ← isDrop]
    simp only [List.append_assoc]

/-- The three loops that build a new vector from parts of the old one: what
there is before each, and in the end. -/
theorem Represents.build {vector : LimitedStretchyVector α} {list : List α}
    (represents : Represents vector.representation list) (insert : List α)
    {start last : Nat} (ordered : start ≤ last)
    (inside : last ≤ list.length) {newSize : Nat}
    (newSizeEq : newSize = list.length - (last - start) + insert.length) :
    ∃ first second third : Representation α,
      copyElements vector.representation start 0 0
          ⟨newSize, List.replicate newSize collectionFill⟩ = .ok first ∧
        StretchyVector.writeElements insert start first = .ok second ∧
        copyElements vector.representation (list.length - last) last
          (start + insert.length) second = .ok third ∧
        Represents third (replaced list insert start last) := by
  obtain ⟨before, within, after, parts, beforeLength, withinLength, isTake,
    isDrop⟩ := split_at list ordered inside
  obtain ⟨sizeEq, spare, slotsEq⟩ := represents
  have afterLength : after.length = list.length - last := by
    rw [isDrop, List.length_drop]
  have total : newSize = start + (insert.length + after.length) := by
    rw [newSizeEq, afterLength]
    omega
  have fresh : List.replicate newSize (collectionFill : α) =
      List.replicate start collectionFill ++
        (List.replicate insert.length collectionFill ++
          List.replicate after.length collectionFill) := by
    rw [List.replicate_append_replicate, List.replicate_append_replicate,
      total]
  have copiedFront := @copyElements_eq α before vector.representation []
    (within ++ (after ++ List.replicate spare collectionFill))
    (by rw [slotsEq, parts]; simp) start 0 beforeLength.symm rfl 0
    ⟨newSize, List.replicate newSize collectionFill⟩
  have writtenFront := @writeElements_at α before newSize []
    (List.replicate start collectionFill)
    (List.replicate insert.length collectionFill ++
      List.replicate after.length collectionFill) 0 rfl
    (by rw [List.length_replicate, beforeLength])
  have written := @writeElements_at α insert newSize before
    (List.replicate insert.length collectionFill)
    (List.replicate after.length collectionFill) start beforeLength.symm
    List.length_replicate
  have copiedBack := @copyElements_eq α after vector.representation
    (before ++ within) (List.replicate spare collectionFill)
    (by rw [slotsEq, parts]; simp) (list.length - last) last
    afterLength.symm
    (by rw [List.length_append, beforeLength, withinLength]; omega)
    (start + insert.length)
    ⟨newSize, before ++ (insert ++
      List.replicate after.length collectionFill)⟩
  have writtenBack := @writeElements_at α after newSize (before ++ insert)
    (List.replicate after.length collectionFill) [] (start + insert.length)
    (by rw [List.length_append, beforeLength]) List.length_replicate
  rw [List.nil_append, ← fresh] at writtenFront
  rw [List.append_nil, List.append_nil, List.append_assoc,
    List.append_assoc] at writtenBack
  refine ⟨_, _, _, copiedFront.trans writtenFront, written,
    copiedBack.trans writtenBack, ?_, 0, ?_⟩
  · show newSize = _
    rw [replaced, ← isTake, ← isDrop, List.length_append,
      List.length_append, beforeLength, total]
  · show before ++ (insert ++ after) = _
    rw [replaced, ← isTake, ← isDrop, List.replicate_zero, List.append_nil]

theorem Represents.replaceByVector {vector : LimitedStretchyVector α}
    {list : List α} (represents : Represents vector.representation list)
    (insert : List α) {start last : Nat} (ordered : start ≤ last)
    (inside : last ≤ list.length) :
    ∃ vector', replaceByVector vector insert start last = .ok vector' ∧
      Represents vector'.representation
        (replaced list insert start last) := by
  have size : vector.size = list.length := represents.size_eq
  have checked := checkStartComputeEnd_ok ordered (size ▸ inside)
  unfold StretchyVector.replaceByVector
  rw [checked]
  show ∃ vector', (if last - start = insert.length then _ else _) = _ ∧ _
  by_cases same : last - start = insert.length
  · obtain ⟨rep, writes, has⟩ :=
      represents.writeElements insert ordered inside same
    refine ⟨⟨rep⟩, ?_, has⟩
    rw [if_pos same, writes]
    rfl
  · obtain ⟨first, second, third, copies, writes, copiesToo, has⟩ :=
      represents.build insert ordered inside rfl
    refine ⟨⟨third⟩, ?_, has⟩
    rw [if_neg same, size]
    show (makeVector ⟨some _, none, none⟩ >>= _) = _
    rw [makeVector_size]
    show (copyElements _ start 0 0 ⟨_, _⟩ >>= _) = _
    rw [copies]
    show (StretchyVector.writeElements insert start first >>= _) = _
    rw [writes]
    show (copyElements _ (list.length - last) last _ second >>= _) = _
    rw [copiesToo]
    rfl

/-- Writing all elements of a new vector. -/
theorem Represents.writeAll (insert : List α) :
    ∃ rep : Representation α,
      StretchyVector.writeElements insert 0
          ⟨insert.length, List.replicate insert.length collectionFill⟩ =
        .ok rep ∧ Represents rep insert := by
  have written := @writeElements_at α insert insert.length []
    (List.replicate insert.length collectionFill) [] 0 rfl
    List.length_replicate
  rw [List.append_nil, List.append_nil, List.nil_append,
    List.nil_append] at written
  exact ⟨_, written, rfl, 0, (List.append_nil insert).symm⟩

theorem Represents.replaceBySequence {vector : LimitedStretchyVector α}
    {list : List α} (represents : Represents vector.representation list)
    (insert : List α) {start last : Nat} (ordered : start ≤ last)
    (inside : last ≤ list.length) :
    ∃ vector', replaceBySequence vector insert start last = .ok vector' ∧
      Represents vector'.representation
        (replaced list insert start last) := by
  have size : vector.size = list.length := represents.size_eq
  have checked := checkStartComputeEnd_ok ordered (size ▸ inside)
  unfold StretchyVector.replaceBySequence
  rw [checked]
  show ∃ vector', (if last - start = insert.length then _ else _) = _ ∧ _
  by_cases same : last - start = insert.length
  · obtain ⟨rep, writes, has⟩ :=
      represents.writeElements insert ordered inside same
    refine ⟨⟨rep⟩, ?_, has⟩
    rw [if_pos same, writes]
    rfl
  · rw [if_neg same, size]
    show ∃ vector', (makeVector ⟨some _, none, none⟩ >>= _) = _ ∧ _
    rw [makeVector_size]
    show ∃ vector', (if start = 0 ∧ last = list.length then _ else _) = _ ∧
      _
    by_cases whole : start = 0 ∧ last = list.length
    · have room : list.length - (last - start) + insert.length =
          insert.length := by
        omega
      have everything : replaced list insert start last = insert := by
        rw [replaced, whole.1, whole.2, List.take_zero, List.drop_length,
          List.append_nil, List.nil_append]
      obtain ⟨rep, writes, has⟩ := Represents.writeAll insert
      refine ⟨⟨rep⟩, ?_, by rw [everything]; exact has⟩
      rw [if_pos whole, room]
      show (StretchyVector.writeElements insert 0 ⟨_, _⟩ >>= _) = _
      rw [writes]
      rfl
    · obtain ⟨first, second, third, copies, writes, copiesToo, has⟩ :=
        represents.build insert ordered inside rfl
      refine ⟨⟨third⟩, ?_, has⟩
      rw [if_neg whole]
      show (copyElements _ start 0 0 ⟨_, _⟩ >>= _) = _
      rw [copies]
      show (StretchyVector.writeElements insert start first >>= _) = _
      rw [writes]
      show (if last = list.length then _ else _) = _
      by_cases atEnd : last = list.length
      · rw [atEnd, Nat.sub_self] at copiesToo
        rw [if_pos atEnd, Except.ok.inj copiesToo]
        rfl
      · rw [if_neg atEnd]
        show (copyElements _ (list.length - last) last _ second >>= _) = _
        rw [copiesToo]
        rfl

/-! ## Replacing by assignments -/

theorem Represents.assign {vector : LimitedStretchyVector α}
    {front back : List α} {old : α}
    (represents : Represents vector.representation (front ++ old :: back))
    {index : Nat} (place : index = front.length) (value : α) :
    ∃ vector', StretchyVector.elementSetter value vector index =
        .ok vector' ∧
      Represents vector'.representation (front ++ value :: back) := by
  obtain ⟨vector', sets, has⟩ := represents.elementSetter index value
  refine ⟨vector', sets, ?_⟩
  rw [assigned, if_pos (by rw [List.length_append, List.length_cons]; omega),
    place, List.set_append_right _ _ (Nat.le_refl _), Nat.sub_self] at has
  exact has

theorem Represents.assignElements {vector : LimitedStretchyVector α}
    (items : List α) {front old back : List α}
    (represents : Represents vector.representation (front ++ (old ++ back)))
    {index : Nat} (place : index = front.length)
    (room : old.length = items.length) :
    ∃ vector', assignElements items index vector = .ok vector' ∧
      Represents vector'.representation (front ++ (items ++ back)) := by
  induction items generalizing vector front old index with
  | nil =>
      rw [List.eq_nil_of_length_eq_zero room] at represents
      exact ⟨vector, rfl, represents⟩
  | cons item items ih =>
      cases old with
      | nil => cases room
      | cons slot old =>
          obtain ⟨next, sets, has⟩ := represents.assign place item
          have regroup : front ++ item :: (old ++ back) =
              (front ++ [item]) ++ (old ++ back) := by simp
          change Represents next.representation
            (front ++ item :: (old ++ back)) at has
          rw [regroup] at has
          obtain ⟨vector', loops, hasToo⟩ := @ih next (front ++ [item]) old
            has (index + 1)
            (by rw [place, List.length_append, List.length_singleton])
            (Nat.succ.inj room)
          refine ⟨vector', ?_, ?_⟩
          · rw [StretchyVector.assignElements, sets]
            exact loops
          · simpa using hasToo

theorem Represents.read {vector : LimitedStretchyVector α}
    {front back : List α} {item : α}
    (represents : Represents vector.representation (front ++ item :: back))
    {index : Nat} (place : index = front.length) :
    vector.element index none = .ok item := by
  have found := represents.element index
    (by rw [List.length_append, List.length_cons]; omega)
  rw [found]
  subst place
  simp

/-- Elements that move towards the front leave as many behind them as they
have moved by. -/
theorem Represents.shiftDown {vector : LimitedStretchyVector α}
    (tail : List α) {front gap back : List α}
    (represents : Represents vector.representation
      (front ++ (gap ++ (tail ++ back))))
    {di si : Nat} (diPlace : di = front.length)
    (siPlace : si = front.length + gap.length) :
    ∃ vector', shiftDown tail.length di si vector = .ok vector' ∧
      ∃ rest : List α, rest.length = gap.length ∧
        Represents vector'.representation
          (front ++ (tail ++ (rest ++ back))) := by
  induction tail generalizing vector front gap di si with
  | nil => exact ⟨vector, rfl, gap, rfl, represents⟩
  | cons item tail ih =>
      have read := @Represents.read α _ vector (front ++ gap) (tail ++ back)
        item (by simpa using represents) si
        (by rw [List.length_append, siPlace])
      -- The next element goes to the first place of the gap.
      have moved : ∃ next, StretchyVector.elementSetter item vector di =
          .ok next ∧ ∃ rest : List α, rest.length = gap.length ∧
            Represents next.representation
              ((front ++ [item]) ++ (rest ++ (tail ++ back))) := by
        cases gap with
        | nil =>
            obtain ⟨next, sets, has⟩ := represents.assign diPlace item
            exact ⟨next, sets, [], rfl, by simpa using has⟩
        | cons first gap =>
            obtain ⟨next, sets, has⟩ := represents.assign diPlace item
            exact ⟨next, sets, gap ++ [item], by simp, by simpa using has⟩
      obtain ⟨next, sets, rest, restLength, has⟩ := moved
      obtain ⟨vector', loops, last, lastLength, hasToo⟩ :=
        @ih next (front ++ [item]) rest has (di + 1) (si + 1)
          (by rw [diPlace, List.length_append, List.length_singleton])
          (by
            rw [siPlace, List.length_append, List.length_singleton,
              restLength]
            omega)
      refine ⟨vector', ?_, last, lastLength.trans restLength, ?_⟩
      · rw [List.length_cons, StretchyVector.shiftDown, read]
        show (StretchyVector.elementSetter item vector di >>= _) = _
        rw [sets]
        exact loops
      · simpa using hasToo

/-- Elements that move towards the end leave as many before them as they have
moved by. -/
theorem Represents.shiftUp {vector : LimitedStretchyVector α}
    (tail : List α) {front gap back : List α}
    (represents : Represents vector.representation
      (front ++ (tail ++ (gap ++ back))))
    {di si : Nat} (siPlace : si = front.length)
    (diPlace : di = front.length + gap.length) :
    ∃ vector', shiftUp di si tail.length vector = .ok vector' ∧
      ∃ rest : List α, rest.length = gap.length ∧
        Represents vector'.representation
          (front ++ (rest ++ (tail ++ back))) := by
  induction tail using List.reverseRecOn generalizing vector gap back with
  | nil => exact ⟨vector, rfl, gap, rfl, represents⟩
  | append_singleton tail item ih =>
      have read := @Represents.read α _ vector (front ++ tail) (gap ++ back)
        item (by simpa using represents) (si + tail.length)
        (by rw [List.length_append, siPlace])
      -- The last element goes to the last place of the gap.
      have moved : ∃ next, StretchyVector.elementSetter item vector
          ↑(di + tail.length) = .ok next ∧ ∃ rest : List α,
            rest.length = gap.length ∧ Represents next.representation
              (front ++ (tail ++ (rest ++ (item :: back)))) := by
        have ends : ∃ (rest : List α) (last : α),
            item :: gap = rest ++ [last] := by
          refine ⟨(item :: gap).dropLast, (item :: gap).getLast
            (List.cons_ne_nil _ _), ?_⟩
          exact (List.dropLast_append_getLast _).symm
        obtain ⟨rest, last, parts⟩ := ends
        have restLength : rest.length = gap.length := by
          have lengths := congrArg List.length parts
          rw [List.length_append, List.length_singleton,
            List.length_cons] at lengths
          omega
        have shape : front ++ (tail ++ [item] ++ (gap ++ back)) =
            (front ++ (tail ++ rest)) ++ last :: back := by
          have inner : [item] ++ (gap ++ back) = rest ++ (last :: back) := by
            rw [← List.append_assoc, List.singleton_append, parts,
              List.append_assoc, List.singleton_append]
          rw [List.append_assoc tail, inner]
          simp
        rw [shape] at represents
        obtain ⟨next, sets, has⟩ := @Represents.assign α _ vector _ _ _
          represents (di + tail.length)
          (by
            rw [List.length_append, List.length_append, diPlace, restLength]
            omega) item
        exact ⟨next, sets, rest, restLength, by simpa using has⟩
      obtain ⟨next, sets, rest, restLength, has⟩ := moved
      obtain ⟨vector', loops, last, lastLength, hasToo⟩ :=
        @ih next rest (item :: back) has
          (by rw [diPlace, restLength])
      refine ⟨vector', ?_, last, lastLength.trans restLength, ?_⟩
      · rw [List.length_append, List.length_singleton,
          StretchyVector.shiftUp, read]
        show (StretchyVector.elementSetter item vector ↑(di + tail.length) >>=
          _) = _
        rw [sets]
        exact loops
      · simpa using hasToo

theorem Represents.replaceStretchy {vector : LimitedStretchyVector α}
    {list : List α} (represents : Represents vector.representation list)
    (src : List α) {start last : Nat} (ordered : start ≤ last)
    (inside : last ≤ list.length) :
    ∃ vector', replaceStretchy vector src start last = .ok vector' ∧
      Represents vector'.representation (replaced list src start last) := by
  have size : vector.size = list.length := represents.size_eq
  obtain ⟨before, within, after, parts, beforeLength, withinLength, isTake,
    isDrop⟩ := split_at list ordered inside
  have afterLength : after.length = list.length - last := by
    rw [isDrop, List.length_drop]
  have result : replaced list src start last = before ++ (src ++ after) := by
    rw [replaced, ← isTake, ← isDrop]
  rw [result]
  unfold StretchyVector.replaceStretchy
  simp only [size]
  by_cases less : start + (src.length + (list.length - last)) < list.length
  · -- The rest moves down into the room that the old elements leave.
    have room : within = within.take src.length ++ within.drop src.length :=
      (List.take_append_drop src.length within).symm
    have shape : list = before ++ (within.take src.length ++
        (within.drop src.length ++ after)) := by
      rw [parts, ← List.append_assoc (within.take src.length),
        List.take_append_drop]
    rw [shape] at represents
    obtain ⟨first, writes, firstHas⟩ := represents.assignElements src
      beforeLength.symm (by rw [List.length_take]; omega)
    obtain ⟨second, shifts, rest, restLength, secondHas⟩ :=
      @Represents.shiftDown α _ first after (before ++ src)
        (within.drop src.length) [] (by simpa using firstHas)
        (start + src.length) last
        (by rw [List.length_append, beforeLength])
        (by
          rw [List.length_append, beforeLength, List.length_drop]
          omega)
    obtain ⟨third, resizes, thirdHas⟩ := secondHas.sizeSetter
      (start + (src.length + (list.length - last)))
    refine ⟨third, ?_, ?_⟩
    · rw [if_pos less, writes]
      show (StretchyVector.shiftDown (list.length - last) _ last first >>=
        _) = _
      rw [← afterLength, shifts, afterLength]
      exact resizes
    · have kept : resized (start + (src.length + (list.length - last)))
          (before ++ src ++ (after ++ (rest ++ []))) =
            before ++ (src ++ after) := by
        have whole : before ++ src ++ (after ++ (rest ++ [])) =
            (before ++ (src ++ after)) ++ rest := by simp
        have length : (before ++ (src ++ after)).length =
            start + (src.length + (list.length - last)) := by
          rw [List.length_append, List.length_append, beforeLength,
            afterLength]
        have longer : (before ++ (src ++ after)).length ≤
            (before ++ (src ++ after) ++ rest).length := by
          rw [@List.length_append _ (before ++ (src ++ after)) rest]
          exact Nat.le_add_right _ _
        rw [resized, whole, ← length, List.take_left,
          Nat.sub_eq_zero_of_le longer, List.replicate_zero, List.append_nil]
      rw [kept] at thirdHas
      exact thirdHas
  · by_cases more : start + (src.length + (list.length - last)) > list.length
    · -- The rest moves up, behind the room for the new elements.
      obtain ⟨first, resizes, firstHas⟩ := represents.sizeSetter
        (start + (src.length + (list.length - last)))
      have grown : resized (start + (src.length + (list.length - last))) list =
          (before ++ within) ++ (after ++
            (List.replicate (start + (src.length + (list.length - last)) -
              list.length) collectionFill ++ [])) := by
        rw [resized, List.take_of_length_le (by omega), parts]
        simp
      rw [grown] at firstHas
      obtain ⟨second, shifts, rest, restLength, secondHas⟩ :=
        @Represents.shiftUp α _ first after (before ++ within) _ [] firstHas
          (start + src.length) last
          (by rw [List.length_append, beforeLength, withinLength]; omega)
          (by
            rw [List.length_append, beforeLength, withinLength,
              List.length_replicate]
            omega)
      have regroup : before ++ within ++ (rest ++ (after ++ [])) =
          before ++ ((within ++ rest) ++ after) := by simp
      rw [List.length_replicate] at restLength
      rw [regroup] at secondHas
      obtain ⟨third, writes, thirdHas⟩ := secondHas.assignElements src
        beforeLength.symm
        (by rw [List.length_append, restLength, withinLength]; omega)
      refine ⟨third, ?_, thirdHas⟩
      have distance : start + (src.length + (list.length - last)) -
          (list.length - last) = start + src.length := by
        omega
      rw [if_neg less, if_pos more, resizes]
      show (StretchyVector.shiftUp _ last (list.length - last) first >>=
        _) = _
      rw [distance, ← afterLength, shifts]
      exact writes
    · have same : within.length = src.length := by omega
      rw [parts] at represents
      obtain ⟨vector', writes, has⟩ := represents.assignElements src
        beforeLength.symm same
      refine ⟨vector', ?_, has⟩
      rw [if_neg less, if_neg more]
      exact writes

/-! ## Runs -/

end Operations

/-- The operations on stretchy vectors; `replace-subsequence!` is chosen by the
classes of its arguments. -/
inductive Operation (α : Type) where
  | add (newElement : α)
  | elementSetter (newValue : α) (index : Int)
  | sizeSetter (newSize : Int)
  | remove (target : α) (test : α → α → Bool) (count : Option Int)
  | replaceByVector (insert : List α) (start last : Nat)
  | replaceBySequence (insert : List α) (start last : Nat)
  | replaceStretchy (src : List α) (start last : Nat)

/-- The arguments are no errors: indices and sizes are not negative, and the
bounds of a subsequence are ordered and inside. -/
def Operation.Legal : Operation α → List α → Prop
  | .add _, _ => True
  | .elementSetter _ index, _ => 0 ≤ index
  | .sizeSetter newSize, _ => 0 ≤ newSize
  | .remove .., _ => True
  | .replaceByVector _ start last, list =>
      start ≤ last ∧ last ≤ list.length
  | .replaceBySequence _ start last, list =>
      start ≤ last ∧ last ≤ list.length
  | .replaceStretchy _ start last, list =>
      start ≤ last ∧ last ≤ list.length

section Runs

variable [ElementType α]

/-- An operation on a stretchy vector. -/
def Operation.perform (vector : LimitedStretchyVector α) :
    Operation α → Except Failure (LimitedStretchyVector α)
  | .add newElement => StretchyVector.add vector newElement
  | .elementSetter newValue index =>
      StretchyVector.elementSetter newValue vector index
  | .sizeSetter newSize => StretchyVector.sizeSetter newSize vector
  | .remove target test count =>
      StretchyVector.remove vector target test count
  | .replaceByVector insert start last =>
      StretchyVector.replaceByVector vector insert start last
  | .replaceBySequence insert start last =>
      StretchyVector.replaceBySequence vector insert start last
  | .replaceStretchy src start last =>
      StretchyVector.replaceStretchy vector src start last

/-- The same operation on a list. -/
def Operation.onList (list : List α) : Operation α → List α
  | .add newElement => list ++ [newElement]
  | .elementSetter newValue index => assigned list index.toNat newValue
  | .sizeSetter newSize => resized newSize.toNat list
  | .remove target test count =>
      removed test target (count.getD list.length) list
  | .replaceByVector insert start last => replaced list insert start last
  | .replaceBySequence insert start last => replaced list insert start last
  | .replaceStretchy src start last => replaced list src start last

/-- A run of operations. -/
def run : List (Operation α) → LimitedStretchyVector α →
    Except Failure (LimitedStretchyVector α)
  | [], vector => .ok vector
  | operation :: rest, vector => do
      let vector ← operation.perform vector
      run rest vector

/-- The same run on a list. -/
def runOnList : List (Operation α) → List α → List α
  | [], list => list
  | operation :: rest, list => runOnList rest (operation.onList list)

/-- Every operation of a run is legal where it is performed. -/
def LegalRun : List (Operation α) → List α → Prop
  | [], _ => True
  | operation :: rest, list =>
      operation.Legal list ∧ LegalRun rest (operation.onList list)

/-- One operation keeps the correspondence. -/
theorem Represents.perform {vector : LimitedStretchyVector α}
    {list : List α} (represents : Represents vector.representation list)
    (operation : Operation α) (legal : operation.Legal list) :
    ∃ vector', operation.perform vector = .ok vector' ∧
      Represents vector'.representation (operation.onList list) := by
  cases operation with
  | add newElement => exact represents.add newElement
  | elementSetter newValue index =>
      have natural : (index.toNat : Int) = index := Int.toNat_of_nonneg legal
      have sets := represents.elementSetter index.toNat newValue
      rw [natural] at sets
      exact sets
  | sizeSetter newSize =>
      have natural : (newSize.toNat : Int) = newSize :=
        Int.toNat_of_nonneg legal
      have sets := represents.sizeSetter newSize.toNat
      rw [natural] at sets
      exact sets
  | remove target test count => exact represents.remove target test count
  | replaceByVector insert start last =>
      exact represents.replaceByVector insert legal.1 legal.2
  | replaceBySequence insert start last =>
      exact represents.replaceBySequence insert legal.1 legal.2
  | replaceStretchy src start last =>
      exact represents.replaceStretchy src legal.1 legal.2

/-- A whole run keeps the correspondence. -/
theorem Represents.run (operations : List (Operation α))
    {vector : LimitedStretchyVector α} {list : List α}
    (represents : Represents vector.representation list)
    (legal : LegalRun operations list) :
    ∃ vector', run operations vector = .ok vector' ∧
      Represents vector'.representation (runOnList operations list) := by
  induction operations generalizing vector list with
  | nil => exact ⟨vector, rfl, represents⟩
  | cons operation rest ih =>
      obtain ⟨next, performs, has⟩ := represents.perform operation legal.1
      obtain ⟨vector', runs, hasToo⟩ := ih has legal.2
      refine ⟨vector', ?_, hasToo⟩
      rw [StretchyVector.run, performs]
      exact runs

/-! ## What can be observed -/

omit [ElementType α] in
/-- The size and the elements of a vector are those of a list. -/
structure Shows (vector : LimitedStretchyVector α) (list : List α) :
    Prop where
  size_eq : vector.size = list.length
  element_eq : ∀ (index : Nat) (inside : index < list.length),
    vector.element index none = .ok list[index]

theorem Represents.shows {vector : LimitedStretchyVector α} {list : List α}
    (represents : Represents vector.representation list) :
    Shows vector list where
  size_eq := represents.size_eq
  element_eq := represents.element

/-- The elements that a vector is made with. -/
def Keywords.elements (keywords : Keywords α) : List α :=
  List.replicate keywords.theSize.toNat keywords.theFill

/-- The vector is made without slots to spare, or with the fill of the
collection. -/
def Keywords.Plain (keywords : Keywords α) : Prop :=
  keywords.theCapacity = keywords.theSize ∨
    keywords.theFill = collectionFill

/-- Every legal run answers like the run on a list. -/
def CapacityHidden (vector : LimitedStretchyVector α) (list : List α) :
    Prop :=
  ∀ operations : List (Operation α), LegalRun operations list →
    ∃ vector', run operations vector = .ok vector' ∧
      Shows vector' (runOnList operations list)

/-- What `make` returns if it returns. -/
theorem makeVector_eq {keywords : Keywords α}
    {vector : LimitedStretchyVector α}
    (made : makeVector keywords = .ok vector) :
    0 ≤ keywords.theSize ∧ keywords.theSize ≤ keywords.theCapacity ∧
      vector = ⟨⟨keywords.theSize.toNat,
        List.replicate keywords.theCapacity.toNat keywords.theFill⟩⟩ := by
  unfold makeVector stretchyInitialize checkNat at made
  by_cases natural : 0 ≤ keywords.theSize
  · by_cases naturalToo : 0 ≤ keywords.theCapacity
    · rw [if_pos natural, if_pos naturalToo] at made
      change (if keywords.theCapacity < keywords.theSize then _ else _) = _
        at made
      by_cases small : keywords.theCapacity < keywords.theSize
      · rw [if_pos small] at made
        cases made
      · rw [if_neg small] at made
        refine ⟨natural, Int.not_lt.mp small, ?_⟩
        by_cases some_ : keywords.theCapacity > 0
        · rw [if_pos some_] at made
          exact (Except.ok.inj made).symm
        · rw [if_neg some_] at made
          have noSize : keywords.theSize = 0 := by omega
          have noCapacity : keywords.theCapacity = 0 := by omega
          rw [noSize, noCapacity]
          exact (Except.ok.inj made).symm
    · rw [if_pos natural, if_neg naturalToo] at made
      cases made
  · rw [if_neg natural] at made
    cases made

theorem Keywords.Plain.represents {keywords : Keywords α}
    (plain : keywords.Plain) {vector : LimitedStretchyVector α}
    (made : makeVector keywords = .ok vector) :
    Represents vector.representation keywords.elements := by
  obtain ⟨natural, enough, isVector⟩ := makeVector_eq made
  rw [isVector]
  refine ⟨?_, keywords.theCapacity.toNat - keywords.theSize.toNat, ?_⟩
  · rw [Keywords.elements, List.length_replicate]
  · rcases plain with noSpare | noFill
    · rw [noSpare, Nat.sub_self, List.replicate_zero, List.append_nil]
      rfl
    · have slots : keywords.theCapacity.toNat = keywords.theSize.toNat +
          (keywords.theCapacity.toNat - keywords.theSize.toNat) := by
        omega
      rw [Keywords.elements, noFill, List.replicate_append_replicate, ← slots]

/-- The next element that a vector shows when it grows within its slots. -/
theorem grow_within {keywords : Keywords α}
    {vector : LimitedStretchyVector α}
    (made : makeVector keywords = .ok vector)
    (room : keywords.theSize < keywords.theCapacity) :
    ∃ vector', sizeSetter (keywords.theSize + 1) vector = .ok vector' ∧
      vector'.element keywords.theSize none = .ok keywords.theFill := by
  obtain ⟨natural, -, isVector⟩ := makeVector_eq made
  have newSize : (keywords.theSize + 1).toNat =
      keywords.theSize.toNat + 1 := by
    omega
  refine ⟨⟨⟨keywords.theSize.toNat + 1, List.replicate
    keywords.theCapacity.toNat keywords.theFill⟩⟩, ?_, ?_⟩
  · unfold sizeSetter checkNat trustedSizeSetter Representation.capacity
    rw [if_pos (by omega), isVector, newSize]
    simp only [List.length_replicate]
    show (if keywords.theSize.toNat + 1 > keywords.theCapacity.toNat then _
      else _) = _
    rw [if_neg (by omega), if_neg (by omega)]
    rfl
  · unfold LimitedStretchyVector.element LimitedStretchyVector.size
      stretchyVectorElement
    rw [if_pos ⟨natural, by show _ < ((_ + 1 : Nat) : Int); omega⟩]
    have found : (List.replicate keywords.theCapacity.toNat
        keywords.theFill)[keywords.theSize.toNat]? =
          some keywords.theFill := by
      rw [List.getElem?_replicate, if_pos (by omega)]
    simp only [found]

end Runs

/-- Numbers and `#f`, which is the fill of a vector of objects. -/
instance : ElementType (Option Nat) where
  fill := none

/-- A capacity of four, and the fill of the collection. -/
def roomy : Keywords (Option Nat) where
  size := none
  capacity := some 4
  fill := none

/-- A capacity of four, and another fill. -/
def filled : Keywords (Option Nat) where
  size := none
  capacity := some 4
  fill := some (some 1)

end OpenDylan.Collections.StretchyVector
