import OpenDylan.Runtime.SubclassTest

/-!
# Augmenting the positions of a class

When a library is loaded, the positions that its classes give to a superclass
are merged with those recorded for it.  The positions that are not known yet
are counted, a vector of the size of the union is made, and the merge fills it.
The position that a class has by single inheritance is kept apart.
-/

namespace OpenDylan.Runtime.PositionAugmentation

open OpenDylan.Runtime.SubclassTest

/-- What stops an augmentation: a store outside the vector, or a slot that is
left unfilled, which holds no position. -/
inductive StoreError where
  | outside (index : Nat)
  | unfilled
deriving DecidableEq

/-- `new[nidx] := position` -/
def store (new : List (Option Int)) (nidx : Nat) (position : Int) :
    Except StoreError (List (Option Int)) :=
  if nidx < new.length then .ok (new.set nidx (some position))
  else .error (.outside nidx)

/-- The second local method `loop`, on the rest of the new positions and of the
old ones. -/
def mergeLoop (basePos : Int) :
    List Int → List Int → Nat → List (Option Int) →
      Except StoreError (List (Option Int))
  | [], [], _, new => return new
  | newe :: positions, [], nidx, new => do
      let new ← store new nidx newe
      mergeLoop basePos positions [] (nidx + 1) new
  | [], olde :: old, nidx, new => do
      let new ← store new nidx olde
      mergeLoop basePos [] old (nidx + 1) new
  | newe :: positions, olde :: old, nidx, new =>
      if newe < olde then
        if newe = basePos then
          mergeLoop basePos positions (olde :: old) nidx new
        else do
          let new ← store new nidx newe
          mergeLoop basePos positions (olde :: old) (nidx + 1) new
      else do
        let new ← store new nidx olde
        mergeLoop basePos (if olde = newe then positions else newe :: positions)
          old (nidx + 1) new
termination_by positions old => positions.length + old.length
decreasing_by all_goals grind

section Programs

variable {Class : Type} [DecidableEq Class]

/-- `rcpl-position-known?` -/
def rcplPositionKnown (program : Program Class) (cls : Class) (pos : Int) :
    Bool :=
  pos = program.classRcplPosition cls ||
    (program.classRcplOtherPositions cls).contains pos

/-- The first local method `loop`, which counts the positions that are not
known. -/
def countUnknown (program : Program Class) (cls : Class) :
    List Int → Nat
  | [] => 0
  | p :: positions =>
      if rcplPositionKnown program cls p then
        countUnknown program cls positions
      else
        countUnknown program cls positions + 1

/-- `augment-rcpl-position-data-multiple` -/
def augmentRcplPositionDataMultiple (program : Program Class) (cls : Class)
    (positions : List Int) : Except StoreError (Program Class) :=
  let ninc := countUnknown program cls positions
  if ninc > 0 then do
    let old := program.classRcplOtherPositions cls
    let nnew := old.length + ninc
    let new ← mergeLoop (program.classRcplPosition cls) positions old 0
      (List.replicate nnew none)
    match new.mapM id with
    | none => .error .unfilled
    | some new =>
        return { program with
          classRcplOtherPositions :=
            Function.update program.classRcplOtherPositions cls new
          instanceIep := Function.update program.instanceIep cls
            (strategy (program.classRcplPosition cls) new) }
  else
    return program

end Programs

/-! ## What is stored -/

/-- The positions that the merge stores, in order. -/
def stored (basePos : Int) : List Int → List Int → List Int
  | [], [] => []
  | newe :: positions, [] => newe :: stored basePos positions []
  | [], olde :: old => olde :: stored basePos [] old
  | newe :: positions, olde :: old =>
      if newe < olde then
        if newe = basePos then stored basePos positions (olde :: old)
        else newe :: stored basePos positions (olde :: old)
      else
        olde :: stored basePos
          (if olde = newe then positions else newe :: positions) old
termination_by positions old => positions.length + old.length
decreasing_by all_goals grind

/-- Store positions from an index on. -/
def storeAll : List Int → Nat → List (Option Int) →
    Except StoreError (List (Option Int))
  | [], _, new => return new
  | position :: positions, nidx, new => do
      let new ← store new nidx position
      storeAll positions (nidx + 1) new

section Merging

variable {basePos : Int} {positions old : List Int}

theorem mergeLoop_eq (nidx : Nat) (new : List (Option Int)) :
    mergeLoop basePos positions old nidx new =
      storeAll (stored basePos positions old) nidx new := by
  induction positions, old using stored.induct basePos generalizing nidx new
    with
  | case1 => rw [mergeLoop, stored, storeAll]
  | case2 newe positions ih =>
      rw [mergeLoop, stored, storeAll]
      simp only [ih]
  | case3 olde old ih =>
      rw [mergeLoop, stored, storeAll]
      simp only [ih]
  | case4 positions olde old below ih =>
      rw [mergeLoop, stored, if_pos below, if_pos rfl, if_pos below,
        if_pos rfl, ih]
  | case5 newe positions olde old below notBase ih =>
      rw [mergeLoop, stored, if_pos below, if_neg notBase, if_pos below,
        if_neg notBase, storeAll]
      simp only [ih]
  | case6 newe positions olde old notBelow ih =>
      rw [dite_eq_ite] at ih
      rw [mergeLoop, stored, if_neg notBelow, if_neg notBelow, storeAll]
      simp only [ih]

/-- Positions are stored in the slots that are left, if these are enough. -/
theorem storeAll_eq (front : List (Option Int)) (room : Nat) :
    storeAll positions front.length (front ++ List.replicate room none) =
      if positions.length ≤ room then
        .ok (front ++ positions.map some ++
          List.replicate (room - positions.length) none)
      else .error (.outside (front.length + room)) := by
  induction positions generalizing front room with
  | nil => simp [storeAll, pure, Except.pure]
  | cons position positions ih =>
      rw [storeAll]
      cases room with
      | zero =>
          rw [store, if_neg (by simp), if_neg (by simp)]
          rfl
      | succ room =>
          have placed : store (front ++ List.replicate (room + 1) none)
              front.length position =
                .ok ((front ++ [some position]) ++
                  List.replicate room none) := by
            rw [store, if_pos (by simp), List.set_append_right _ _ (Nat.le_refl _),
              Nat.sub_self, List.replicate_succ, List.set_cons_zero,
              List.append_assoc, List.singleton_append]
          have later := ih (front ++ [some position]) room
          rw [List.length_append, List.length_singleton] at later
          rw [placed]
          show storeAll positions (front.length + 1) _ = _
          rw [later]
          simp only [List.length_cons, Nat.add_le_add_iff_right,
            Nat.add_sub_add_right, List.map_cons, List.append_assoc,
            List.nil_append, List.cons_append,
            Nat.add_assoc, Nat.add_comm 1 room]

/-! ## How often positions are stored -/

theorem stored_nil_left : stored basePos [] old = old := by
  induction old with
  | nil => rw [stored]
  | cons olde old ih => rw [stored, ih]

theorem stored_nil_right : stored basePos positions [] = positions := by
  induction positions with
  | nil => rw [stored]
  | cons newe positions ih => rw [stored, ih]

theorem mem_stored {a : Int} (member : a ∈ stored basePos positions old) :
    a ∈ positions ∨ a ∈ old := by
  induction positions, old using stored.induct basePos with
  | case1 => simp [stored] at member
  | case2 newe positions => exact Or.inl (by rwa [stored_nil_right] at member)
  | case3 olde old => exact Or.inr (by rwa [stored_nil_left] at member)
  | case4 positions olde old below ih =>
      rw [stored, if_pos below, if_pos rfl] at member
      exact (ih member).imp_left (List.mem_cons_of_mem _)
  | case5 newe positions olde old below notBase ih =>
      rw [stored, if_pos below, if_neg notBase] at member
      rcases List.mem_cons.mp member with rfl | later
      · exact Or.inl List.mem_cons_self
      · exact (ih later).imp_left (List.mem_cons_of_mem _)
  | case6 newe positions olde old notBelow ih =>
      rw [dite_eq_ite] at ih
      rw [stored, if_neg notBelow] at member
      rcases List.mem_cons.mp member with rfl | later
      · exact Or.inr List.mem_cons_self
      · refine (ih later).imp ?_ (List.mem_cons_of_mem _)
        split
        · exact List.mem_cons_of_mem _
        · exact id

/-- Positions are stored in order. -/
theorem sorted_stored (sorted : positions.Pairwise (· ≤ ·))
    (strict : old.Pairwise (· < ·)) :
    (stored basePos positions old).Pairwise (· ≤ ·) := by
  induction positions, old using stored.induct basePos with
  | case1 => simp [stored]
  | case2 newe positions =>
      rw [stored_nil_right]
      exact sorted
  | case3 olde old =>
      rw [stored_nil_left]
      exact strict.imp Int.le_of_lt
  | case4 positions olde old below ih =>
      rw [stored, if_pos below, if_pos rfl]
      exact ih sorted.tail strict
  | case5 newe positions olde old below notBase ih =>
      rw [stored, if_pos below, if_neg notBase]
      refine List.pairwise_cons.mpr ⟨?_, ih sorted.tail strict⟩
      intro other member
      rcases mem_stored member with isNew | isOld
      · exact List.rel_of_pairwise_cons sorted isNew
      · rcases List.mem_cons.mp isOld with rfl | later
        · exact Int.le_of_lt below
        · have above := List.rel_of_pairwise_cons strict later
          omega
  | case6 newe positions olde old notBelow ih =>
      rw [dite_eq_ite] at ih
      rw [stored, if_neg notBelow]
      have rest : (if olde = newe then positions else newe :: positions).Pairwise
          (· ≤ ·) := by
        split
        · exact sorted.tail
        · exact sorted
      refine List.pairwise_cons.mpr ⟨?_, ih rest strict.tail⟩
      intro other member
      rcases mem_stored member with isNew | isOld
      · have inPositions : other ∈ newe :: positions := by
          split at isNew
          · exact List.mem_cons_of_mem _ isNew
          · exact isNew
        rcases List.mem_cons.mp inPositions with rfl | later
        · omega
        · have above := List.rel_of_pairwise_cons sorted later
          omega
      · exact Int.le_of_lt (List.rel_of_pairwise_cons strict isOld)

/-- Numbers above all of a list are not in it. -/
theorem count_eq_zero_of_lt {a : Int} {list : List Int}
    (above : ∀ o ∈ list, a < o) : list.count a = 0 :=
  List.count_eq_zero.mpr fun member => Int.lt_irrefl a (above a member)

/-- A position is stored as often as it is in either list, whichever is more;
but the base position only as often as in the old list if this goes beyond
it. -/
theorem count_stored (sorted : positions.Pairwise (· ≤ ·))
    (strict : old.Pairwise (· < ·)) (a : Int) :
    (stored basePos positions old).count a =
      if a = basePos ∧ ∃ o ∈ old, basePos < o then old.count a
      else max (old.count a) (positions.count a) := by
  induction positions, old using stored.induct basePos with
  | case1 => simp [stored]
  | case2 newe positions =>
      rw [stored_nil_right]
      simp
  | case3 olde old =>
      rw [stored_nil_left]
      simp
  | case4 positions olde old below ih =>
      rw [stored, if_pos below, if_pos rfl, ih sorted.tail strict]
      by_cases isBase : a = basePos
      · have beyond : a = basePos ∧ ∃ o ∈ olde :: old, basePos < o :=
          ⟨isBase, olde, List.mem_cons_self, below⟩
        rw [if_pos beyond, if_pos beyond]
      · rw [List.count_cons_of_ne (Ne.symm isBase)]
  | case5 newe positions olde old below notBase ih =>
      rw [stored, if_pos below, if_neg notBase]
      by_cases isNew : a = newe
      · have absent : (olde :: old).count a = 0 := by
          apply count_eq_zero_of_lt
          intro o member
          rcases List.mem_cons.mp member with rfl | later
          · omega
          · have above := List.rel_of_pairwise_cons strict later
            omega
        have notBeyond : ¬(a = basePos ∧ ∃ o ∈ olde :: old, basePos < o) := by
          intro both
          exact notBase (isNew.symm.trans both.1)
        subst isNew
        rw [List.count_cons_self, ih sorted.tail strict, if_neg notBeyond,
          if_neg notBeyond, absent, List.count_cons_self]
        omega
      · rw [List.count_cons_of_ne (Ne.symm isNew), ih sorted.tail strict,
          List.count_cons_of_ne (Ne.symm isNew)]
  | case6 newe positions olde old notBelow ih =>
      rw [dite_eq_ite] at ih
      rw [stored, if_neg notBelow]
      have rest : (if olde = newe then positions else newe :: positions).Pairwise
          (· ≤ ·) := by
        split
        · exact sorted.tail
        · exact sorted
      have later := ih rest strict.tail
      have first : ∀ o ∈ newe :: positions, newe ≤ o := by
        intro o member
        rcases List.mem_cons.mp member with rfl | later
        · exact Int.le_refl _
        · exact List.rel_of_pairwise_cons sorted later
      by_cases isOld : a = olde
      · have absent : old.count a = 0 := by
          apply count_eq_zero_of_lt
          intro o member
          rw [isOld]
          exact List.rel_of_pairwise_cons strict member
        have beyond : (a = basePos ∧ ∃ o ∈ olde :: old, basePos < o) ↔
            a = basePos ∧ ∃ o ∈ old, basePos < o := by
          rw [List.exists_mem_cons_iff]
          constructor
          · rintro ⟨isBase, here | there⟩
            · omega
            · exact ⟨isBase, there⟩
          · rintro ⟨isBase, there⟩
            exact ⟨isBase, Or.inr there⟩
        have left : (if olde = newe then positions
            else newe :: positions).count a + 1 =
              max 1 ((newe :: positions).count a) := by
          by_cases same : olde = newe
          · rw [if_pos same, isOld, same, List.count_cons_self]
            omega
          · have none : (newe :: positions).count a = 0 := by
              apply count_eq_zero_of_lt
              intro o member
              have above := first o member
              omega
            rw [if_neg same, none]
            rfl
        simp only [beyond]
        rw [isOld] at later absent left ⊢
        rw [List.count_cons_self, later, List.count_cons_self, absent]
        split <;> omega
      · have left : (if olde = newe then positions
            else newe :: positions).count a = (newe :: positions).count a := by
          split
          · next same =>
              rw [List.count_cons_of_ne (by rw [← same]; exact Ne.symm isOld)]
          · rfl
        rw [List.count_cons_of_ne (Ne.symm isOld), later, left,
          List.count_cons_of_ne (Ne.symm isOld)]
        by_cases beyond : a = basePos ∧ ∃ o ∈ olde :: old, basePos < o
        · rw [if_pos beyond]
          split
          · rfl
          · next notLater =>
              -- Only this old position goes beyond the base position, which
              -- is then below all the new ones.
              have none : (newe :: positions).count a = 0 := by
                apply count_eq_zero_of_lt
                intro o member
                obtain ⟨isBase, larger, isOlder, above⟩ := beyond
                have last : larger = olde := by
                  rcases List.mem_cons.mp isOlder with here | there
                  · exact here
                  · exact absurd ⟨isBase, larger, there, above⟩ notLater
                have least := first o member
                omega
              rw [none, Nat.max_zero]
        · rw [if_neg beyond, if_neg]
          rintro ⟨isBase, larger, isOlder, above⟩
          exact beyond ⟨isBase, larger, List.mem_cons_of_mem _ isOlder, above⟩

/-- The old positions and the new ones in order and without repetitions, the
base position among them only if it is an old one. -/
structure IsUnion (basePos : Int) (old positions result : List Int) : Prop where
  sorted : result.Pairwise (· < ·)
  members : ∀ p, p ∈ result ↔ p ∈ old ∨ p ∈ positions ∧ p ≠ basePos

/-- No new position other than the base position is repeated; and if the base
position is among them, some old position is larger, or it is itself an old
position and comes once. -/
structure Mergeable (basePos : Int) (old positions : List Int) : Prop where
  distinct : ∀ p ≠ basePos, positions.count p ≤ 1
  base : basePos ∈ positions →
    (∃ o ∈ old, basePos < o) ∨ basePos ∈ old ∧ positions.count basePos = 1

theorem isUnion_stored (sorted : positions.Pairwise (· ≤ ·))
    (strict : old.Pairwise (· < ·)) :
    IsUnion basePos old positions (stored basePos positions old) ↔
      Mergeable basePos old positions := by
  have counts := @count_stored basePos positions old sorted strict
  have once : ∀ p, old.count p ≤ 1 :=
    List.nodup_iff_count_le_one.mp (strict.imp Int.ne_of_lt)
  constructor
  · intro union
    have single : ∀ p, (stored basePos positions old).count p ≤ 1 :=
      List.nodup_iff_count_le_one.mp (union.sorted.imp Int.ne_of_lt)
    refine ⟨?_, ?_⟩
    · intro p notBase
      have count := counts p
      rw [if_neg (fun both => notBase both.1)] at count
      have bound := single p
      omega
    · intro isNew
      by_cases larger : ∃ o ∈ old, basePos < o
      · exact Or.inl larger
      · right
        have count := counts basePos
        rw [if_neg (fun both => larger both.2)] at count
        have bound := single basePos
        have present := List.count_pos_iff.mpr isNew
        have isStored : basePos ∈ stored basePos positions old :=
          List.count_pos_iff.mp (by omega)
        rcases (union.members basePos).mp isStored with isOld | ⟨-, notBase⟩
        · exact ⟨isOld, by omega⟩
        · exact absurd rfl notBase
  · intro mergeable
    have single : ∀ p, (stored basePos positions old).count p ≤ 1 := by
      intro p
      rw [counts p]
      split
      · exact once p
      · next notPassed =>
          by_cases isBase : p = basePos
          · subst isBase
            have left := once p
            by_cases isNew : p ∈ positions
            · rcases mergeable.base isNew with larger | ⟨-, comesOnce⟩
              · exact absurd ⟨rfl, larger⟩ notPassed
              · omega
            · have absent := List.count_eq_zero.mpr isNew
              omega
          · exact Nat.max_le.mpr ⟨once p, mergeable.distinct p isBase⟩
    have distinct : (stored basePos positions old).Nodup :=
      List.nodup_iff_count_le_one.mpr single
    refine ⟨?_, ?_⟩
    · exact ((sorted_stored sorted strict).and distinct).imp fun both =>
        Int.lt_iff_le_and_ne.mpr both
    · intro p
      rw [← List.count_pos_iff, counts p]
      by_cases isBase : p = basePos
      · subst isBase
        have onlyOld : (p ∈ old ∨ p ∈ positions ∧ p ≠ p) ↔ 0 < old.count p := by
          rw [List.count_pos_iff]
          simp
        rw [onlyOld]
        split
        · rfl
        · next notPassed =>
            constructor
            · intro present
              by_cases isNew : p ∈ positions
              · rcases mergeable.base isNew with larger | ⟨isOld, -⟩
                · exact absurd ⟨rfl, larger⟩ notPassed
                · exact List.count_pos_iff.mpr isOld
              · have absent := List.count_eq_zero.mpr isNew
                omega
            · intro present
              omega
      · rw [if_neg (fun both => isBase both.1)]
        simp only [isBase, ne_eq, not_false_eq_true, and_true,
          ← List.count_pos_iff (l := old), ← List.count_pos_iff (l := positions)]
        omega

end Merging

/-! ## The augmentation -/

section Augmentation

variable {Class : Type} {program : Program Class} {cls : Class}
  {positions : List Int}

theorem countUnknown_eq :
    countUnknown program cls positions =
      (positions.filter (fun p => !rcplPositionKnown program cls p)).length := by
  induction positions with
  | nil => rfl
  | cons p positions ih =>
      rw [countUnknown, List.filter_cons]
      cases rcplPositionKnown program cls p <;> simp [ih]

theorem not_known_iff {p : Int} :
    (!rcplPositionKnown program cls p) = true ↔
      p ≠ program.classRcplPosition cls ∧
        p ∉ program.classRcplOtherPositions cls := by
  simp [rcplPositionKnown]

/-- A vector holds positions if no slot is left. -/
theorem mapM_filled (merged : List Int) (nnew : Nat) :
    (merged.map some ++
      List.replicate (nnew - merged.length) (none : Option Int)).mapM id =
        if merged.length < nnew then none else some merged := by
  induction merged generalizing nnew with
  | nil =>
      cases nnew with
      | zero => rfl
      | succ nnew => simp [List.replicate_succ]
  | cons position merged ih =>
      cases nnew with
      | zero =>
          have later := ih 0
          simp only [Nat.zero_sub, Nat.not_lt_zero, if_false] at later
          simp only [Nat.zero_sub, Nat.not_lt_zero, if_false, List.map_cons,
            List.cons_append, List.mapM_cons, id_eq, later]
          rfl
      | succ nnew =>
          have later := ih nnew
          simp only [List.length_cons, Nat.add_sub_add_right,
            Nat.add_lt_add_iff_right, List.map_cons, List.cons_append,
            List.mapM_cons, id_eq, later]
          split <;> rfl

/-- A merge that stores the union stores as many positions as were counted. -/
theorem length_of_isUnion {result : List Int}
    (strict : (program.classRcplOtherPositions cls).Pairwise (· < ·))
    (mergeable : Mergeable (program.classRcplPosition cls)
      (program.classRcplOtherPositions cls) positions)
    (union : IsUnion (program.classRcplPosition cls)
      (program.classRcplOtherPositions cls) positions result) :
    result.length = (program.classRcplOtherPositions cls).length +
      countUnknown program cls positions := by
  rw [countUnknown_eq, ← List.length_append]
  apply List.Perm.length_eq
  have unknown : (positions.filter
      (fun p => !rcplPositionKnown program cls p)).Nodup := by
    rw [List.nodup_iff_count_le_one]
    intro p
    by_cases isUnknown : (!rcplPositionKnown program cls p) = true
    · rw [List.count_filter (p := fun p => !rcplPositionKnown program cls p)
        isUnknown]
      exact mergeable.distinct p (not_known_iff.mp isUnknown).1
    · rw [List.count_eq_zero.mpr]
      · exact Nat.zero_le 1
      · intro member
        exact isUnknown (List.mem_filter.mp member).2
  have both : (program.classRcplOtherPositions cls ++ positions.filter
      (fun p => !rcplPositionKnown program cls p)).Nodup := by
    refine List.nodup_append.mpr
      ⟨strict.imp Int.ne_of_lt, unknown, ?_⟩
    rintro old isOld new isNew rfl
    exact (not_known_iff.mp (List.mem_filter.mp isNew).2).2 isOld
  rw [List.perm_ext_iff_of_nodup (union.sorted.imp Int.ne_of_lt) both]
  intro p
  rw [union.members, List.mem_append, List.mem_filter, not_known_iff]
  tauto

variable [DecidableEq Class]

/-- What an augmentation with unknown positions does. -/
theorem augment_eq (unknown : countUnknown program cls positions > 0) :
    augmentRcplPositionDataMultiple program cls positions =
      let merged := stored (program.classRcplPosition cls) positions
        (program.classRcplOtherPositions cls)
      let nnew := (program.classRcplOtherPositions cls).length +
        countUnknown program cls positions
      if merged.length < nnew then .error .unfilled
      else if nnew < merged.length then .error (.outside nnew)
      else .ok { program with
        classRcplOtherPositions :=
          Function.update program.classRcplOtherPositions cls merged
        instanceIep := Function.update program.instanceIep cls
          (strategy (program.classRcplPosition cls) merged) } := by
  have all := @storeAll_eq
    (stored (program.classRcplPosition cls) positions
      (program.classRcplOtherPositions cls)) []
    ((program.classRcplOtherPositions cls).length +
      countUnknown program cls positions)
  rw [List.nil_append, List.length_nil, Nat.zero_add] at all
  rw [augmentRcplPositionDataMultiple, if_pos unknown]
  dsimp only
  rw [mergeLoop_eq, all]
  generalize stored (program.classRcplPosition cls) positions
    (program.classRcplOtherPositions cls) = merged
  generalize (program.classRcplOtherPositions cls).length +
    countUnknown program cls positions = nnew
  rw [List.nil_append]
  by_cases fits : merged.length ≤ nnew
  · rw [if_pos fits]
    show (match (merged.map some ++
      List.replicate (nnew - merged.length) (none : Option Int)).mapM id with
      | none => Except.error StoreError.unfilled
      | some new => _) = _
    rw [mapM_filled]
    by_cases few : merged.length < nnew
    · simp only [if_pos few]
    · simp only [if_neg few, if_neg (Nat.not_lt.mpr fits)]
      rfl
  · have many : nnew < merged.length := Nat.not_le.mp fits
    rw [if_neg fits]
    simp only [if_pos many, if_neg (Nat.lt_asymm many)]
    rfl

/-- Augmenting makes the sorted union, without a store outside the vector that
it makes, exactly if all the positions are known already or the merge passes
every position by that it should. -/
theorem augment_makes_union_iff
    (strict : (program.classRcplOtherPositions cls).Pairwise (· < ·))
    (sorted : positions.Pairwise (· ≤ ·)) :
    (∃ augmented,
      augmentRcplPositionDataMultiple program cls positions = .ok augmented ∧
      IsUnion (program.classRcplPosition cls)
        (program.classRcplOtherPositions cls) positions
        (augmented.classRcplOtherPositions cls)) ↔
      (∀ p ∈ positions, rcplPositionKnown program cls p = true) ∨
        Mergeable (program.classRcplPosition cls)
          (program.classRcplOtherPositions cls) positions := by
  by_cases known : ∀ p ∈ positions, rcplPositionKnown program cls p = true
  · refine iff_of_true ⟨program, ?_, strict, ?_⟩ (Or.inl known)
    · rw [augmentRcplPositionDataMultiple, if_neg]
      · rfl
      rw [countUnknown_eq, gt_iff_lt, List.length_pos_iff_exists_mem]
      rintro ⟨p, member⟩
      obtain ⟨isNew, isUnknown⟩ := List.mem_filter.mp member
      simp [known p isNew] at isUnknown
    · intro p
      refine ⟨Or.inl, ?_⟩
      rintro (isOld | ⟨isNew, notBase⟩)
      · exact isOld
      · by_contra notOld
        have isUnknown := not_known_iff.mpr ⟨notBase, notOld⟩
        simp [known p isNew] at isUnknown
  · have unknown : countUnknown program cls positions > 0 := by
      rw [countUnknown_eq, gt_iff_lt, List.length_pos_iff_exists_mem]
      push Not at known
      obtain ⟨p, isNew, isUnknown⟩ := known
      exact ⟨p, List.mem_filter.mpr ⟨isNew, by simpa using isUnknown⟩⟩
    rw [augment_eq unknown, or_iff_right known,
      ← isUnion_stored sorted strict]
    constructor
    · rintro ⟨augmented, result, union⟩
      dsimp only at result
      split at result
      · cases result
      · split at result
        · cases result
        · cases result
          simpa only [Function.update_self] using union
    · intro union
      have count := length_of_isUnion strict
        ((isUnion_stored sorted strict).mp union) union
      simp only [← count, Nat.lt_irrefl, if_false]
      refine ⟨_, rfl, ?_⟩
      simpa only [Function.update_self] using union

end Augmentation

/-- A program of one class. -/
def loneClass (basePos : Int) (old : List Int) : Program Unit where
  created := [()]
  directSuperclasses := fun _ => []
  classRcplVector := fun _ => []
  classRcplPosition := fun _ => basePos
  classRcplOtherPositions := fun _ => old
  instanceIep := fun _ => strategy basePos old

/-- The base position is left out before a larger old position. -/
theorem augment_makes_union_before_larger :
    ∃ augmented,
      augmentRcplPositionDataMultiple (loneClass 2 [4]) () [2, 3, 4, 5] =
        .ok augmented ∧
      IsUnion 2 [4] [2, 3, 4, 5] (augmented.classRcplOtherPositions ()) :=
  (@augment_makes_union_iff Unit (loneClass 2 [4]) () [2, 3, 4, 5] _
    (by decide) (by decide)).mpr (Or.inr ⟨by
      intro p _
      have distinct : ([2, 3, 4, 5] : List Int).Nodup := by decide
      exact List.nodup_iff_count_le_one.mp distinct p,
      fun _ => Or.inl ⟨4, by decide⟩⟩)

/-- Once the old positions are used up, the base position is stored as well,
and the last store is outside the vector. -/
theorem augment_stores_base_position :
    ((loneClass 2 []).classRcplOtherPositions ()).Pairwise (· < ·) ∧
      [2, 3].Pairwise (fun one other : Int => one ≤ other) ∧
      augmentRcplPositionDataMultiple (loneClass 2 []) () [2, 3] =
        .error (.outside 1) := by
  refine ⟨by decide, by decide, ?_⟩
  rw [augment_eq (by decide)]
  simp [loneClass, stored, countUnknown, rcplPositionKnown]

end OpenDylan.Runtime.PositionAugmentation
