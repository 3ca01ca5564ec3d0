import OpenDylan.Runtime.ObjectLock
import Mathlib.Data.List.Perm.Subperm

/-!
# Splicing the lock list

Specifications of the loops over `*object-lock-data*`.  `Records data pairs`
says which pairs the list consists of.  `multiple-objects-locked?` compares
the requested object with the recorded cell itself instead of with the head of
the cell, so it never finds a conflict and a begin step always completes;
completing puts a spine in front of the list, and ending a lock takes a spine
out again.
-/

namespace OpenDylan.Runtime.ObjectLock

open OpenDylan.Lib.Chain

variable {Object Token : Type}

/-! ## The recorded list -/

/-- `*object-lock-data*` is the chain of `pairs`, all allocated and distinct. -/
structure Records (data : LockData Object Token) (pairs : List Nat) :
    Prop where
  chain : Segment data.tail data.objectLockData pairs none
  distinct : pairs.Nodup
  bounded : ∀ pair ∈ pairs, pair < data.allocated

theorem length_le_of_bounded {pairs : List Nat} {bound : Nat}
    (distinct : pairs.Nodup) (bounded : ∀ pair ∈ pairs, pair < bound) :
    pairs.length ≤ bound := by
  have within : pairs ⊆ List.range bound := fun pair member =>
    List.mem_range.mpr (bounded pair member)
  simpa using (distinct.subperm within).length_le

theorem Records.length_le {data : LockData Object Token} {pairs : List Nat}
    (records : Records data pairs) : pairs.length ≤ data.allocated :=
  length_le_of_bounded records.distinct records.bounded

theorem Records.recordedPairs_eq {data : LockData Object Token}
    {pairs : List Nat} (records : Records data pairs) :
    data.recordedPairs = pairs :=
  walk_of_segment records.chain records.length_le

/-! ## Beginning to lock -/

/-- Mark the cells of `pairs` as belonging to `token`. -/
def markedHead (head : Nat → LockCell Object Token) (token : Token)
    (pairs : List Nat) (pair : Nat) : LockCell Object Token :=
  if pair ∈ pairs then ⟨(head pair).object, some token⟩ else head pair

@[simp]
theorem markedHead_object (head : Nat → LockCell Object Token)
    (token : Token) (pairs : List Nat) (pair : Nat) :
    (markedHead head token pairs pair).object = (head pair).object := by
  unfold markedHead
  split <;> rfl

theorem markedHead_cons (head : Nat → LockCell Object Token)
    (token : Token) (pair : Nat) (pairs : List Nat) :
    markedHead
        (Function.update head pair ⟨(head pair).object, some token⟩)
        token pairs =
      markedHead head token (pair :: pairs) := by
  funext other
  by_cases same : other = pair
  · subst other
    simp [markedHead]
  · simp [markedHead, same]

theorem markCells_eq {data : LockData Object Token} {token : Token}
    {start : Option Nat} {pairs : List Nat} {fuel : Nat}
    (chain : Segment data.tail start pairs none)
    (enough : pairs.length < fuel) :
    markCells data token fuel start =
      some { data with head := markedHead data.head token pairs } := by
  induction pairs generalizing start fuel data with
  | nil =>
      rw [segment_nil] at chain
      subst chain
      obtain ⟨fuel, rfl⟩ := Nat.exists_eq_add_of_lt enough
      have same : markedHead data.head token [] = data.head := by
        funext pair
        simp [markedHead]
      simp [markCells, same]
  | cons pair pairs ih =>
      obtain ⟨rfl, rest⟩ := chain
      cases fuel with
      | zero => simp at enough
      | succ fuel =>
          have smaller : pairs.length < fuel := by simpa using enough
          rw [markCells, ← markedHead_cons]
          exact ih rest smaller

/-- The lock data after a completed begin step. -/
def spliced (data : LockData Object Token) (pairs : List Nat)
    (hd tl : Nat) (token : Token) : LockData Object Token :=
  { data with
    head := markedHead data.head token pairs
    tail := Function.update data.tail tl data.objectLockData
    objectLockData := some hd }

theorem Records.splice {data : LockData Object Token} {token : Token}
    {hd tl : Nat} {front recorded : List Nat}
    (records : Records data recorded)
    (chain : Segment data.tail (some hd) (front ++ [tl]) none)
    (distinct : (front ++ [tl] ++ recorded).Nodup)
    (bounded : ∀ pair ∈ front ++ [tl], pair < data.allocated) :
    Records (spliced data (front ++ [tl]) hd tl token)
      (front ++ [tl] ++ recorded) := by
  have parts := List.nodup_append.mp distinct
  have last : tl ∉ front := fun member =>
    (List.nodup_append.mp parts.1).2.2 tl member tl (by simp) rfl
  have away : tl ∉ recorded := fun member =>
    parts.2.2 tl (by simp) tl member rfl
  refine ⟨segment_append.mpr ⟨data.objectLockData, ?_, ?_⟩, distinct, ?_⟩
  · exact segment_update_last chain last
  · exact (segment_update_of_notMem away).mpr records.chain
  · intro pair member
    rcases List.mem_append.mp member with own | old
    · exact bounded pair own
    · exact records.bounded pair old

section Requests

variable [DecidableEq Object] [DecidableEq Token]

/-- No object is identical to a cell, so `checklock` never finds anything. -/
theorem checklock_eq_notListed {data : LockData Object Token}
    {object : Object} {token : Token} {start : Option Nat}
    {pairs : List Nat} {fuel : Nat}
    (chain : Segment data.tail start pairs none)
    (enough : pairs.length < fuel) :
    checklock data object token fuel start = some .notListed := by
  induction pairs generalizing start fuel with
  | nil =>
      rw [segment_nil] at chain
      subst chain
      obtain ⟨fuel, rfl⟩ := Nat.exists_eq_add_of_lt enough
      simp [checklock]
  | cons pair pairs ih =>
      obtain ⟨rfl, rest⟩ := chain
      cases fuel with
      | zero => simp at enough
      | succ fuel =>
          have smaller : pairs.length < fuel := by simpa using enough
          simpa [checklock, pointerId] using ih rest smaller

theorem peruse_eq_unlocked {data : LockData Object Token} {token : Token}
    {start : Option Nat} {pairs recorded : List Nat} {fuel : Nat}
    (records : Records data recorded)
    (chain : Segment data.tail start pairs none)
    (enough : pairs.length < fuel) :
    peruse data token fuel start [] = some .unlocked := by
  induction pairs generalizing start fuel with
  | nil =>
      rw [segment_nil] at chain
      subst chain
      obtain ⟨fuel, rfl⟩ := Nat.exists_eq_add_of_lt enough
      simp [peruse]
  | cons pair pairs ih =>
      obtain ⟨rfl, rest⟩ := chain
      cases fuel with
      | zero => simp at enough
      | succ fuel =>
          have smaller : pairs.length < fuel := by simpa using enough
          have found : checklock data (data.head pair).object token
              (data.allocated + 1) data.objectLockData = some .notListed :=
            checklock_eq_notListed records.chain
              (Nat.lt_succ_of_le records.length_le)
          simpa [peruse, found] using ih rest smaller

theorem multipleObjectsLocked_eq_unlocked {data : LockData Object Token}
    {token : Token} {cells : Nat} {pairs recorded : List Nat}
    (records : Records data recorded)
    (chain : Segment data.tail (some cells) pairs none)
    (enough : pairs.length ≤ data.allocated) :
    multipleObjectsLocked data cells token = some .unlocked := by
  unfold multipleObjectsLocked
  split
  · rfl
  · exact peruse_eq_unlocked records chain (Nat.lt_succ_of_le enough)

/-- A begin step never waits and never reports a recursive lock. -/
theorem beginLocking_completes {data : LockData Object Token}
    {token : Token} {hd tl : Nat} {pairs recorded : List Nat}
    (records : Records data recorded)
    (chain : Segment data.tail (some hd) pairs none)
    (enough : pairs.length ≤ data.allocated) :
    beginLockingMultipleObjects data hd tl token =
      some (.completed (spliced data pairs hd tl token)) := by
  simp only [beginLockingMultipleObjects,
    multipleObjectsLocked_eq_unlocked records chain enough,
    markCells_eq chain (Nat.lt_succ_of_le enough)]
  rfl

end Requests

/-! ## Ending a lock -/

/-- The lock data agree except for links inside `pairs` and the list head. -/
structure Unspliced (before after : LockData Object Token)
    (pairs : List Nat) : Prop where
  head : after.head = before.head
  allocated : after.allocated = before.allocated
  tail : ∀ pair ∉ pairs, after.tail pair = before.tail pair

theorem sigh_finds {data : LockData Object Token}
    {cell previous last : Nat} {between init back : List Nat} {fuel : Nat}
    (chain : Segment data.tail (some previous)
      (previous :: between ++ cell :: back) none)
    (distinct : (previous :: between ++ cell :: back).Nodup)
    (split : previous :: between = init ++ [last])
    (enough : between.length < fuel) :
    sigh data cell fuel previous (data.tail previous) =
      some { data with
        tail := Function.update data.tail last (data.tail cell) } := by
  induction between generalizing previous init fuel with
  | nil =>
      obtain ⟨-, link, -⟩ := chain
      obtain ⟨fuel, rfl⟩ := Nat.exists_eq_add_of_lt enough
      have single : previous = last := by
        have ends := congrArg List.getLast? split
        simpa using ends
      subst single
      simp [sigh, link]
  | cons pair between ih =>
      obtain ⟨-, link, after⟩ := chain
      obtain ⟨init, rfl⟩ : ∃ rest, init = previous :: rest := by
        cases init with
        | nil => simp at split
        | cons head rest =>
            rw [List.cons_append, List.cons.injEq] at split
            exact ⟨rest, by rw [split.1]⟩
      have tailDistinct := (List.nodup_cons.mp distinct).2
      have different : pair ≠ cell := fun same =>
        (List.nodup_cons.mp tailDistinct).1 (by simp [same])
      cases fuel with
      | zero => simp at enough
      | succ fuel =>
          have smaller : between.length < fuel := by simpa using enough
          rw [link]
          simp only [sigh, different, if_false]
          exact ih ⟨rfl, after⟩ tailDistinct (by simpa using split) smaller

theorem sigh_misses {data : LockData Object Token} {cell previous : Nat}
    {pairs : List Nat} {fuel : Nat} {start : Option Nat}
    (chain : Segment data.tail start pairs none)
    (missing : cell ∉ pairs) (enough : pairs.length < fuel) :
    sigh data cell fuel previous start = some data := by
  induction pairs generalizing previous start fuel with
  | nil =>
      rw [segment_nil] at chain
      subst chain
      obtain ⟨fuel, rfl⟩ := Nat.exists_eq_add_of_lt enough
      simp [sigh]
  | cons pair pairs ih =>
      obtain ⟨rfl, rest⟩ := chain
      rw [List.mem_cons, not_or] at missing
      cases fuel with
      | zero => simp at enough
      | succ fuel =>
          have smaller : pairs.length < fuel := by simpa using enough
          simp only [sigh, Ne.symm missing.1, if_false]
          exact ih rest missing.2 smaller

/-- A cell that was never spliced in leaves the list alone. -/
theorem endLockingObjectCell_absent {data : LockData Object Token}
    {cell : Nat} {recorded : List Nat} (records : Records data recorded)
    (missing : cell ∉ recorded) :
    endLockingObjectCell data cell = some data := by
  have short := records.length_le
  unfold endLockingObjectCell
  cases recorded with
  | nil =>
      have empty : data.objectLockData = none := records.chain
      simp [empty]
  | cons first rest =>
      obtain ⟨start, chain⟩ := records.chain
      rw [List.mem_cons, not_or] at missing
      rw [List.length_cons] at short
      rw [start]
      simp only [Option.some.injEq, missing.1, if_false]
      exact sigh_misses chain missing.2 (by omega)

/-- A recorded cell is taken out, and the other cells keep their order. -/
theorem endLockingObjectCell_present {data : LockData Object Token}
    {cell : Nat} {front back : List Nat}
    (records : Records data (front ++ cell :: back)) :
    ∃ after, endLockingObjectCell data cell = some after ∧
      Records after (front ++ back) ∧ Unspliced data after front := by
  have distinct : (front ++ back).Nodup :=
    (List.nodup_middle.mp records.distinct).of_cons
  have bounded : ∀ pair ∈ front ++ back, pair < data.allocated := by
    intro pair member
    apply records.bounded pair
    rcases List.mem_append.mp member with before | after
    · exact List.mem_append_left _ before
    · exact List.mem_append_right _ (List.mem_cons_of_mem _ after)
  have short := records.length_le
  unfold endLockingObjectCell
  cases front with
  | nil =>
      obtain ⟨start, chain⟩ := records.chain
      refine ⟨{ data with objectLockData := data.tail cell }, ?_,
        ⟨chain, distinct, bounded⟩, ⟨rfl, rfl, fun _ _ => rfl⟩⟩
      simp [start]
  | cons first between =>
      obtain ⟨start, chain⟩ := records.chain
      have different : cell ≠ first := by
        intro same
        have := (List.nodup_cons.mp records.distinct).1
        simp [same] at this
      rw [start]
      simp only [Option.some.injEq, different, if_false]
      simp only [List.cons_append, List.length_cons, List.length_append]
        at short
      obtain ⟨init, last, split⟩ :
          ∃ init last, first :: between = init ++ [last] :=
        ⟨_, _, (List.dropLast_append_getLast (by simp)).symm⟩
      have reachable : Segment data.tail (some first)
          (first :: between ++ cell :: back) none := ⟨rfl, chain⟩
      rw [sigh_finds reachable records.distinct split (by omega)]
      refine ⟨_, rfl, ⟨?_, distinct, bounded⟩, ⟨rfl, rfl, ?_⟩⟩
      · have whole := records.chain
        have wholeDistinct := records.distinct
        rw [split] at whole wholeDistinct ⊢
        simp only [List.append_assoc, List.singleton_append]
          at whole wholeDistinct ⊢
        exact segment_unlink whole wholeDistinct
      · intro pair away
        apply Function.update_of_ne
        intro same
        rw [split] at away
        exact away (by simp [same])

/-- Ending a request that was never recorded changes nothing. -/
theorem endLockingMultipleObjects_absent {data : LockData Object Token}
    {tl cell : Nat} {front recorded : List Nat} {fuel : Nat}
    (records : Records data recorded)
    (chain : Segment data.tail (some cell) (front ++ [tl]) none)
    (last : tl ∉ front)
    (missing : ∀ pair ∈ front ++ [tl], pair ∉ recorded)
    (enough : front.length < fuel) :
    endLockingMultipleObjects tl fuel data cell = some data := by
  induction front generalizing cell fuel with
  | nil =>
      obtain ⟨fuel, rfl⟩ := Nat.exists_eq_add_of_lt enough
      have same : cell = tl := by simpa using chain.1
      subst same
      simp [endLockingMultipleObjects,
        endLockingObjectCell_absent records (missing cell (by simp))]
  | cons pair front ih =>
      obtain ⟨same, rest⟩ := chain
      have here : cell = pair := by simpa using same
      subst here
      rw [List.mem_cons, not_or] at last
      have removed := endLockingObjectCell_absent records
        (missing cell (by simp))
      obtain ⟨next, link⟩ : ∃ next, data.tail cell = some next := by
        cases front with
        | nil => exact ⟨_, rest.1⟩
        | cons next front => exact ⟨_, rest.1⟩
      cases fuel with
      | zero => simp at enough
      | succ fuel =>
          have smaller : front.length < fuel := by simpa using enough
          simp only [endLockingMultipleObjects, removed, link,
            Ne.symm last.1, if_false]
          rw [link] at rest
          exact ih rest last.2
            (fun pair member => missing pair (List.mem_cons_of_mem _ member))
            smaller

/-- Ending a recorded request takes its spine out of the list. -/
theorem endLockingMultipleObjects_present {data : LockData Object Token}
    {tl cell : Nat} {spine front back : List Nat} {fuel : Nat}
    (records : Records data (front ++ (spine ++ [tl]) ++ back))
    (start : (spine ++ [tl]).head? = some cell)
    (enough : spine.length < fuel) :
    ∃ after, endLockingMultipleObjects tl fuel data cell = some after ∧
      Records after (front ++ back) ∧ Unspliced data after front := by
  induction spine generalizing cell fuel data with
  | nil =>
      obtain ⟨fuel, rfl⟩ := Nat.exists_eq_add_of_lt enough
      have same : tl = cell := by simpa using start
      subst same
      have recorded : Records data (front ++ tl :: back) := by
        simpa using records
      obtain ⟨after, removed, rest, frame⟩ :=
        endLockingObjectCell_present recorded
      exact ⟨after, by simp [endLockingMultipleObjects, removed],
        rest, frame⟩
  | cons pair spine ih =>
      have same : pair = cell := by simpa using start
      subst same
      have different : pair ≠ tl := by
        intro same
        have distinct := (List.nodup_append.mp
          (List.nodup_append.mp records.distinct).1).2.1
        simp [same] at distinct
      have shape : front ++ (pair :: spine ++ [tl]) ++ back =
          front ++ pair :: (spine ++ [tl] ++ back) := by simp
      rw [shape] at records
      obtain ⟨after, removed, rest, frame⟩ :=
        endLockingObjectCell_present records
      have away : pair ∉ front := fun member =>
        (List.nodup_append.mp records.distinct).2.2 pair member pair
          (by simp) rfl
      obtain ⟨next, first⟩ : ∃ next, (spine ++ [tl]).head? = some next := by
        cases spine with
        | nil => exact ⟨_, rfl⟩
        | cons next spine => exact ⟨_, rfl⟩
      have link : after.tail pair = some next := by
        rw [frame.tail pair away]
        obtain ⟨middle, -, -, tailChain⟩ := segment_append.mp records.chain
        cases spine with
        | nil =>
            have : tl = next := by simpa using first
            subst this
            exact tailChain.1
        | cons other spine =>
            have : other = next := by simpa using first
            subst this
            exact tailChain.1
      cases fuel with
      | zero => simp at enough
      | succ fuel =>
          have smaller : spine.length < fuel := by simpa using enough
          have kept : Records after (front ++ (spine ++ [tl]) ++ back) := by
            simpa using rest
          obtain ⟨final, ended, records', frame'⟩ :=
            ih kept first smaller
          refine ⟨final, ?_, records', ?_, ?_, ?_⟩
          · simp only [endLockingMultipleObjects, removed, link, different,
              if_false]
            exact ended
          · rw [frame'.head, frame.head]
          · rw [frame'.allocated, frame.allocated]
          · intro other outside
            rw [frame'.tail other outside, frame.tail other outside]

end OpenDylan.Runtime.ObjectLock
