import OpenDylan.Lib.Runs
import Mathlib

/-!
# The optimization queue

The items of a queue have a status, which says whether they are in the queue or
dead.  Items that die stay in the vector until they come to its end, where the
queue is popped.
-/

namespace OpenDylan.Compiler.OptimizationQueue

open OpenDylan.Lib

/-- `item-status` -/
inductive Status where
  | absent
  | present
  | dead
deriving DecidableEq

/-- The vector of a queue, the status of the items, and for each `do-queue`
that is under way the index of its iteration and the limit. -/
structure Queue (Item : Type) where
  queue : List Item
  status : Item → Status
  iterations : List (Nat × Nat)

variable {Item : Type}

/-- A queue before anything has been added; all items are absent. -/
def Queue.new : Queue Item where
  queue := []
  status _ := .absent
  iterations := []

/-! ## Operations -/

/-- `item-status-setter` -/
def Queue.setStatus [DecidableEq Item] (queue : Queue Item) (item : Item)
    (status : Status) : Queue Item :=
  { queue with status := Function.update queue.status item status }

/-- `mark-as-dead` -/
def markAsDead [DecidableEq Item] (item : Item) (queue : Queue Item) :
    Queue Item :=
  queue.setStatus item .dead

/-- `queue-pop!` -/
def queuePopLast [DecidableEq Item] (queue : Queue Item) :
    Queue Item × Option Item :=
  match queue.queue.getLast? with
  | none => (queue, none)
  | some elt =>
      let queue := queue.setStatus elt .absent
      ({ queue with queue := queue.queue.dropLast }, some elt)

/-- `queue-push!` -/
def queuePush (item : Item) (queue : Queue Item) : Queue Item :=
  { queue with queue := queue.queue ++ [item] }

/-- `add-to-queue!` -/
def addToQueue [DecidableEq Item] (item : Item) (queue : Queue Item) :
    Queue Item :=
  if queue.status item = .absent then
    queuePush item (queue.setStatus item .present)
  else
    queue

/-- The loop of `pop-dead!`, with the number of items up to the one it
looks at. -/
def popDeadLoop (status : Item → Status) :
    Nat → List Item → List Item × Option Item
  | 0, queue => (queue, none)
  | i + 1, queue =>
      match queue[i]? with
      | none => (queue, none)
      | some item =>
          if status item = .dead then popDeadLoop status i (queue.take i)
          else (queue, some item)

/-- `pop-dead!` -/
def popDead (queue : Queue Item) : Queue Item × Option Item :=
  let (items, item) :=
    popDeadLoop queue.status queue.queue.length queue.queue
  ({ queue with queue := items }, item)

/-- `queue-head` -/
def queueHead (queue : Queue Item) : Queue Item × Option Item :=
  popDead queue

/-- `queue-pop` -/
def queuePop [DecidableEq Item] (queue : Queue Item) :
    Queue Item × Option Item :=
  match popDead queue with
  | (queue, none) => (queue, none)
  | (queue, some item) => queuePopLast (queue.setStatus item .absent)

/-- `reverse-queue!` -/
def reverseQueue (queue : Queue Item) : Queue Item :=
  let queue := (popDead queue).1
  (popDead { queue with queue := queue.queue.reverse }).1

/-! ## Iterating over a queue -/

/-- What the operations do and yield. -/
inductive Event (Item : Type) where
  | added (item : Item)
  | marked (item : Item)
  | headed (item : Option Item)
  | popped (item : Option Item)
  | reversed
  | entered
  | passed (item : Item)
  | skipped (item : Item)
  | left
deriving DecidableEq

/-- The beginning of `do-queue`: the limit of the iteration is the size of the
vector. -/
def beginDoQueue (queue : Queue Item) : Queue Item :=
  let queue := (popDead queue).1
  { queue with iterations := (0, queue.queue.length) :: queue.iterations }

/-- The next step of the `do-queue` that was begun last.  The function may
have worked on the queue before; it is an error if the vector has become
shorter than the index. -/
def continueDoQueue (queue : Queue Item) :
    Option (Event Item × Queue Item) :=
  match queue.iterations with
  | [] => none
  | (index, limit) :: iterations =>
      if index < limit then
        match queue.queue[index]? with
        | none => none
        | some item =>
            let queue :=
              { queue with iterations := (index + 1, limit) :: iterations }
            if queue.status item = .dead then some (.skipped item, queue)
            else some (.passed item, queue)
      else
        some (.left, { queue with iterations := iterations })

/-- One step of a run over one queue; the function of a `do-queue` may do
anything between two items. -/
inductive Step [DecidableEq Item] :
    Queue Item → Event Item → Queue Item → Prop where
  | add (queue : Queue Item) (item : Item) :
      Step queue (.added item) (addToQueue item queue)
  | mark (queue : Queue Item) (item : Item) :
      Step queue (.marked item) (markAsDead item queue)
  | head (queue : Queue Item) :
      Step queue (.headed (queueHead queue).2) (queueHead queue).1
  | pop (queue : Queue Item) :
      Step queue (.popped (queuePop queue).2) (queuePop queue).1
  | reverse (queue : Queue Item) :
      Step queue .reversed (reverseQueue queue)
  | enter (queue : Queue Item) :
      Step queue .entered (beginDoQueue queue)
  | advance {queue later : Queue Item} {event : Event Item}
      (continued : continueDoQueue queue = some (event, later)) :
      Step queue event later

end OpenDylan.Compiler.OptimizationQueue

/-!
# Runs over the optimization queue

What a step does to a queue is said once: which items come, which stay, and how
the statuses change.  The invariant and all that holds of the events of a run
follow from it.
-/

namespace OpenDylan.Compiler.OptimizationQueue

open OpenDylan.Lib

variable {Item : Type}

/-! ## Popping dead items -/

/-- What `pop-dead!` leaves. -/
structure Popped (status : Item → Status) (before after : List Item)
    (result : Option Item) : Prop where
  dropped : ∃ rest, before = after ++ rest ∧
    ∀ item ∈ rest, status item = .dead
  found : ∀ item, result = some item →
    after.getLast? = some item ∧ status item ≠ .dead
  empty : result = none → after = []

theorem popDeadLoop_popped (status : Item → Status) (queue : List Item) :
    Popped status queue (popDeadLoop status queue.length queue).1
      (popDeadLoop status queue.length queue).2 := by
  induction queue using List.reverseRecOn with
  | nil =>
      constructor
      · exact ⟨[], rfl, fun item inNil => nomatch inNil⟩
      · intro item found
        cases found
      · intro _
        rfl
  | append_singleton queue item ih =>
      have last : (queue ++ [item])[queue.length]? = some item := by
        rw [List.getElem?_append_right (Nat.le_refl _), Nat.sub_self]
        rfl
      rw [List.length_append]
      show Popped status (queue ++ [item])
        (popDeadLoop status (queue.length + 1) (queue ++ [item])).1
        (popDeadLoop status (queue.length + 1) (queue ++ [item])).2
      unfold popDeadLoop
      rw [last]
      by_cases isDead : status item = .dead
      · simp only [if_pos isDead, List.take_left]
        obtain ⟨rest, split, allDead⟩ := ih.dropped
        constructor
        · refine ⟨rest ++ [item], ?_, ?_⟩
          · rw [← List.append_assoc, ← split]
          · intro other inRest
            rcases List.mem_append.1 inRest with inRest | isLast
            · exact allDead other inRest
            · rw [List.mem_singleton.1 isLast]
              exact isDead
        · exact ih.found
        · exact ih.empty
      · simp only [if_neg isDead]
        constructor
        · refine ⟨[], (List.append_nil _).symm, fun item inNil => ?_⟩
          cases inNil
        · intro other found
          cases found
          exact ⟨List.getLast?_concat, isDead⟩
        · intro isNone
          cases isNone

/-- The frame and the effect of `pop-dead!`. -/
theorem popDead_popped (queue : Queue Item) :
    Popped queue.status queue.queue (popDead queue).1.queue
        (popDead queue).2 ∧
      (popDead queue).1.status = queue.status ∧
      (popDead queue).1.iterations = queue.iterations :=
  ⟨popDeadLoop_popped queue.status queue.queue, rfl, rfl⟩

section Popped

variable {status : Item → Status} {before after : List Item}
  {result : Option Item}

theorem Popped.nodup (popped : Popped status before after result)
    (nodup : before.Nodup) : after.Nodup := by
  obtain ⟨rest, split, -⟩ := popped.dropped
  rw [split] at nodup
  exact (List.nodup_append.1 nodup).1

theorem Popped.comes (popped : Popped status before after result)
    {item : Item} (isAfter : item ∈ after) : item ∈ before := by
  obtain ⟨rest, split, -⟩ := popped.dropped
  rw [split]
  exact List.mem_append_left rest isAfter

theorem Popped.stays (popped : Popped status before after result)
    {item : Item} (isBefore : item ∈ before) (alive : status item ≠ .dead) :
    item ∈ after := by
  obtain ⟨rest, split, allDead⟩ := popped.dropped
  rw [split] at isBefore
  rcases List.mem_append.1 isBefore with isAfter | inRest
  · exact isAfter
  · exact absurd (allDead item inRest) alive

end Popped

/-! ## What a step does -/

variable [DecidableEq Item]

/-- The status of an item after an event. -/
def statusAfter (status : Item → Status) (event : Event Item) (item : Item) :
    Status :=
  if event = .marked item then .dead
  else if event = .popped (some item) then .absent
  else if event = .added item ∧ status item = .absent then .present
  else status item

/-- The effect of a step. -/
structure Moves (before : Queue Item) (event : Event Item)
    (after : Queue Item) : Prop where
  nodup : before.queue.Nodup →
    (∀ item ∈ before.queue, before.status item ≠ .absent) →
      after.queue.Nodup
  status : ∀ item, after.status item = statusAfter before.status event item
  comes : ∀ item ∈ after.queue, item ∈ before.queue ∨
    (event = .added item ∧ before.status item = .absent)
  stays : ∀ item ∈ before.queue, before.status item ≠ .dead →
    event ≠ .popped (some item) → item ∈ after.queue
  added : ∀ item, event = .added item → before.status item = .absent →
    item ∈ after.queue
  popped : ∀ item, event = .popped (some item) →
    before.status item ≠ .dead ∧ (before.queue.Nodup → item ∉ after.queue)
  passed : ∀ item, event = .passed item → before.status item ≠ .dead

/-- A step that leaves the statuses and all items that are not dead. -/
theorem Moves.quiet {before after : Queue Item} {event : Event Item}
    (noAdd : ∀ item, event ≠ .added item)
    (noMark : ∀ item, event ≠ .marked item)
    (noPop : ∀ item, event ≠ .popped (some item))
    (status : after.status = before.status)
    (nodup : before.queue.Nodup → after.queue.Nodup)
    (comes : ∀ item ∈ after.queue, item ∈ before.queue)
    (stays : ∀ item ∈ before.queue, before.status item ≠ .dead →
      item ∈ after.queue)
    (passed : ∀ item, event = .passed item → before.status item ≠ .dead) :
    Moves before event after where
  nodup isNodup _ := nodup isNodup
  status item := by
    unfold statusAfter
    rw [if_neg (noMark item), if_neg (noPop item),
      if_neg fun both => noAdd item both.1, status]
  comes item isAfter := .inl (comes item isAfter)
  stays item isBefore alive _ := stays item isBefore alive
  added item isAdded := absurd isAdded (noAdd item)
  popped item isPopped := absurd isPopped (noPop item)
  passed := passed

theorem addToQueue_moves (queue : Queue Item) (item : Item) :
    Moves queue (.added item) (addToQueue item queue) := by
  by_cases absent : queue.status item = .absent
  · have eq : addToQueue item queue =
        { queue with
          queue := queue.queue ++ [item]
          status := Function.update queue.status item .present } := by
      unfold addToQueue
      rw [if_pos absent]
      rfl
    rw [eq]
    constructor
    · intro nodup known
      apply List.Nodup.append nodup (List.nodup_singleton item)
      intro other isOther isItem
      rw [List.mem_singleton.1 isItem] at isOther
      exact known item isOther absent
    · intro other
      unfold statusAfter
      rw [if_neg (fun same => nomatch same),
        if_neg (fun same => nomatch same)]
      by_cases same : other = item
      · rw [same, if_pos ⟨rfl, absent⟩]
        exact Function.update_self item _ queue.status
      · rw [if_neg fun both => same (Event.added.inj both.1).symm]
        exact Function.update_of_ne same _ queue.status
    · intro other isAfter
      rcases List.mem_append.1 isAfter with isBefore | isItem
      · exact .inl isBefore
      · rw [List.mem_singleton.1 isItem]
        exact .inr ⟨rfl, absent⟩
    · intro other isBefore _ _
      exact List.mem_append_left [item] isBefore
    · intro other isAdded _
      rw [← Event.added.inj isAdded]
      exact List.mem_append_right queue.queue List.mem_cons_self
    · intro other isPopped
      cases isPopped
    · intro other isPassed
      cases isPassed
  · have eq : addToQueue item queue = queue := if_neg absent
    rw [eq]
    constructor
    · intro nodup _
      exact nodup
    · intro other
      unfold statusAfter
      rw [if_neg (fun same => nomatch same),
        if_neg (fun same => nomatch same), if_neg]
      rintro ⟨same, isAbsent⟩
      rw [← Event.added.inj same] at isAbsent
      exact absent isAbsent
    · intro other isAfter
      exact .inl isAfter
    · intro other isBefore _ _
      exact isBefore
    · intro other same isAbsent
      rw [← Event.added.inj same] at isAbsent
      exact absurd isAbsent absent
    · intro other isPopped
      cases isPopped
    · intro other isPassed
      cases isPassed

theorem markAsDead_moves (queue : Queue Item) (item : Item) :
    Moves queue (.marked item) (markAsDead item queue) := by
  constructor
  · intro nodup _
    exact nodup
  · intro other
    unfold statusAfter
    by_cases same : other = item
    · rw [same, if_pos rfl]
      exact Function.update_self item _ queue.status
    · rw [if_neg fun equal => same (Event.marked.inj equal).symm,
        if_neg (fun equal => nomatch equal),
        if_neg (fun both => nomatch both.1)]
      exact Function.update_of_ne same _ queue.status
  · intro other isAfter
    exact .inl isAfter
  · intro other isBefore _ _
    exact isBefore
  · intro other isAdded
    cases isAdded
  · intro other isPopped
    cases isPopped
  · intro other isPassed
    cases isPassed

theorem queueHead_moves (queue : Queue Item) :
    Moves queue (.headed (queueHead queue).2) (queueHead queue).1 := by
  obtain ⟨popped, status, -⟩ := popDead_popped queue
  apply Moves.quiet
  · intro item same
    cases same
  · intro item same
    cases same
  · intro item same
    cases same
  · exact status
  · exact popped.nodup
  · intro item isAfter
    exact popped.comes isAfter
  · intro item isBefore alive
    exact popped.stays isBefore alive
  · intro item same
    cases same

/-- The vector without the dead items, reversed and popped again. -/
theorem reverseQueue_moves (queue : Queue Item) :
    Moves queue .reversed (reverseQueue queue) := by
  obtain ⟨first, status, -⟩ := popDead_popped queue
  obtain ⟨second, secondStatus, -⟩ := popDead_popped
    { (popDead queue).1 with queue := (popDead queue).1.queue.reverse }
  apply Moves.quiet
  · intro item same
    cases same
  · intro item same
    cases same
  · intro item same
    cases same
  · exact secondStatus.trans status
  · intro nodup
    exact second.nodup (List.nodup_reverse.2 (first.nodup nodup))
  · intro item isAfter
    exact first.comes (List.mem_reverse.1 (second.comes isAfter))
  · intro item isBefore alive
    apply second.stays (List.mem_reverse.2 (first.stays isBefore alive))
    exact alive
  · intro item same
    cases same

theorem beginDoQueue_moves (queue : Queue Item) :
    Moves queue .entered (beginDoQueue queue) := by
  obtain ⟨popped, status, -⟩ := popDead_popped queue
  apply Moves.quiet
  · intro item same
    cases same
  · intro item same
    cases same
  · intro item same
    cases same
  · exact status
  · exact popped.nodup
  · intro item isAfter
    exact popped.comes isAfter
  · intro item isBefore alive
    exact popped.stays isBefore alive
  · intro item same
    cases same

theorem queuePop_none {queue : Queue Item}
    (empty : (popDead queue).2 = none) :
    queuePop queue = ((popDead queue).1, none) := by
  unfold queuePop
  split
  · rename_i later same
    rw [same]
  · rename_i later item same
    rw [same] at empty
    cases empty

/-- The item that is popped is the last one that is not dead. -/
theorem queuePop_some {queue : Queue Item} {item : Item}
    (found : (popDead queue).2 = some item) :
    ∃ front, (popDead queue).1.queue = front ++ [item] ∧
      queuePop queue =
        ({ (popDead queue).1 with
            queue := front
            status := Function.update queue.status item .absent },
          some item) := by
  obtain ⟨popped, status, -⟩ := popDead_popped queue
  obtain ⟨last, -⟩ := popped.found item found
  obtain ⟨front, split⟩ := List.getLast?_eq_some_iff.1 last
  refine ⟨front, split, ?_⟩
  unfold queuePop
  split
  · rename_i later same
    rw [same] at found
    cases found
  · rename_i later other same
    rw [same] at found split status
    cases Option.some.inj found
    have isLast : (later.setStatus item .absent).queue.getLast? =
        some item := by
      show later.queue.getLast? = some item
      rw [split]
      exact List.getLast?_concat
    unfold queuePopLast
    rw [isLast]
    show ({ (later.setStatus item .absent).setStatus item .absent with
      queue := later.queue.dropLast }, some item) = _
    rw [split, List.dropLast_concat, same]
    unfold Queue.setStatus
    show (({ later with
      queue := front
      status := Function.update (Function.update later.status item .absent)
        item .absent } : Queue Item), some item) = _
    rw [Function.update_idem, status]

theorem queuePop_moves (queue : Queue Item) :
    Moves queue (.popped (queuePop queue).2) (queuePop queue).1 := by
  obtain ⟨popped, status, -⟩ := popDead_popped queue
  cases result : (popDead queue).2 with
  | none =>
      rw [queuePop_none result]
      apply Moves.quiet
      · intro item same
        cases same
      · intro item same
        cases same
      · intro item same
        cases same
      · exact status
      · exact popped.nodup
      · intro item isAfter
        exact popped.comes isAfter
      · intro item isBefore alive
        exact popped.stays isBefore alive
      · intro item same
        cases same
  | some item =>
      obtain ⟨front, split, pops⟩ := queuePop_some result
      have alive := (popped.found item result).2
      rw [pops]
      constructor
      · intro nodup _
        have kept := popped.nodup nodup
        rw [split] at kept
        exact (List.nodup_append.1 kept).1
      · intro other
        unfold statusAfter
        rw [if_neg (fun same => nomatch same)]
        by_cases same : other = item
        · rw [same, if_pos rfl]
          exact Function.update_self item _ queue.status
        · rw [if_neg fun equal =>
              same (Option.some.inj (Event.popped.inj equal)).symm,
            if_neg fun both => nomatch both.1]
          exact Function.update_of_ne same _ queue.status
      · intro other isAfter
        apply Or.inl (popped.comes _)
        rw [split]
        exact List.mem_append_left [item] isAfter
      · intro other isBefore otherAlive notPopped
        have kept := popped.stays isBefore otherAlive
        rw [split] at kept
        rcases List.mem_append.1 kept with inFront | isItem
        · exact inFront
        · rw [List.mem_singleton.1 isItem] at notPopped
          exact absurd rfl notPopped
      · intro other isAdded
        cases isAdded
      · intro other isPopped
        cases Option.some.inj (Event.popped.inj isPopped)
        refine ⟨alive, fun nodup inFront => ?_⟩
        have kept := popped.nodup nodup
        rw [split] at kept
        exact (List.nodup_append.1 kept).2.2 item inFront item
          List.mem_cons_self rfl
      · intro other isPassed
        cases isPassed

theorem continueDoQueue_moves {queue later : Queue Item} {event : Event Item}
    (continued : continueDoQueue queue = some (event, later)) :
    Moves queue event later := by
  have frame : later.queue = queue.queue ∧ later.status = queue.status ∧
      ((∃ item, event = .passed item ∧ queue.status item ≠ .dead) ∨
        (∃ item, event = .skipped item) ∨ event = .left) := by
    unfold continueDoQueue at continued
    split at continued
    · cases continued
    · split at continued
      · split at continued
        · cases continued
        · rename_i item _
          by_cases isDead : queue.status item = .dead
          · simp only [if_pos isDead] at continued
            cases continued
            exact ⟨rfl, rfl, .inr (.inl ⟨item, rfl⟩)⟩
          · simp only [if_neg isDead] at continued
            cases continued
            exact ⟨rfl, rfl, .inl ⟨item, rfl, isDead⟩⟩
      · cases continued
        exact ⟨rfl, rfl, .inr (.inr rfl)⟩
  obtain ⟨items, status, kind⟩ := frame
  apply Moves.quiet
  · rintro item isAdded
    rcases kind with ⟨other, same, -⟩ | ⟨other, same⟩ | same <;>
      cases same.symm.trans isAdded
  · rintro item isMarked
    rcases kind with ⟨other, same, -⟩ | ⟨other, same⟩ | same <;>
      cases same.symm.trans isMarked
  · rintro item isPopped
    rcases kind with ⟨other, same, -⟩ | ⟨other, same⟩ | same <;>
      cases same.symm.trans isPopped
  · exact status
  · rw [items]
    exact id
  · rw [items]
    exact fun item isAfter => isAfter
  · rw [items]
    exact fun item isBefore _ => isBefore
  · intro item isPassed
    rcases kind with ⟨other, same, alive⟩ | ⟨other, same⟩ | same
    · cases Event.passed.inj (same.symm.trans isPassed)
      exact alive
    · cases same.symm.trans isPassed
    · cases same.symm.trans isPassed

theorem Step.moves {queue later : Queue Item} {event : Event Item}
    (step : Step queue event later) : Moves queue event later := by
  cases step with
  | add item => exact addToQueue_moves queue item
  | mark item => exact markAsDead_moves queue item
  | head => exact queueHead_moves queue
  | pop => exact queuePop_moves queue
  | reverse => exact reverseQueue_moves queue
  | enter => exact beginDoQueue_moves queue
  | advance continued => exact continueDoQueue_moves continued

/-! ## The invariant -/

/-- The statuses say which items are in the queue. -/
structure Tracked (queue : Queue Item) : Prop where
  nodup : queue.queue.Nodup
  known : ∀ item ∈ queue.queue, queue.status item ≠ .absent
  present : ∀ item, queue.status item = .present → item ∈ queue.queue

omit [DecidableEq Item] in
theorem tracked_new : Tracked (Queue.new : Queue Item) := by
  constructor
  · exact List.nodup_nil
  · intro item inNil
    cases inNil
  · intro item isPresent
    cases isPresent

theorem Tracked.step {queue later : Queue Item} {event : Event Item}
    (tracked : Tracked queue) (step : Step queue event later) :
    Tracked later := by
  have moves := step.moves
  constructor
  · exact moves.nodup tracked.nodup tracked.known
  · intro item isAfter isAbsent
    rw [moves.status] at isAbsent
    unfold statusAfter at isAbsent
    split at isAbsent
    · cases isAbsent
    · split at isAbsent
      · rename_i isPopped
        exact (moves.popped item isPopped).2 tracked.nodup isAfter
      · split at isAbsent
        · cases isAbsent
        · rename_i notAdded
          rcases moves.comes item isAfter with isBefore | isAdded
          · exact tracked.known item isBefore isAbsent
          · exact notAdded isAdded
  · intro item isPresent
    rw [moves.status] at isPresent
    unfold statusAfter at isPresent
    split at isPresent
    · cases isPresent
    · split at isPresent
      · cases isPresent
      · rename_i notPopped
        split at isPresent
        · rename_i isAdded
          exact moves.added item isAdded.1 isAdded.2
        · apply moves.stays item (tracked.present item isPresent) _ notPopped
          rw [isPresent]
          intro isDead
          cases isDead

/-! ## Whole runs -/

/-- The dead items are those that have been marked. -/
def Recorded (past : List (Event Item)) (queue : Queue Item) : Prop :=
  ∀ item, queue.status item = .dead ↔ Event.marked item ∈ past

/-- What is known of a queue after some events. -/
structure Known (past : List (Event Item)) (queue : Queue Item) : Prop where
  tracked : Tracked queue
  recorded : Recorded past queue

theorem Known.step {past : List (Event Item)} {queue later : Queue Item}
    {event : Event Item} (known : Known past queue)
    (step : Step queue event later) : Known (past ++ [event]) later := by
  have moves := step.moves
  constructor
  · exact known.tracked.step step
  · intro item
    rw [moves.status, List.mem_append, List.mem_singleton]
    unfold statusAfter
    split
    · rename_i isMarked
      exact ⟨fun _ => .inr isMarked.symm, fun _ => rfl⟩
    · rename_i notMarked
      have recorded := known.recorded item
      have other : Event.marked item ≠ event := fun same =>
        notMarked same.symm
      split
      · rename_i isPopped
        have alive := (moves.popped item isPopped).1
        constructor
        · intro absent
          cases absent
        · rintro (isPast | same)
          · exact absurd (recorded.2 isPast) alive
          · exact absurd same other
      · split
        · rename_i isAdded
          constructor
          · intro present
            cases present
          · rintro (isPast | same)
            · have isDead := recorded.2 isPast
              rw [isAdded.2] at isDead
              cases isDead
            · exact absurd same other
        · rw [recorded]
          exact ⟨.inl, fun either => either.resolve_right other⟩

theorem known_of_run {past : List (Event Item)} {queue : Queue Item}
    (run : Run Step Queue.new past queue) : Known past queue := by
  have start : Known [] (Queue.new : Queue Item) := by
    constructor
    · exact tracked_new
    · intro item
      constructor
      · intro isDead
        cases isDead
      · intro isPast
        cases isPast
  exact run.history (fun known step => known.step step) start

/-- A dead item stays dead, and is not returned or passed. -/
theorem dead_step {queue later : Queue Item} {event : Event Item} {item : Item}
    (isDead : queue.status item = .dead) (step : Step queue event later) :
    (event ≠ .popped (some item) ∧ event ≠ .passed item) ∧
      later.status item = .dead := by
  have moves := step.moves
  have notPopped : event ≠ .popped (some item) := fun isPopped =>
    (moves.popped item isPopped).1 isDead
  have notPassed : event ≠ .passed item := fun isPassed =>
    moves.passed item isPassed isDead
  refine ⟨⟨notPopped, notPassed⟩, ?_⟩
  rw [moves.status]
  unfold statusAfter
  split
  · rfl
  · rw [if_neg, isDead]
    rintro ⟨-, absent⟩
    rw [isDead] at absent
    cases absent

/-- A dead item that is not in the vector does not come back. -/
theorem dead_gone {queue later : Queue Item} {event : Event Item} {item : Item}
    (gone : queue.status item = .dead ∧ item ∉ queue.queue)
    (step : Step queue event later) :
    later.status item = .dead ∧ item ∉ later.queue := by
  refine ⟨(dead_step gone.1 step).2, fun isAfter => ?_⟩
  rcases step.moves.comes item isAfter with isBefore | ⟨-, absent⟩
  · exact gone.2 isBefore
  · rw [gone.1] at absent
    cases absent

/-- An item in the queue stays there until it is popped or marked. -/
theorem present_step {queue later : Queue Item} {event : Event Item}
    {item : Item} (waits : item ∈ queue.queue ∧ queue.status item = .present)
    (quiet : event ≠ .marked item ∧ event ≠ .popped (some item))
    (step : Step queue event later) :
    item ∈ later.queue ∧ later.status item = .present := by
  have moves := step.moves
  constructor
  · apply moves.stays item waits.1 _ quiet.2
    rw [waits.2]
    intro isDead
    cases isDead
  · rw [moves.status]
    unfold statusAfter
    rw [if_neg quiet.1, if_neg quiet.2]
    split
    · rfl
    · exact waits.2

/-- An item that is added and is not dead is in the queue. -/
theorem added_present {queue later : Queue Item} {item : Item}
    (tracked : Tracked queue) (alive : queue.status item ≠ .dead)
    (step : Step queue (.added item) later) :
    item ∈ later.queue ∧ later.status item = .present := by
  have moves := step.moves
  have status := moves.status item
  unfold statusAfter at status
  rw [if_neg (fun same => nomatch same), if_neg (fun same => nomatch same)]
    at status
  cases isStatus : queue.status item with
  | absent =>
      rw [if_pos ⟨rfl, isStatus⟩] at status
      exact ⟨moves.added item rfl isStatus, status⟩
  | present =>
      have notAbsent : ¬(Event.added item = .added item ∧
          queue.status item = .absent) := by
        rintro ⟨-, isAbsent⟩
        rw [isStatus] at isAbsent
        cases isAbsent
      rw [if_neg notAbsent, isStatus] at status
      constructor
      · apply moves.stays item (tracked.present item isStatus) alive
        intro same
        cases same
      · exact status
  | dead => exact absurd isStatus alive

/-- In every run over a queue, cut at any point: the items of the queue are
distinct; those with the status `present` are the ones in the queue that have
not been marked; a marked item is never returned or passed later, does not come
back into the vector, and is not added again; and what was added last before
the cut is in the queue as long as it is neither popped nor marked. -/
theorem queue_run {past events : List (Event Item)} {queue later : Queue Item}
    (first : Run Step Queue.new past queue)
    (rest : Run Step queue events later) :
    later.queue.Nodup ∧
      (∀ item, later.status item = .present ↔
        item ∈ later.queue ∧ Event.marked item ∉ past ++ events) ∧
      (∀ item, Event.marked item ∈ past →
        Event.popped (some item) ∉ events ∧ Event.passed item ∉ events ∧
          (item ∈ later.queue → item ∈ queue.queue) ∧
          addToQueue item later = later) ∧
      (∀ item, past.getLast? = some (.added item) →
        Event.marked item ∉ past ++ events →
        Event.popped (some item) ∉ events → item ∈ later.queue) := by
  have known := known_of_run first
  have all := known_of_run (first.append rest)
  refine ⟨all.tracked.nodup, ?_, ?_, ?_⟩
  · intro item
    rw [← all.recorded item]
    constructor
    · intro isPresent
      refine ⟨all.tracked.present item isPresent, fun isDead => ?_⟩
      rw [isPresent] at isDead
      cases isDead
    · rintro ⟨isItem, alive⟩
      cases isStatus : later.status item with
      | absent => exact absurd isStatus (all.tracked.known item isItem)
      | present => rfl
      | dead => exact absurd isStatus alive
  · intro item isMarked
    have isDead := (known.recorded item).2 isMarked
    have quiet := rest.events_satisfy (fun dead step => dead_step dead step)
      isDead
    have stillDead := (all.recorded item).2 (List.mem_append_left _ isMarked)
    refine ⟨fun isPopped => (quiet _ isPopped).1 rfl,
      fun isPassed => (quiet _ isPassed).2 rfl, fun isLater => ?_, ?_⟩
    · by_contra gone
      have never := rest.invariant
        (fun gone (_ : True) step => dead_gone gone step)
        (fun _ _ => trivial) ⟨isDead, gone⟩
      exact never.2 isLater
    · apply if_neg
      rw [stillDead]
      intro absent
      cases absent
  · intro item isLast notMarked notPopped
    obtain ⟨front, split⟩ := List.getLast?_eq_some_iff.1 isLast
    rw [split] at first
    obtain ⟨before, run, single⟩ := first.split
    have knownBefore := known_of_run run
    have alive : before.status item ≠ .dead := by
      intro isDead
      apply notMarked
      rw [split]
      exact List.mem_append_left _ (List.mem_append_left _
        ((knownBefore.recorded item).1 isDead))
    have waits := added_present knownBefore.tracked alive single.step_of_single
    refine (rest.invariant (fun waits quiet step =>
      present_step waits quiet step) (fun event isEvent => ?_) waits).1
    constructor
    · intro same
      rw [same] at isEvent
      exact notMarked (List.mem_append_right past isEvent)
    · intro same
      rw [same] at isEvent
      exact notPopped isEvent

/-- An item that is marked between two others is not popped. -/
theorem queue_run_three :
    ∃ queue : Queue Nat, Run Step Queue.new
      [.added 1, .added 2, .marked 2, .popped (some 1)] queue ∧
        queue.queue.Nodup := by
  have first : Run Step (Queue.new : Queue Nat) [.added 1, .added 2, .marked 2]
      (markAsDead 2 (addToQueue 2 (addToQueue 1 Queue.new))) :=
    .next (.add _ 1) (.next (.add _ 2) (.next (.mark _ 2) (.done _)))
  have rest : Run Step (markAsDead 2 (addToQueue 2 (addToQueue 1 Queue.new)))
      [.popped (some 1)]
      (queuePop (markAsDead 2 (addToQueue 2 (addToQueue 1
        (Queue.new : Queue Nat))))).1 :=
    .next (.pop _) (.done _)
  exact ⟨_, first.append rest, (queue_run first rest).1⟩

end OpenDylan.Compiler.OptimizationQueue
