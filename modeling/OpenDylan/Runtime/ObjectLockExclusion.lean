import OpenDylan.Runtime.ObjectLockSplicing
import Mathlib.Data.List.Pairwise

/-!
# What the object lock guarantees

In every run the recorded list is the concatenation of the spines of the
requests being held, and an exit takes out exactly the spine of the exiting
request.  Since no begin step ever waits, exclusion holds in the runs in which
no thread asks for a recorded object, and only these begin steps do what the
lock is for.
-/

namespace OpenDylan.Runtime.ObjectLock

open OpenDylan.Lib.Chain

variable {Object Token : Type}

/-! ## The invariant of the system -/

/-- The spine of a request: allocated pairs from `hd` to `tl`. -/
structure Formed (data : LockData Object Token) (request : Request Object) :
    Prop where
  first : request.pairs.head? = some request.hd
  last : ∃ front, request.pairs = front ++ [request.tl]
  bounded : ∀ pair ∈ request.pairs, pair < data.allocated
  objects : request.objects =
    request.pairs.map (fun pair => (data.head pair).object)

/-- All pairs of the locking forms of one thread. -/
def System.footprint (system : System Object Token) (thread : Token) :
    List Nat :=
  (system.requests thread).flatMap Request.pairs

/-- The recorded list is made of the spines of the held requests. -/
structure Linked (system : System Object Token)
    (blocks : List (Token × Request Object)) : Prop where
  records : Records system.data (blocks.flatMap (fun block => block.2.pairs))
  held : ∀ thread request, (thread, request) ∈ blocks ↔
    request ∈ system.requests thread ∧ request.phase = .holding
  formed : ∀ thread, ∀ request ∈ system.requests thread,
    Formed system.data request
  tokens : ∀ thread, ∀ request ∈ system.requests thread,
    request.phase = .holding →
      ∀ pair ∈ request.pairs, (system.data.head pair).token = some thread
  pending : ∀ thread, ∀ request ∈ system.requests thread,
    request.phase ≠ .holding →
      Segment system.data.tail (some request.hd) request.pairs none
  distinct : ∀ thread, (system.footprint thread).Nodup
  separate : ∀ thread other, thread ≠ other →
    List.Disjoint (system.footprint thread) (system.footprint other)

/-- The invariant of every run. -/
def Invariant (system : System Object Token) : Prop :=
  ∃ blocks, Linked system blocks

theorem Formed.pairs_ne_nil {data : LockData Object Token}
    {request : Request Object} (formed : Formed data request) :
    request.pairs ≠ [] := by
  obtain ⟨front, split⟩ := formed.last
  simp [split]

theorem Formed.of_data {before after : LockData Object Token}
    {request : Request Object} (formed : Formed before request)
    (allocated : before.allocated ≤ after.allocated)
    (objects : ∀ pair ∈ request.pairs,
      (after.head pair).object = (before.head pair).object) :
    Formed after request := by
  refine ⟨formed.first, formed.last, ?_, ?_⟩
  · intro pair member
    exact lt_of_lt_of_le (formed.bounded pair member) allocated
  · rw [formed.objects]
    apply List.map_congr_left
    intro pair member
    exact (objects pair member).symm

theorem mem_footprint {system : System Object Token} {thread : Token}
    {request : Request Object} {pair : Nat}
    (member : request ∈ system.requests thread)
    (inside : pair ∈ request.pairs) : pair ∈ system.footprint thread :=
  List.mem_flatMap.mpr ⟨request, member, inside⟩

theorem Linked.footprint_lt {system : System Object Token}
    {blocks : List (Token × Request Object)} (linked : Linked system blocks)
    {thread : Token} {pair : Nat}
    (member : pair ∈ system.footprint thread) :
    pair < system.data.allocated := by
  obtain ⟨request, inStack, inside⟩ := List.mem_flatMap.mp member
  exact (linked.formed thread request inStack).bounded pair inside

/-- The recorded pairs belong to held requests. -/
theorem Linked.mem_recorded {system : System Object Token}
    {blocks : List (Token × Request Object)} (linked : Linked system blocks)
    {pair : Nat} :
    pair ∈ blocks.flatMap (fun block => block.2.pairs) ↔
      ∃ thread, ∃ request ∈ system.requests thread,
        request.phase = .holding ∧ pair ∈ request.pairs := by
  constructor
  · intro member
    obtain ⟨⟨thread, request⟩, inBlocks, inside⟩ :=
      List.mem_flatMap.mp member
    have held := (linked.held thread request).mp inBlocks
    exact ⟨thread, request, held.1, held.2, inside⟩
  · rintro ⟨thread, request, inStack, holding, inside⟩
    exact List.mem_flatMap.mpr
      ⟨(thread, request), (linked.held thread request).mpr
        ⟨inStack, holding⟩, inside⟩

/-- Two requests of a thread that share a pair are the same entry. -/
theorem Linked.notMem_outer {system : System Object Token}
    {blocks : List (Token × Request Object)} (linked : Linked system blocks)
    {thread : Token} {request inner : Request Object}
    {outer : List (Request Object)}
    (stack : system.requests thread = request :: outer)
    (member : inner ∈ outer) {pair : Nat} (inside : pair ∈ inner.pairs) :
    pair ∉ request.pairs := by
  intro shared
  have distinct := linked.distinct thread
  rw [System.footprint, stack, List.flatMap_cons] at distinct
  exact (List.nodup_append.mp distinct).2.2 pair shared pair
    (List.mem_flatMap.mpr ⟨inner, member, inside⟩) rfl

theorem Linked.same_of_shared {system : System Object Token}
    {blocks : List (Token × Request Object)} (linked : Linked system blocks)
    {thread : Token} {left right : Request Object} {pair : Nat}
    (leftIn : left ∈ system.requests thread)
    (rightIn : right ∈ system.requests thread)
    (leftHas : pair ∈ left.pairs) (rightHas : pair ∈ right.pairs)
    (different : left ≠ right) : False := by
  have disjoint := (List.nodup_flatMap.mp (linked.distinct thread)).2
  have symmetric : Std.Symm
      (Function.onFun List.Disjoint (@Request.pairs Object)) :=
    ⟨fun _ _ apart => List.disjoint_symm apart⟩
  exact disjoint.forall leftIn rightIn different leftHas rightHas

/-- A pair of the top request that is not held is not recorded. -/
theorem Linked.top_notMem_recorded {system : System Object Token}
    {blocks : List (Token × Request Object)} (linked : Linked system blocks)
    {thread : Token} {request : Request Object}
    {outer : List (Request Object)}
    (stack : system.requests thread = request :: outer)
    (free : request.phase ≠ .holding) {pair : Nat}
    (inside : pair ∈ request.pairs) :
    pair ∉ blocks.flatMap (fun block => block.2.pairs) := by
  intro recorded
  obtain ⟨other, holder, inStack, holding, shared⟩ :=
    linked.mem_recorded.mp recorded
  by_cases same : thread = other
  · subst other
    rw [stack] at inStack
    rcases List.mem_cons.mp inStack with rfl | below
    · exact free holding
    · exact linked.notMem_outer stack below shared inside
  · exact linked.separate thread other same
      (mem_footprint (by simp [stack]) inside)
      (mem_footprint inStack shared)

theorem Linked.spine_nodup {system : System Object Token}
    {blocks : List (Token × Request Object)} (linked : Linked system blocks)
    {thread : Token} {request : Request Object}
    (member : request ∈ system.requests thread) : request.pairs.Nodup :=
  (List.nodup_flatMap.mp (linked.distinct thread)).1 request member

theorem Linked.spine_length_le {system : System Object Token}
    {blocks : List (Token × Request Object)} (linked : Linked system blocks)
    {thread : Token} {request : Request Object}
    (member : request ∈ system.requests thread) :
    request.pairs.length ≤ system.data.allocated :=
  length_le_of_bounded (linked.spine_nodup member)
    (linked.formed thread request member).bounded

/-! ## Entering a locking form -/

/-- The old pairs are as before; only new pairs have been allocated. -/
structure Extends (before after : LockData Object Token) : Prop where
  allocated : before.allocated ≤ after.allocated
  objectLockData : after.objectLockData = before.objectLockData
  head : ∀ pair < before.allocated, after.head pair = before.head pair
  tail : ∀ pair < before.allocated, after.tail pair = before.tail pair

theorem Extends.trans {first second third : LockData Object Token}
    (left : Extends first second) (right : Extends second third) :
    Extends first third where
  allocated := left.allocated.trans right.allocated
  objectLockData := right.objectLockData.trans left.objectLockData
  head pair below :=
    (right.head pair (lt_of_lt_of_le below left.allocated)).trans
      (left.head pair below)
  tail pair below :=
    (right.tail pair (lt_of_lt_of_le below left.allocated)).trans
      (left.tail pair below)

theorem extends_allocate (data : LockData Object Token) (object : Object)
    (rest : Option Nat) : Extends data (data.allocate object rest) where
  allocated := Nat.le_succ _
  objectLockData := rfl
  head _ below := Function.update_of_ne (Nat.ne_of_lt below) _ _
  tail _ below := Function.update_of_ne (Nat.ne_of_lt below) _ _

theorem Extends.segment {before after : LockData Object Token}
    (extension : Extends before after) {start stop : Option Nat}
    {pairs : List Nat} (bounded : ∀ pair ∈ pairs, pair < before.allocated)
    (chain : Segment before.tail start pairs stop) :
    Segment after.tail start pairs stop :=
  segment_congr
    (fun pair member => extension.tail pair (bounded pair member)) chain

/-- What `make-multiple-object-lock-cells` builds in front of `rest`. -/
structure MadeCells (before : LockData Object Token) (objects : List Object)
    (rest : List Nat) (after : LockData Object Token)
    (answer : Option Nat) : Prop where
  grows : Extends before after
  allocated : after.allocated = before.allocated + objects.length
  chain : Segment after.tail answer
    ((List.range' before.allocated objects.length).reverse ++ rest) none
  named : objects = (List.range' before.allocated objects.length).map
    (fun pair => (after.head pair).object)

theorem makeMultipleObjectLockCells_spec (objects : List Object)
    (data : LockData Object Token) (answer last : Option Nat)
    (rest : List Nat) (chain : Segment data.tail answer rest none)
    (bounded : ∀ pair ∈ rest, pair < data.allocated) :
    MadeCells data objects rest
      (makeMultipleObjectLockCells data objects answer last).1
      (makeMultipleObjectLockCells data objects answer last).2.1 := by
  induction objects generalizing data answer last rest with
  | nil =>
      exact ⟨⟨le_rfl, rfl, fun _ _ => rfl, fun _ _ => rfl⟩, rfl, chain, rfl⟩
  | cons object objects ih =>
      have grown := extends_allocate data object answer
      have first : Segment (data.allocate object answer).tail
          (some data.allocated) (data.allocated :: rest) none := by
        refine ⟨rfl, ?_⟩
        have link : (data.allocate object answer).tail data.allocated =
            answer := by simp [LockData.allocate]
        rw [link]
        exact grown.segment bounded chain
      have firstBounded : ∀ pair ∈ data.allocated :: rest,
          pair < (data.allocate object answer).allocated := by
        intro pair member
        rcases List.mem_cons.mp member with rfl | old
        · exact Nat.lt_succ_self _
        · exact Nat.lt_succ_of_lt (bounded pair old)
      have made := ih (data.allocate object answer) (some data.allocated)
        (if last = none then answer else last) (data.allocated :: rest)
        first firstBounded
      refine ⟨grown.trans made.grows, ?_, ?_, ?_⟩
      · have count := made.allocated
        simp only [makeMultipleObjectLockCells, LockData.allocate,
          List.length_cons] at count ⊢
        omega
      · simpa [makeMultipleObjectLockCells, List.range'_succ,
          LockData.allocate] using made.chain
      · have name : (makeMultipleObjectLockCells
            (data.allocate object answer) objects (some data.allocated)
            (if last = none then answer else last)).1.head
              data.allocated = ⟨object, none⟩ := by
          rw [made.grows.head data.allocated (Nat.lt_succ_self _)]
          simp [LockData.allocate]
        simp only [makeMultipleObjectLockCells, List.length_cons,
          List.range'_succ, List.map_cons, name]
        exact congrArg _ made.named

theorem makeMultipleObjectLockCells_last (objects : List Object)
    (data : LockData Object Token) (answer last : Option Nat) :
    (makeMultipleObjectLockCells data objects answer last).2.2 =
      (last.or answer).or
        (if objects = [] then none else some data.allocated) := by
  induction objects generalizing data answer last with
  | nil =>
      cases last <;> cases answer <;> simp [makeMultipleObjectLockCells]
  | cons object objects ih =>
      simp only [makeMultipleObjectLockCells]
      rw [ih]
      cases last <;> cases answer <;> simp

theorem Linked.push {system : System Object Token} [DecidableEq Token]
    {blocks : List (Token × Request Object)} (linked : Linked system blocks)
    {thread : Token} {data : LockData Object Token}
    {request : Request Object} (grows : Extends system.data data)
    (formed : Formed data request) (requesting : request.phase = .requesting)
    (chain : Segment data.tail (some request.hd) request.pairs none)
    (fresh : ∀ pair ∈ request.pairs, system.data.allocated ≤ pair)
    (distinct : request.pairs.Nodup) :
    Linked (system.push thread data request) blocks := by
  have away : ∀ other, List.Disjoint request.pairs
      (system.footprint other) := by
    intro other pair new old
    exact absurd (linked.footprint_lt old) (not_lt.mpr (fresh pair new))
  have footprint : ∀ other,
      (system.push thread data request).footprint other =
        if other = thread then request.pairs ++ system.footprint thread
        else system.footprint other := by
    intro other
    by_cases same : other = thread
    · subst other
      simp [System.push, System.footprint]
    · simp [System.push, System.footprint, same]
  have cases_mem : ∀ other inner,
      inner ∈ (system.push thread data request).requests other →
        (other = thread ∧ inner = request) ∨
          inner ∈ system.requests other := by
    intro other inner member
    by_cases same : other = thread
    · subst other
      simpa [System.push] using member
    · right
      simpa [System.push, same] using member
  have mem_old : ∀ other inner, inner ∈ system.requests other →
      inner ∈ (system.push thread data request).requests other := by
    intro other inner member
    by_cases same : other = thread
    · subst other
      simp [System.push, member]
    · simpa [System.push, same] using member
  constructor
  · refine ⟨?_, linked.records.distinct, ?_⟩
    · simp only [System.push, grows.objectLockData]
      exact grows.segment linked.records.bounded linked.records.chain
    · intro pair member
      exact lt_of_lt_of_le (linked.records.bounded pair member)
        grows.allocated
  · intro other inner
    rw [linked.held]
    constructor
    · rintro ⟨member, holding⟩
      exact ⟨mem_old other inner member, holding⟩
    · rintro ⟨member, holding⟩
      rcases cases_mem other inner member with ⟨-, rfl⟩ | old
      · rw [requesting] at holding
        exact absurd holding (by decide)
      · exact ⟨old, holding⟩
  · intro other inner member
    rcases cases_mem other inner member with ⟨-, rfl⟩ | old
    · exact formed
    · have oldFormed := linked.formed other inner old
      refine oldFormed.of_data grows.allocated ?_
      intro pair inside
      simp only [System.push]
      rw [grows.head pair (oldFormed.bounded pair inside)]
  · intro other inner member holding pair inside
    rcases cases_mem other inner member with ⟨-, rfl⟩ | old
    · rw [requesting] at holding
      exact absurd holding (by decide)
    · simp only [System.push]
      rw [grows.head pair ((linked.formed other inner old).bounded pair inside)]
      exact linked.tokens other inner old holding pair inside
  · intro other inner member free
    rcases cases_mem other inner member with ⟨-, rfl⟩ | old
    · exact chain
    · exact grows.segment (linked.formed other inner old).bounded
        (linked.pending other inner old free)
  · intro other
    rw [footprint other]
    split
    · exact List.nodup_append.mpr ⟨distinct, linked.distinct thread,
        fun pair new old present same => away thread new (same ▸ present)⟩
    · exact linked.distinct other
  · intro left right different
    rw [footprint left, footprint right]
    split <;> split
    · rename_i leftSame rightSame
      exact absurd (leftSame.trans rightSame.symm) different
    · rename_i leftSame rightOther
      subst left
      exact List.disjoint_append_left.mpr
        ⟨away right, linked.separate thread right different⟩
    · rename_i leftOther rightSame
      subst right
      exact List.disjoint_append_right.mpr
        ⟨List.disjoint_symm (away left),
          linked.separate left thread different⟩
    · exact linked.separate left right different

/-! ## The other steps -/

section Steps

variable [DecidableEq Token]

/-- The system with other locking forms for one thread. -/
def System.withStack (system : System Object Token) (thread : Token)
    (data : LockData Object Token) (stack : List (Request Object)) :
    System Object Token :=
  { data := data
    requests := Function.update system.requests thread stack }

theorem mem_withStack {system : System Object Token} {thread other : Token}
    {data : LockData Object Token} {stack : List (Request Object)}
    {request : Request Object} :
    request ∈ (system.withStack thread data stack).requests other ↔
      (other = thread ∧ request ∈ stack) ∨
        (other ≠ thread ∧ request ∈ system.requests other) := by
  by_cases same : other = thread
  · subst other
    simp [System.withStack]
  · simp [System.withStack, same]

theorem footprint_withStack {system : System Object Token}
    {thread : Token} {data : LockData Object Token}
    {stack : List (Request Object)}
    (same : stack.flatMap Request.pairs = system.footprint thread)
    (other : Token) :
    (system.withStack thread data stack).footprint other =
      system.footprint other := by
  by_cases here : other = thread
  · subst other
    simpa [System.footprint, System.withStack] using same
  · simp [System.footprint, System.withStack, here]

/-- A locking form after the top one of a thread has been replaced. -/
theorem mem_withStack_top {system : System Object Token}
    {thread other : Token} {data : LockData Object Token}
    {old new request : Request Object} {outer : List (Request Object)}
    (stack : system.requests thread = old :: outer)
    (member : request ∈
      (system.withStack thread data (new :: outer)).requests other) :
    (other = thread ∧ request = new) ∨
      (request ∈ system.requests other ∧
        (other ≠ thread ∨ request ∈ outer)) := by
  rcases mem_withStack.mp member with ⟨rfl, own⟩ | ⟨different, elsewhere⟩
  · rcases List.mem_cons.mp own with same | below
    · exact Or.inl ⟨rfl, same⟩
    · exact Or.inr ⟨by simp [stack, below], Or.inr below⟩
  · exact Or.inr ⟨elsewhere, Or.inl different⟩

/-- Giving up on a pending request. -/
theorem Linked.unwind {system : System Object Token}
    {blocks : List (Token × Request Object)} (linked : Linked system blocks)
    {thread : Token} {pairs : List Nat} {hd tl : Nat}
    {objects : List Object} {outer : List (Request Object)}
    (stack : system.requests thread =
      ⟨pairs, hd, tl, objects, .requesting⟩ :: outer) :
    Linked (system.withStack thread system.data
      (⟨pairs, hd, tl, objects, .unwinding⟩ :: outer)) blocks := by
  have top : (⟨pairs, hd, tl, objects, .requesting⟩ : Request Object) ∈
      system.requests thread := by simp [stack]
  have footprint : ∀ other, (system.withStack thread system.data
      (⟨pairs, hd, tl, objects, .unwinding⟩ :: outer)).footprint other =
        system.footprint other :=
    footprint_withStack (by simp [System.footprint, stack])
  constructor
  · exact linked.records
  · intro other request
    rw [linked.held]
    constructor
    · rintro ⟨member, holding⟩
      refine ⟨mem_withStack.mpr ?_, holding⟩
      by_cases same : other = thread
      · subst other
        rw [stack] at member
        rcases List.mem_cons.mp member with rfl | old
        · exact absurd holding (by simp)
        · exact Or.inl ⟨rfl, List.mem_cons_of_mem _ old⟩
      · exact Or.inr ⟨same, member⟩
    · rintro ⟨member, holding⟩
      rcases mem_withStack_top stack member with ⟨-, rfl⟩ | ⟨old, -⟩
      · exact absurd holding (by simp)
      · exact ⟨old, holding⟩
  · intro other request member
    rcases mem_withStack_top stack member with ⟨rfl, rfl⟩ | ⟨old, -⟩
    · have formed := linked.formed other _ top
      exact ⟨formed.first, formed.last, formed.bounded, formed.objects⟩
    · exact linked.formed other request old
  · intro other request member holding
    rcases mem_withStack_top stack member with ⟨-, rfl⟩ | ⟨old, -⟩
    · exact absurd holding (by simp)
    · exact linked.tokens other request old holding
  · intro other request member free
    rcases mem_withStack_top stack member with ⟨rfl, rfl⟩ | ⟨old, -⟩
    · have pending := linked.pending other _ top (by simp)
      exact pending
    · exact linked.pending other request old free
  · intro other
    rw [footprint]
    exact linked.distinct other
  · intro left right different
    rw [footprint, footprint]
    exact linked.separate left right different

/-- Completing a pending request puts its spine in front of the list. -/
theorem Linked.complete {system : System Object Token}
    {blocks : List (Token × Request Object)} (linked : Linked system blocks)
    {thread : Token} {pairs : List Nat} {hd tl : Nat}
    {objects : List Object} {outer : List (Request Object)}
    (stack : system.requests thread =
      ⟨pairs, hd, tl, objects, .requesting⟩ :: outer) :
    Linked
      (system.withStack thread (spliced system.data pairs hd tl thread)
        (⟨pairs, hd, tl, objects, .holding⟩ :: outer))
      ((thread, ⟨pairs, hd, tl, objects, .holding⟩) :: blocks) := by
  have top : (⟨pairs, hd, tl, objects, .requesting⟩ : Request Object) ∈
      system.requests thread := by simp [stack]
  have formed := linked.formed thread _ top
  have chain := linked.pending thread _ top (by simp)
  obtain ⟨front, split⟩ := formed.last
  simp only at split chain
  have lastMem : tl ∈ pairs := by simp [split]
  have footprint : ∀ other, (system.withStack thread
      (spliced system.data pairs hd tl thread)
      (⟨pairs, hd, tl, objects, .holding⟩ :: outer)).footprint other =
        system.footprint other :=
    footprint_withStack (by simp [System.footprint, stack])
  -- Requests other than the top one have no pair in common with it.
  have apart : ∀ other request, request ∈ system.requests other →
      (other ≠ thread ∨ request ∈ outer) →
        ∀ pair ∈ request.pairs, pair ∉ pairs := by
    intro other request member elsewhere pair inside shared
    rcases elsewhere with different | old
    · exact linked.separate other thread different
        (mem_footprint member inside) (mem_footprint top shared)
    · by_cases same : other = thread
      · subst other
        exact linked.notMem_outer stack old inside shared
      · exact linked.separate other thread same
          (mem_footprint member inside) (mem_footprint top shared)
  have free : ∀ pair ∈ pairs,
      pair ∉ blocks.flatMap (fun block => block.2.pairs) :=
    fun pair inside => linked.top_notMem_recorded stack (by simp) inside
  have pairsDistinct : pairs.Nodup := by
    have distinct := linked.distinct thread
    rw [System.footprint, stack, List.flatMap_cons] at distinct
    exact (List.nodup_append.mp distinct).1
  have reform : ∀ other request, request ∈ system.requests other →
      Formed (spliced system.data pairs hd tl thread) request := by
    intro other request member
    exact (linked.formed other request member).of_data le_rfl
      (fun pair _ => by simp [spliced])
  constructor
  · rw [List.flatMap_cons]
    subst split
    refine linked.records.splice chain ?_ formed.bounded
    exact List.nodup_append.mpr ⟨pairsDistinct, linked.records.distinct,
      fun pair own other recorded same =>
        free pair own (same ▸ recorded)⟩
  · intro other request
    rw [List.mem_cons, linked.held]
    constructor
    · rintro (same | ⟨member, holding⟩)
      · cases same
        exact ⟨mem_withStack.mpr (Or.inl ⟨rfl, by simp⟩), rfl⟩
      · refine ⟨mem_withStack.mpr ?_, holding⟩
        by_cases same : other = thread
        · subst other
          rw [stack] at member
          rcases List.mem_cons.mp member with rfl | old
          · exact absurd holding (by simp)
          · exact Or.inl ⟨rfl, List.mem_cons_of_mem _ old⟩
        · exact Or.inr ⟨same, member⟩
    · rintro ⟨member, holding⟩
      rcases mem_withStack_top stack member with ⟨rfl, rfl⟩ | ⟨old, -⟩
      · exact Or.inl rfl
      · exact Or.inr ⟨old, holding⟩
  · intro other request member
    rcases mem_withStack_top stack member with ⟨rfl, rfl⟩ | ⟨old, -⟩
    · have again := reform other _ top
      exact ⟨again.first, again.last, again.bounded, again.objects⟩
    · exact reform other request old
  · intro other request member holding pair inside
    rcases mem_withStack_top stack member with ⟨rfl, rfl⟩ | ⟨old, elsewhere⟩
    · simp only at inside
      simp [System.withStack, spliced, markedHead, inside]
    · simp only [System.withStack, spliced, markedHead,
        apart other request old elsewhere pair inside, if_false]
      exact linked.tokens other request old holding pair inside
  · intro other request member free
    rcases mem_withStack_top stack member with ⟨rfl, rfl⟩ | ⟨old, elsewhere⟩
    · exact absurd rfl free
    · refine (segment_update_of_notMem fun inside => ?_).mpr
        (linked.pending other request old free)
      exact apart other request old elsewhere tl inside lastMem
  · intro other
    rw [footprint]
    exact linked.distinct other
  · intro left right different
    rw [footprint, footprint]
    exact linked.separate left right different

/-- Leaving a locking form whose spine is not in the remaining list. -/
theorem Linked.pop {system : System Object Token}
    {blocks remaining : List (Token × Request Object)}
    (linked : Linked system blocks)
    {thread : Token} {request : Request Object}
    {outer : List (Request Object)} {after : LockData Object Token}
    {changed : List Nat}
    (stack : system.requests thread = request :: outer)
    (frame : Unspliced system.data after changed)
    (within : ∀ pair ∈ changed,
      pair ∈ blocks.flatMap (fun block => block.2.pairs))
    (records : Records after
      (remaining.flatMap (fun block => block.2.pairs)))
    (kept : ∀ other inner, (other, inner) ∈ remaining ↔
      (other, inner) ∈ blocks ∧ ¬(other = thread ∧ inner = request)) :
    Linked (system.withStack thread after outer) remaining := by
  have nonempty : request.pairs ≠ [] :=
    (linked.formed thread request (by simp [stack])).pairs_ne_nil
  have absent : request ∉ outer := by
    intro member
    obtain ⟨pair, inside⟩ := List.exists_mem_of_ne_nil _ nonempty
    exact linked.notMem_outer stack member inside inside
  have old : ∀ other inner,
      inner ∈ (system.withStack thread after outer).requests other ↔
        inner ∈ system.requests other ∧
          ¬(other = thread ∧ inner = request) := by
    intro other inner
    rw [mem_withStack]
    constructor
    · rintro (⟨rfl, member⟩ | ⟨different, member⟩)
      · refine ⟨by simp [stack, member], ?_⟩
        rintro ⟨-, rfl⟩
        exact absent member
      · exact ⟨member, fun same => different same.1⟩
    · rintro ⟨member, different⟩
      by_cases same : other = thread
      · subst other
        rw [stack] at member
        rcases List.mem_cons.mp member with rfl | below
        · exact absurd ⟨rfl, rfl⟩ different
        · exact Or.inl ⟨rfl, below⟩
      · exact Or.inr ⟨same, member⟩
  have smaller : ∀ other,
      ((system.withStack thread after outer).footprint other).Sublist
        (system.footprint other) := by
    intro other
    by_cases same : other = thread
    · subst other
      simp [System.footprint, System.withStack, stack]
    · simp [System.footprint, System.withStack, same]
  constructor
  · exact records
  · intro other inner
    rw [kept, linked.held, old]
    tauto
  · intro other inner member
    exact (linked.formed other inner ((old other inner).mp member).1).of_data
      (le_of_eq frame.allocated.symm)
      (fun pair _ => by simp only [System.withStack, frame.head])
  · intro other inner member holding pair inside
    simp only [System.withStack, frame.head]
    exact linked.tokens other inner ((old other inner).mp member).1 holding
      pair inside
  · intro other inner member free
    have inStack := ((old other inner).mp member).1
    refine segment_congr (fun pair inside => frame.tail pair ?_)
      (linked.pending other inner inStack free)
    intro touched
    obtain ⟨third, holder, holderIn, holding, shared⟩ :=
      linked.mem_recorded.mp (within pair touched)
    by_cases same : other = third
    · subst third
      have apart : holder ≠ inner := fun equal => free (equal ▸ holding)
      exact linked.same_of_shared holderIn inStack shared inside apart
    · exact linked.separate other third same
        (mem_footprint inStack inside) (mem_footprint holderIn shared)
  · intro other
    exact (linked.distinct other).sublist (smaller other)
  · intro left right different pair leftHas rightHas
    exact linked.separate left right different
      ((smaller left).subset leftHas) ((smaller right).subset rightHas)

/-- An exit always returns, and takes out exactly the request's own pairs. -/
theorem Linked.exit {system : System Object Token}
    {blocks : List (Token × Request Object)} (linked : Linked system blocks)
    {thread : Token} {request : Request Object}
    {outer : List (Request Object)}
    (stack : system.requests thread = request :: outer)
    (ended : request.phase ≠ .requesting) :
    ∃ after remaining,
      endLockingMultipleObjects request.tl (system.data.allocated + 1)
          system.data request.hd = some after ∧
        Linked (system.withStack thread after outer) remaining ∧
        remaining.flatMap (fun block => block.2.pairs) =
          (blocks.flatMap (fun block => block.2.pairs)).filter
            (fun pair => pair ∉ request.pairs) := by
  have top : request ∈ system.requests thread := by simp [stack]
  have formed := linked.formed thread request top
  obtain ⟨spine, split⟩ := formed.last
  have short := linked.spine_length_le top
  rw [split, List.length_append, List.length_singleton] at short
  by_cases holding : request.phase = .holding
  · obtain ⟨front, back, shape⟩ :=
      List.append_of_mem ((linked.held thread request).mpr ⟨top, holding⟩)
    have records : Records system.data
        (front.flatMap (fun block => block.2.pairs) ++
          (spine ++ [request.tl]) ++
            back.flatMap (fun block => block.2.pairs)) := by
      have whole := linked.records
      simp only [shape, List.flatMap_append, List.flatMap_cons, split]
        at whole
      simpa using whole
    have first : (spine ++ [request.tl]).head? = some request.hd := by
      rw [← split]
      exact formed.first
    have enough : spine.length < system.data.allocated + 1 := by omega
    obtain ⟨after, ended', records', frame⟩ :=
      endLockingMultipleObjects_present records first enough
    have distinct := linked.records.distinct
    simp only [shape, List.flatMap_append, List.flatMap_cons] at distinct
    have parts := List.nodup_append.mp distinct
    have inner := List.nodup_append.mp parts.2.1
    have notFront : ∀ pair ∈ request.pairs,
        pair ∉ front.flatMap (fun block => block.2.pairs) :=
      fun pair own member => parts.2.2 pair member pair
        (List.mem_append_left _ own) rfl
    have notBack : ∀ pair ∈ request.pairs,
        pair ∉ back.flatMap (fun block => block.2.pairs) :=
      fun pair own member => inner.2.2 pair own pair member rfl
    refine ⟨after, front ++ back, ended', ?_, ?_⟩
    · refine linked.pop stack frame ?_ (by simpa using records') ?_
      · intro pair member
        rw [shape, List.flatMap_append]
        exact List.mem_append_left _ member
      · obtain ⟨pair, own⟩ := List.exists_mem_of_ne_nil _ formed.pairs_ne_nil
        have gone : (thread, request) ∉ front ++ back := by
          intro member
          rcases List.mem_append.mp member with before | behind
          · exact notFront pair own
              (List.mem_flatMap.mpr ⟨_, before, own⟩)
          · exact notBack pair own
              (List.mem_flatMap.mpr ⟨_, behind, own⟩)
        intro other inner
        constructor
        · intro member
          refine ⟨?_, ?_⟩
          · rw [shape]
            rcases List.mem_append.mp member with before | behind
            · exact List.mem_append_left _ before
            · exact List.mem_append_right _ (List.mem_cons_of_mem _ behind)
          · rintro ⟨rfl, rfl⟩
            exact gone member
        · rintro ⟨member, different⟩
          rw [shape] at member
          rcases List.mem_append.mp member with before | behind
          · exact List.mem_append_left _ before
          · rcases List.mem_cons.mp behind with same | behind
            · cases same
              exact absurd ⟨rfl, rfl⟩ different
            · exact List.mem_append_right _ behind
    · rw [shape]
      simp only [List.flatMap_append, List.flatMap_cons, List.filter_append]
      congr 1
      · symm
        apply List.filter_eq_self.mpr
        intro pair member
        simpa using fun own => notFront pair own member
      · have none : request.pairs.filter
            (fun pair => pair ∉ request.pairs) = [] := by
          apply List.filter_eq_nil_iff.mpr
          intro pair own
          simp [own]
        rw [none, List.nil_append]
        symm
        apply List.filter_eq_self.mpr
        intro pair member
        simpa using fun own => notBack pair own member
  · have missing : ∀ pair ∈ request.pairs,
        pair ∉ blocks.flatMap (fun block => block.2.pairs) :=
      fun pair inside => linked.top_notMem_recorded stack holding inside
    have chain := linked.pending thread request top holding
    have nodup := linked.spine_nodup top
    rw [split] at chain missing nodup
    have last : request.tl ∉ spine := fun member =>
      (List.nodup_append.mp nodup).2.2 _ member _ (by simp) rfl
    refine ⟨system.data, blocks, ?_, ?_, ?_⟩
    · exact endLockingMultipleObjects_absent linked.records chain last
        missing (by omega)
    · have untouched : Unspliced system.data system.data [] :=
        ⟨rfl, rfl, fun _ _ => rfl⟩
      refine linked.pop stack untouched (by simp) linked.records ?_
      intro other inner
      constructor
      · intro member
        refine ⟨member, ?_⟩
        rintro ⟨rfl, rfl⟩
        exact holding ((linked.held _ _).mp member).2
      · exact fun member => member.1
    · symm
      apply List.filter_eq_self.mpr
      intro pair member
      rw [split]
      exact decide_eq_true (fun own => missing pair own member)

end Steps

/-! ## Runs -/

theorem invariant_initial [Inhabited Object] :
    Invariant (initial : System Object Token) := by
  refine ⟨[], ⟨rfl, List.nodup_nil, by simp⟩, ?_, ?_, ?_, ?_, ?_, ?_⟩ <;>
    simp [initial, System.footprint]

section Runs

variable [DecidableEq Object] [DecidableEq Token]

theorem invariant_enterObject {system next : System Object Token}
    {thread : Token} {object : Object} (invariant : Invariant system)
    (stepped : step system (.enterObject thread object) = some next) :
    Invariant next := by
  obtain ⟨blocks, linked⟩ := invariant
  simp only [step] at stepped
  split at stepped
  · cases stepped
    refine ⟨blocks, linked.push (extends_allocate _ _ _) ?_ rfl ?_ ?_ ?_⟩
    · refine ⟨rfl, ⟨[], rfl⟩, ?_, ?_⟩
      · intro pair member
        rw [List.mem_singleton.mp member]
        exact Nat.lt_succ_self _
      · simp [LockData.allocate]
    · simp [LockData.allocate]
    · intro pair member
      rw [List.mem_singleton.mp member]
    · exact List.nodup_singleton _
  · exact absurd stepped (by simp)

theorem invariant_enterMultiple {system next : System Object Token}
    {thread : Token} {objects : List Object} (invariant : Invariant system)
    (stepped : step system (.enterMultiple thread objects) = some next) :
    Invariant next := by
  obtain ⟨blocks, linked⟩ := invariant
  have made := makeMultipleObjectLockCells_spec objects system.data none none
    [] rfl (by simp)
  have last := makeMultipleObjectLockCells_last objects system.data none none
  simp only [step] at stepped
  split at stepped
  · split at stepped
    · rename_i data hd tl result
      cases stepped
      rw [result] at made last
      cases objects with
      | nil => simp at last
      | cons object objects =>
          have first : tl = system.data.allocated := by simpa using last
          have start : (List.range' system.data.allocated
              (objects.length + 1)).reverse.head? = some hd := by
            have chain := made.chain
            simp only [List.append_nil, List.length_cons] at chain
            cases shape : (List.range' system.data.allocated
                (objects.length + 1)).reverse with
            | nil => simp at shape
            | cons pair pairs =>
                rw [shape] at chain
                exact chain.1.symm
          refine ⟨blocks, linked.push made.grows
            ⟨start, ?_, ?_, ?_⟩ rfl ?_ ?_ ?_⟩
          · refine ⟨(List.range' (system.data.allocated + 1)
              objects.length).reverse, ?_⟩
            simp [List.range'_succ, first]
          · intro pair member
            have range := List.mem_range'_1.mp (List.mem_reverse.mp member)
            rw [made.allocated]
            exact range.2
          · have named := congrArg List.reverse made.named
            simpa [← List.map_reverse] using named
          · simpa using made.chain
          · intro pair member
            exact (List.mem_range'_1.mp (List.mem_reverse.mp member)).1
          · exact List.nodup_reverse.mpr (List.nodup_range' ..)
    · exact absurd stepped (by simp)
  · exact absurd stepped (by simp)

/-- The begin step of a pending request completes, whatever is recorded. -/
theorem Linked.begins {system : System Object Token}
    {blocks : List (Token × Request Object)} (linked : Linked system blocks)
    {thread : Token} {request : Request Object}
    {outer : List (Request Object)}
    (stack : system.requests thread = request :: outer)
    (requesting : request.phase = .requesting) :
    beginLockingMultipleObjects system.data request.hd request.tl thread =
      some (.completed
        (spliced system.data request.pairs request.hd request.tl thread)) := by
  have top : request ∈ system.requests thread := by simp [stack]
  exact beginLocking_completes linked.records
    (linked.pending thread request top (by simp [requesting]))
    (linked.spine_length_le top)

theorem invariant_beginLocking {system next : System Object Token}
    {thread : Token} (invariant : Invariant system)
    (stepped : step system (.beginLocking thread) = some next) :
    Invariant next := by
  obtain ⟨blocks, linked⟩ := invariant
  simp only [step] at stepped
  split at stepped
  · rename_i pairs hd tl objects outer stack
    rw [linked.begins stack rfl] at stepped
    cases stepped
    exact ⟨_, linked.complete stack⟩
  · exact absurd stepped (by simp)

theorem invariant_abort {system next : System Object Token}
    {thread : Token} (invariant : Invariant system)
    (stepped : step system (.abort thread) = some next) :
    Invariant next := by
  obtain ⟨blocks, linked⟩ := invariant
  simp only [step] at stepped
  split at stepped
  · rename_i pairs hd tl objects outer stack
    cases stepped
    exact ⟨blocks, linked.unwind stack⟩
  · exact absurd stepped (by simp)

theorem invariant_exit {system next : System Object Token}
    {thread : Token} (invariant : Invariant system)
    (stepped : step system (.exit thread) = some next) :
    Invariant next := by
  obtain ⟨blocks, linked⟩ := invariant
  simp only [step] at stepped
  split at stepped
  · rename_i request outer stack
    split at stepped
    · exact absurd stepped (by simp)
    · rename_i ended
      obtain ⟨after, remaining, done, linked', -⟩ := linked.exit stack ended
      rw [done] at stepped
      cases stepped
      exact ⟨remaining, linked'⟩
  · exact absurd stepped (by simp)

theorem invariant_step {system next : System Object Token}
    {event : Event Object Token} (invariant : Invariant system)
    (stepped : step system event = some next) : Invariant next := by
  cases event with
  | enterObject thread object => exact invariant_enterObject invariant stepped
  | enterMultiple thread objects =>
      exact invariant_enterMultiple invariant stepped
  | beginLocking thread => exact invariant_beginLocking invariant stepped
  | abort thread => exact invariant_abort invariant stepped
  | exit thread => exact invariant_exit invariant stepped

theorem invariant_run {system final : System Object Token}
    {events : List (Event Object Token)} (invariant : Invariant system)
    (ran : run system events = some final) : Invariant final := by
  induction events generalizing system with
  | nil =>
      cases ran
      exact invariant
  | cons event events ih =>
      obtain ⟨next, stepped, rest⟩ := Option.bind_eq_some_iff.mp ran
      exact ih (invariant_step invariant stepped) rest

end Runs

/-! ## Exclusion -/

/-- A thread is between the completed begin and the exit of a locking form
that names the object. -/
def Holds (system : System Object Token) (thread : Token)
    (object : Object) : Prop :=
  ∃ request ∈ system.requests thread,
    request.phase = .holding ∧ object ∈ request.objects

/-- `*object-lock-data*` has a cell of the thread for the object. -/
def RecordedFor (system : System Object Token) (thread : Token)
    (object : Object) : Prop :=
  ⟨object, some thread⟩ ∈ system.data.recordedCells

/-- No object is held by two threads at once. -/
def Exclusive (system : System Object Token) : Prop :=
  ∀ left right object,
    Holds system left object → Holds system right object → left = right

theorem Linked.mem_recordedCells {system : System Object Token}
    {blocks : List (Token × Request Object)} (linked : Linked system blocks)
    {cell : LockCell Object Token} :
    cell ∈ system.data.recordedCells ↔
      ∃ thread, cell.token = some thread ∧
        Holds system thread cell.object := by
  rw [LockData.recordedCells, linked.records.recordedPairs_eq, List.mem_map]
  constructor
  · rintro ⟨pair, recorded, rfl⟩
    obtain ⟨thread, request, inStack, holding, inside⟩ :=
      linked.mem_recorded.mp recorded
    refine ⟨thread, linked.tokens thread request inStack holding pair inside,
      request, inStack, holding, ?_⟩
    rw [(linked.formed thread request inStack).objects]
    exact List.mem_map_of_mem inside
  · rintro ⟨thread, token, request, inStack, holding, named⟩
    rw [(linked.formed thread request inStack).objects] at named
    obtain ⟨pair, inside, object⟩ := List.mem_map.mp named
    refine ⟨pair, linked.mem_recorded.mpr
      ⟨thread, request, inStack, holding, inside⟩, ?_⟩
    have owner := linked.tokens thread request inStack holding pair inside
    exact LockCell.ext object (owner.trans token.symm)

theorem Linked.recordedFor_iff {system : System Object Token}
    {blocks : List (Token × Request Object)} (linked : Linked system blocks)
    {thread : Token} {object : Object} :
    RecordedFor system thread object ↔ Holds system thread object := by
  rw [RecordedFor, linked.mem_recordedCells]
  simp

section Condition

variable [DecidableEq Object]

/-- None of the requested objects is recorded, by whatever thread. -/
def unrecorded (system : System Object Token) (request : Request Object) :
    Bool :=
  request.objects.all fun object =>
    system.data.recordedCells.all fun cell => cell.object ≠ object

theorem Linked.unrecorded_iff {system : System Object Token}
    {blocks : List (Token × Request Object)} (linked : Linked system blocks)
    {request : Request Object} :
    unrecorded system request = true ↔
      ∀ object ∈ request.objects, ∀ thread,
        ¬RecordedFor system thread object := by
  simp only [unrecorded, List.all_eq_true, decide_eq_true_eq]
  constructor
  · intro clear object named thread recorded
    exact clear object named _ recorded rfl
  · intro clear object named cell recorded same
    obtain ⟨thread, token, held⟩ := linked.mem_recordedCells.mp recorded
    subst same
    exact clear _ named thread (linked.recordedFor_iff.mpr held)

variable [DecidableEq Token]

/-- The condition on a step: a begin step asks for unrecorded objects. -/
def uncontended (system : System Object Token) :
    Event Object Token → Bool
  | .beginLocking thread =>
      match system.requests thread with
      | request :: _ => unrecorded system request
      | [] => true
  | _ => true

/-- The condition on a run: every step meets the condition on steps. -/
def uncontendedRun (system : System Object Token) :
    List (Event Object Token) → Bool
  | [] => true
  | event :: events =>
      uncontended system event &&
        match step system event with
        | none => true
        | some next => uncontendedRun next events

/-- A begin step adds the objects of the request, and nothing else is added
by any step. -/
theorem holds_step {system next : System Object Token}
    {event : Event Object Token} (invariant : Invariant system)
    (stepped : step system event = some next)
    {thread : Token} {object : Object} (held : Holds next thread object) :
    Holds system thread object ∨
      ∃ request outer, event = .beginLocking thread ∧
        system.requests thread = request :: outer ∧
          object ∈ request.objects := by
  obtain ⟨request, inStack, holding, named⟩ := held
  obtain ⟨blocks, linked⟩ := invariant
  cases event with
  | enterObject entering locked =>
      simp only [step] at stepped
      split at stepped
      · cases stepped
        left
        by_cases same : thread = entering
        · subst same
          simp only [System.push, Function.update_self, List.mem_cons]
            at inStack
          rcases inStack with rfl | old
          · exact absurd holding (by simp)
          · exact ⟨request, old, holding, named⟩
        · simp only [System.push, Function.update_of_ne same] at inStack
          exact ⟨request, inStack, holding, named⟩
      · exact absurd stepped (by simp)
  | enterMultiple entering locked =>
      simp only [step] at stepped
      split at stepped
      · split at stepped
        · cases stepped
          left
          by_cases same : thread = entering
          · subst same
            simp only [System.push, Function.update_self, List.mem_cons]
              at inStack
            rcases inStack with rfl | old
            · exact absurd holding (by simp)
            · exact ⟨request, old, holding, named⟩
          · simp only [System.push, Function.update_of_ne same] at inStack
            exact ⟨request, inStack, holding, named⟩
        · exact absurd stepped (by simp)
      · exact absurd stepped (by simp)
  | beginLocking beginning =>
      simp only [step] at stepped
      split at stepped
      · rename_i pairs hd tl objects outer stack
        rw [linked.begins stack rfl] at stepped
        cases stepped
        rcases mem_withStack_top stack inStack with ⟨rfl, rfl⟩ | ⟨old, -⟩
        · exact Or.inr ⟨_, outer, rfl, stack, named⟩
        · exact Or.inl ⟨request, old, holding, named⟩
      · exact absurd stepped (by simp)
  | abort aborting =>
      simp only [step] at stepped
      split at stepped
      · rename_i pairs hd tl objects outer stack
        cases stepped
        rcases mem_withStack_top stack inStack with ⟨rfl, rfl⟩ | ⟨old, -⟩
        · exact absurd holding (by simp)
        · exact Or.inl ⟨request, old, holding, named⟩
      · exact absurd stepped (by simp)
  | exit exiting =>
      simp only [step] at stepped
      split at stepped
      · rename_i top outer stack
        split at stepped
        · exact absurd stepped (by simp)
        · rename_i ended
          obtain ⟨after, remaining, done, -⟩ := linked.exit stack ended
          rw [done] at stepped
          cases stepped
          left
          rcases mem_withStack.mp inStack with ⟨rfl, below⟩ | ⟨-, old⟩
          · exact ⟨request, by simp [stack, below], holding, named⟩
          · exact ⟨request, old, holding, named⟩
      · exact absurd stepped (by simp)

theorem exclusive_step {system next : System Object Token}
    {event : Event Object Token} (invariant : Invariant system)
    (exclusive : Exclusive system)
    (condition : uncontended system event = true)
    (stepped : step system event = some next) : Exclusive next := by
  obtain ⟨blocks, linked⟩ := invariant
  -- A thread that begins on an object meets no other holder of it.
  have clash : ∀ beginner holder object request outer,
      event = .beginLocking beginner →
      system.requests beginner = request :: outer →
      object ∈ request.objects → Holds system holder object → False := by
    rintro beginner holder object request outer rfl stack named held
    rw [uncontended, stack] at condition
    exact linked.unrecorded_iff.mp condition object named holder
      (linked.recordedFor_iff.mpr held)
  intro left right object leftHolds rightHolds
  rcases holds_step ⟨blocks, linked⟩ stepped leftHolds with
    leftOld | ⟨leftRequest, leftOuter, leftEvent, leftStack, leftNamed⟩ <;>
  rcases holds_step ⟨blocks, linked⟩ stepped rightHolds with
    rightOld | ⟨rightRequest, rightOuter, rightEvent, rightStack, rightNamed⟩
  · exact exclusive left right object leftOld rightOld
  · exact (clash right left object _ _ rightEvent rightStack rightNamed
      leftOld).elim
  · exact (clash left right object _ _ leftEvent leftStack leftNamed
      rightOld).elim
  · rw [leftEvent] at rightEvent
    exact Event.beginLocking.inj rightEvent

theorem exclusive_run {system final : System Object Token}
    {events : List (Event Object Token)} (invariant : Invariant system)
    (exclusive : Exclusive system)
    (condition : uncontendedRun system events = true)
    (ran : run system events = some final) : Exclusive final := by
  induction events generalizing system with
  | nil =>
      cases ran
      exact exclusive
  | cons event events ih =>
      obtain ⟨next, stepped, rest⟩ := Option.bind_eq_some_iff.mp ran
      rw [uncontendedRun, stepped, Bool.and_eq_true] at condition
      exact ih (invariant_step invariant stepped)
        (exclusive_step invariant exclusive condition.1 stepped)
        condition.2 rest

/-- What a begin step should do: complete only when no requested object is
recorded for another thread, and report the objects that the thread has locked
itself. -/
def BeginsExclusively (system : System Object Token) (thread : Token)
    (request : Request Object) : Prop :=
  (∀ data,
    beginLockingMultipleObjects system.data request.hd request.tl thread =
      some (.completed data) →
        ∀ object ∈ request.objects, ∀ other, other ≠ thread →
          ¬RecordedFor system other object) ∧
  (∀ object ∈ request.objects, RecordedFor system thread object →
    (∀ named ∈ request.objects, ∀ other, other ≠ thread →
      ¬RecordedFor system other named) →
        ∃ losers,
          beginLockingMultipleObjects system.data request.hd request.tl
            thread = some (.recursiveLock losers) ∧ object ∈ losers)

theorem Linked.beginsExclusively_iff {system : System Object Token}
    {blocks : List (Token × Request Object)} (linked : Linked system blocks)
    {thread : Token} {request : Request Object}
    {outer : List (Request Object)}
    (stack : system.requests thread = request :: outer)
    (requesting : request.phase = .requesting) :
    BeginsExclusively system thread request ↔
      unrecorded system request = true := by
  rw [linked.unrecorded_iff]
  have completes := linked.begins stack requesting
  constructor
  · rintro ⟨onlyFree, reported⟩ object named other recorded
    have free := onlyFree _ completes
    by_cases same : other = thread
    · subst other
      obtain ⟨losers, outcome, -⟩ := reported object named recorded free
      rw [completes] at outcome
      exact absurd outcome (by simp)
    · exact free object named other same recorded
  · intro clear
    refine ⟨fun _ _ object named other _ => clear object named other, ?_⟩
    intro object named recorded
    exact absurd recorded (clear object named thread)

/-- What an exit step should do: it returns, and takes exactly the cells of
the exiting request, all of them the thread's own, out of the list. -/
def ExitsExactly (system : System Object Token) (thread : Token)
    (request : Request Object) : Prop :=
  ∃ next, step system (.exit thread) = some next ∧
    next.data.recordedPairs =
      system.data.recordedPairs.filter (fun pair => pair ∉ request.pairs) ∧
    (∀ pair ∈ system.data.recordedPairs, pair ∈ request.pairs →
      (system.data.head pair).token = some thread) ∧
    (request.phase = .holding →
      ∀ pair ∈ request.pairs, pair ∈ system.data.recordedPairs)

theorem Linked.exitsExactly {system : System Object Token}
    {blocks : List (Token × Request Object)} (linked : Linked system blocks)
    {thread : Token} {request : Request Object}
    {outer : List (Request Object)}
    (stack : system.requests thread = request :: outer)
    (ended : request.phase ≠ .requesting) :
    ExitsExactly system thread request := by
  have top : request ∈ system.requests thread := by simp [stack]
  obtain ⟨after, remaining, done, linked', filtered⟩ :=
    linked.exit stack ended
  refine ⟨system.withStack thread after outer, ?_, ?_, ?_, ?_⟩
  · simp only [step, stack, ended, if_false, done]
    rfl
  · rw [linked'.records.recordedPairs_eq, linked.records.recordedPairs_eq]
    exact filtered
  · rw [linked.records.recordedPairs_eq]
    intro pair recorded own
    by_cases holding : request.phase = .holding
    · exact linked.tokens thread request top holding pair own
    · exact absurd recorded (linked.top_notMem_recorded stack holding own)
  · rw [linked.records.recordedPairs_eq]
    intro holding pair own
    exact linked.mem_recorded.mpr ⟨thread, request, top, holding, own⟩

/--
In every run, a begin step respects exclusion exactly when none of its objects
is recorded, and an exit removes exactly the exiting thread's cells; in every
run whose begin steps all ask for unrecorded objects, no object is held by two
threads at once.
-/
theorem objectLock_exclusive_of_uncontended [Inhabited Object]
    (events : List (Event Object Token)) (system : System Object Token)
    (ran : run initial events = some system) :
    (uncontendedRun initial events = true → Exclusive system) ∧
    (∀ thread request outer, system.requests thread = request :: outer →
      request.phase = .requesting →
        (BeginsExclusively system thread request ↔
          unrecorded system request = true)) ∧
    (∀ thread request outer, system.requests thread = request :: outer →
      request.phase ≠ .requesting → ExitsExactly system thread request) := by
  obtain ⟨blocks, linked⟩ := invariant_run invariant_initial ran
  refine ⟨?_, ?_, ?_⟩
  · intro condition
    refine exclusive_run invariant_initial ?_ condition ran
    rintro left right object ⟨request, inStack, -⟩
    exact absurd inStack (by simp [initial])
  · intro thread request outer stack requesting
    exact linked.beginsExclusively_iff stack requesting
  · intro thread request outer stack ended
    exact linked.exitsExactly stack ended

/-- A run in which an object passes from one thread to another. -/
theorem objectLock_exclusive_handover :
    ∃ system : System Nat Nat,
      run initial [.enterObject 1 7, .beginLocking 1, .exit 1,
        .enterMultiple 2 [7, 8], .beginLocking 2] = some system ∧
        Holds system 2 7 ∧ Exclusive system := by
  refine ⟨_, rfl, ?_, ?_⟩
  · exact ⟨_, List.mem_cons_self, rfl, by decide⟩
  · exact (objectLock_exclusive_of_uncontended
      [.enterObject 1 7, .beginLocking 1, .exit 1,
        .enterMultiple 2 [7, 8], .beginLocking 2] _ rfl).1 (by decide)

/-- Two threads that lock the same object both come to hold it. -/
theorem objectLock_not_exclusive :
    ¬∀ (events : List (Event Nat Nat)) (system : System Nat Nat),
      run initial events = some system → Exclusive system := by
  intro exclusive
  have both := exclusive
    [.enterObject 1 7, .enterObject 2 7, .beginLocking 1, .beginLocking 2]
    _ rfl 1 2 7
    ⟨_, List.mem_cons_self, rfl, by decide⟩
    ⟨_, List.mem_cons_self, rfl, by decide⟩
  exact absurd both (by decide)

end Condition

end OpenDylan.Runtime.ObjectLock
