import OpenDylan.Runtime.HashTableInvariant

/-!
# Rehashing

A rehash computes the hash codes of all keys anew.  Copying puts the entries
one after the other into an empty vector.  A rehash in place takes an entry out
of its slot, puts it where it belongs, and goes on with the entry that it finds
there, until it comes to a slot without one; bits tell which entries are where
they belong, and the other ones do not stop a search.
-/

namespace OpenDylan.Runtime.HashTable

open OpenDylan.Lib.KeyedMap OpenDylan.Lib.Probing OpenDylan.Lib.SlotVector

section Rehashing

variable {Key Value Heap : Type} {hashing : Hashing Key Heap} {heap : Heap}
  {tv : TableVector Key Value Heap} {state : HashState Key Heap}
  {index : Nat} {key : Key}

/-! ## Putting a key at the end of its chain -/

theorem isStale_merge (fresh : isStale hashing heap state = false)
    (key : Key) :
    isStale hashing heap (mergeHashState state heap key) = false := by
  rw [isStale] at fresh ⊢
  rw [mergeHashState, List.any_cons, fresh, hashing.moved_self]
  rfl

/-- The slots of a vector stay linked when a key is put into an empty slot at
the end of its chain. -/
theorem linked_put {steps : Nat} {value : Entry Value}
    (linked : ∀ place < tv.entryCount, ∀ key,
      tv.entryKeys place = .present key → tv.Linked hashing state place key)
    (empty : tv.entryKeys (tv.chain (hashing.hash heap key) steps) = .empty)
    (used : ∀ earlier < steps,
      tv.entryKeys (tv.chain (hashing.hash heap key) earlier) ≠ .empty) :
    ∀ place < tv.entryCount, ∀ other,
      (tv.set (tv.chain (hashing.hash heap key) steps) (.present key)
        value).entryKeys place = .present other →
      (tv.set (tv.chain (hashing.hash heap key) steps) (.present key)
        value).Linked hashing (mergeHashState state heap key) place other := by
  have kept : ∀ place, tv.entryKeys place ≠ .empty →
      (tv.set (tv.chain (hashing.hash heap key) steps) (.present key)
        value).entryKeys place ≠ .empty := by
    intro place isUsed
    have different : place ≠ tv.chain (hashing.hash heap key) steps := by
      intro same
      rw [same] at isUsed
      exact isUsed empty
    rw [TableVector.set_entryKeys_of_ne different]
    exact isUsed
  intro place inside other holds
  by_cases here : place = tv.chain (hashing.hash heap key) steps
  · rw [here, TableVector.set_entryKeys_self] at holds
    cases holds
    refine ⟨heap, List.mem_cons_self, steps, here.symm, ?_⟩
    intro earlier before
    exact kept _ (used earlier before)
  · rw [TableVector.set_entryKeys_of_ne here] at holds
    exact (linked place inside other holds).mono rfl kept
      fun _ member => List.mem_cons_of_mem _ member

theorem matching_set {value : Entry Value} {entry : Entry Key}
    (matching : ∀ place,
      Matching (tv.entryKeys place) (tv.entryValues place))
    (isMatching : Matching entry value) (index place : Nat) :
    Matching ((tv.set index entry value).entryKeys place)
      ((tv.set index entry value).entryValues place) := by
  simp only [TableVector.set]
  split
  · exact isMatching
  · exact matching place

/-! ## Copying -/

/-- A vector to which entries are copied. -/
structure TableVector.Loading (hashing : Hashing Key Heap) (heap : Heap)
    (dst : TableVector Key Value Heap) (state : HashState Key Heap)
    (count : Nat) : Prop where
  sized : dst.Sized
  limit : dst.additionsLimit = additionsLimitFor dst.entryCount
  matching : ∀ index, Matching (dst.entryKeys index) (dst.entryValues index)
  used : dst.used = count
  counted : dst.entries.length = count
  linked : ∀ index < dst.entryCount, ∀ key,
    dst.entryKeys index = .present key → dst.Linked hashing state index key
  fresh : isStale hashing heap state = false
  deletions : dst.deletions = 0
  valid : dst.rehashing = false

/-- The next entry is put at the end of its chain. -/
theorem TableVector.Loading.put {dst : TableVector Key Value Heap}
    {count steps : Nat} {value : Value}
    (loading : dst.Loading hashing heap state count)
    (empty : dst.entryKeys (dst.chain (hashing.hash heap key) steps) = .empty)
    (used : ∀ earlier < steps,
      dst.entryKeys (dst.chain (hashing.hash heap key) earlier) ≠ .empty) :
    (dst.set (dst.chain (hashing.hash heap key) steps) (.present key)
        (.present value)).Loading hashing heap
          (mergeHashState state heap key) (count + 1) ∧
      (dst.set (dst.chain (hashing.hash heap key) steps) (.present key)
        (.present value)).entries.Perm ((key, value) :: dst.entries) := by
  have inside := loading.sized.chain_lt (hashing.hash heap key) steps
  have free : dst.entryAt (dst.chain (hashing.hash heap key) steps) =
      none := by
    rw [TableVector.entryAt, empty]
    rfl
  have more : (dst.set (dst.chain (hashing.hash heap key) steps)
      (.present key) (.present value)).entries.Perm
        ((key, value) :: dst.entries) :=
    TableVector.entries_put inside free
  refine ⟨?_, more⟩
  exact
    { sized := ⟨loading.sized.member, loading.sized.enough⟩
      limit := loading.limit
      matching := matching_set loading.matching .present _
      used := by
        rw [TableVector.used_put inside empty (by simp), loading.used]
      counted := by
        rw [more.length_eq, List.length_cons, loading.counted]
      linked := linked_put loading.linked empty used
      fresh := isStale_merge loading.fresh key
      deletions := loading.deletions
      valid := loading.valid }

/-- The search for a key that is not in the vector ends in an empty slot. -/
theorem TableVector.Loading.search_absent {dst : TableVector Key Value Heap}
    {count : Nat} (loading : dst.Loading hashing heap state count)
    (room : count < dst.additionsLimit)
    (absent : ∀ entry ∈ dst.entries, hashing.same key entry.1 = false) :
    ∃ steps, dst.search hashing key (hashing.hash heap key) =
        some (dst.chain (hashing.hash heap key) steps,
          dst.entryKeys (dst.chain (hashing.hash heap key) steps)) ∧
      dst.entryKeys (dst.chain (hashing.hash heap key) steps) = .empty ∧
      ∀ earlier < steps,
        dst.entryKeys (dst.chain (hashing.hash heap key) earlier) ≠ .empty := by
  have space : dst.used < dst.entryCount := by
    have limit := additionsLimitFor_lt loading.sized.enough
    rw [loading.limit] at room
    rw [loading.used]
    exact Nat.lt_trans room limit
  obtain ⟨free, inside, empty⟩ := TableVector.exists_empty_of_used space
  obtain ⟨steps, found, used, ends⟩ := loading.sized.search inside empty
    hashing key (hashing.hash heap key)
  refine ⟨steps, found, ?_, used⟩
  rcases ends with ⟨isEmpty, -⟩ | ⟨tableKey, holds, same⟩
  · exact isEmpty
  · obtain ⟨tableValue, isValue⟩ :=
      Matching.value (holds ▸ loading.matching
        (dst.chain (hashing.hash heap key) steps))
    have member : (tableKey, tableValue) ∈ dst.entries :=
      TableVector.mem_entries.mpr
        ⟨_, loading.sized.chain_lt (hashing.hash heap key) steps, holds,
          isValue⟩
    have different := absent _ member
    rw [same] at different
    cases different

/-- Entries that are different from those in a vector and for which there is
room are copied to it. -/
theorem copyEntries_spec {src dst : TableVector Key Value Heap}
    {count : Nat} (loading : dst.Loading hashing heap state count)
    (matching : ∀ place,
      Matching (src.entryKeys place) (src.entryValues place))
    (distinct : Distinct hashing.toKeyTest
      (dst.entries ++ contents src.entryAt index))
    (room : count + (contents src.entryAt index).length ≤
      dst.additionsLimit) :
    ∃ new, copyEntries hashing heap src index dst state count = some new ∧
      new.Sound hashing ∧ isStale hashing heap new.hashState = false ∧
      new.entries.Perm (dst.entries ++ contents src.entryAt index) ∧
      new.deletions = 0 ∧ new.additionsLimit = dst.additionsLimit := by
  induction index generalizing dst state count with
  | zero =>
      rw [contents_zero, List.append_nil] at distinct ⊢
      rw [contents_zero, List.length_nil, Nat.add_zero] at room
      refine ⟨_, rfl, ?_, loading.fresh, List.Perm.refl _, loading.deletions,
        rfl⟩
      exact
        { sized := ⟨loading.sized.member, loading.sized.enough⟩
          limit := loading.limit
          matching := loading.matching
          used := loading.used
          counted := by
            show count = dst.deletions + dst.entries.length
            rw [loading.deletions, Nat.zero_add, loading.counted]
          room := room
          distinct := distinct
          linked := loading.linked
          valid := loading.valid }
  | succ index ih =>
      have paired := matching index
      rw [contents_succ] at distinct room ⊢
      rw [copyEntries]
      generalize isKey : src.entryKeys index = key,
        isValue : src.entryValues index = value at paired ⊢
      have entry : src.entryAt index = entryOf key value := by
        rw [TableVector.entryAt, isKey, isValue]
      rw [entry] at distinct room ⊢
      cases paired with
      | empty =>
          simp only [entryOf, Option.toList_none, List.append_nil]
            at distinct room ⊢
          exact ih loading distinct room
      | deleted =>
          simp only [entryOf, Option.toList_none, List.append_nil]
            at distinct room ⊢
          exact ih loading distinct room
      | @present key value =>
          simp only [entryOf, Option.toList_some, List.length_append,
            List.length_singleton] at distinct room ⊢
          have last : (dst.entries ++ (contents src.entryAt index ++
              [(key, value)])).Perm ((key, value) :: (dst.entries ++
                contents src.entryAt index)) := by
            rw [← List.append_assoc]
            exact List.perm_append_comm
          have apart := distinct.perm last
          have space : count < dst.additionsLimit := by omega
          obtain ⟨steps, found, isEmpty, used⟩ :=
            loading.search_absent space fun entry member =>
              List.rel_of_pairwise_cons apart (List.mem_append_left _ member)
          obtain ⟨put, more⟩ := @TableVector.Loading.put Key Value Heap
            hashing heap state key dst count steps value loading isEmpty used
          have shifted : ((dst.set (dst.chain (hashing.hash heap key) steps)
              (.present key) (.present value)).entries ++
                contents src.entryAt index).Perm
              (dst.entries ++ (contents src.entryAt index ++
                [(key, value)])) :=
            (more.append_right _).trans last.symm
          obtain ⟨new, copied, sound, fresh, entries, deletions, isLimit⟩ :=
            ih put (distinct.perm shifted.symm) (by
              show count + 1 + _ ≤ dst.additionsLimit
              omega)
          refine ⟨new, ?_, sound, fresh, entries.trans shifted, deletions,
            isLimit⟩
          rw [found]
          exact copied

/-! ## Rehashing in place -/

/-- The slots of the entries that are where they belong, as items. -/
def InPlace.placedAt (run : InPlace Key Value Heap) (index : Nat) :
    Option Unit :=
  if run.bits index then some () else none

/-- A rehash in place that has come down to an index: the entries with a bit
are in the chains of their keys behind entries with a bit, and from the index
on there are no others. -/
structure InPlace.Going (hashing : Hashing Key Heap) (heap : Heap)
    (index : Nat) (run : InPlace Key Value Heap) : Prop where
  sized : run.tv.Sized
  matching : ∀ place,
    Matching (run.tv.entryKeys place) (run.tv.entryValues place)
  counted : run.count = (contents run.placedAt run.tv.entryCount).length
  placed : ∀ place, run.bits place = true →
    ∃ key, run.tv.entryKeys place = .present key ∧ (heap, key) ∈ run.state ∧
      ∃ steps, run.tv.chain (hashing.hash heap key) steps = place ∧
        ∀ earlier < steps,
          run.bits (run.tv.chain (hashing.hash heap key) earlier) = true
  done : ∀ place, index ≤ place → place < run.tv.entryCount →
    run.bits place = true ∨ run.tv.entryKeys place = .empty
  fresh : isStale hashing heap run.state = false

/-- What a rehash in place does not change. -/
structure InPlace.Keeps (run later : InPlace Key Value Heap) : Prop where
  entryCount : later.tv.entryCount = run.tv.entryCount
  additionsLimit : later.tv.additionsLimit = run.tv.additionsLimit

section InPlace

variable {run : InPlace Key Value Heap} {value : Value}

/-- An entry is exchanged for the one in the slot where it belongs. -/
theorem entries_exchange {entry : Entry Key} {item : Entry Value}
    (inside : index < tv.entryCount) :
    ((tv.entryAt index).toList ++ (tv.set index entry item).entries).Perm
      ((entryOf entry item).toList ++ tv.entries) := by
  have exchange := @contents_exchange _ tv.entryAt
    (tv.set index entry item).entryAt tv.entryCount index inside
    fun _ different => TableVector.set_entryAt_of_ne different
  rwa [TableVector.set_entryAt_self] at exchange

/-- The slot where an entry belongs has no bit, and those before it have. -/
theorem InPlace.Going.find (going : run.Going hashing heap index)
    {hole : Nat} (inside : hole < run.tv.entryCount)
    (empty : run.tv.entryKeys hole = .empty) (key : Key) :
    ∃ steps, run.tv.findRehashInsertionPoint (hashing.hash heap key)
        run.bits = some (run.tv.chain (hashing.hash heap key) steps) ∧
      run.bits (run.tv.chain (hashing.hash heap key) steps) = false ∧
      ∀ earlier < steps,
        run.bits (run.tv.chain (hashing.hash heap key) earlier) = true := by
  have stops : run.tv.takesRehashed run.bits hole = true := by
    rw [TableVector.takesRehashed, empty]
  obtain ⟨steps, takes, passes, found⟩ :=
    going.sized.exists_probe inside stops (hashing.hash heap key)
  refine ⟨steps, found, ?_, ?_⟩
  · rw [Bool.eq_false_iff]
    intro isPlaced
    obtain ⟨other, holds, -⟩ := going.placed _ isPlaced
    rw [TableVector.takesRehashed, holds] at takes
    simp only [isPlaced] at takes
    cases takes
  · intro earlier before
    have passed := passes earlier before
    rw [TableVector.takesRehashed] at passed
    split at passed
    · cases passed
    · cases passed
    · simpa using passed

/-- An entry is put where it belongs. -/
theorem InPlace.Going.put (going : run.Going hashing heap index)
    {steps : Nat}
    (free : run.bits (run.tv.chain (hashing.hash heap key) steps) = false)
    (before : ∀ earlier < steps,
      run.bits (run.tv.chain (hashing.hash heap key) earlier) = true) :
    (run.put heap (run.tv.chain (hashing.hash heap key) steps) key
      (.present value)).Going hashing heap index := by
  have inside := going.sized.chain_lt (hashing.hash heap key) steps
  have kept : ∀ place, run.bits place = true →
      (run.put heap (run.tv.chain (hashing.hash heap key) steps) key
        (.present value)).bits place = true := by
    intro place isPlaced
    simp only [InPlace.put]
    split
    · rfl
    · exact isPlaced
  refine ⟨⟨going.sized.member, going.sized.enough⟩,
    matching_set going.matching .present _, ?_, ?_, ?_,
    isStale_merge going.fresh key⟩
  · have more := @contents_fill Unit run.placedAt
      (run.put heap (run.tv.chain (hashing.hash heap key) steps) key
        (.present value)).placedAt run.tv.entryCount _ () inside
      (by rw [InPlace.placedAt, free]; rfl)
      (by simp only [InPlace.placedAt, InPlace.put, if_pos])
      (fun place different => by
        simp only [InPlace.placedAt, InPlace.put, if_neg different])
    show run.count + 1 = _
    rw [going.counted]
    exact more.length_eq.symm
  · intro place isPlaced
    by_cases here : place = run.tv.chain (hashing.hash heap key) steps
    · refine ⟨key, ?_, List.mem_cons_self, steps, here.symm, ?_⟩
      · rw [here]
        exact TableVector.set_entryKeys_self
      · intro earlier isBefore
        exact kept _ (before earlier isBefore)
    · have already : run.bits place = true := by
        simpa only [InPlace.put, if_neg here] using isPlaced
      obtain ⟨other, holds, recorded, places, isPlace, others⟩ :=
        going.placed place already
      refine ⟨other, ?_, List.mem_cons_of_mem _ recorded, places, isPlace, ?_⟩
      · rw [← holds]
        exact TableVector.set_entryKeys_of_ne here
      · intro earlier isBefore
        exact kept _ (others earlier isBefore)
  · intro place late isSlot
    by_cases here : place = run.tv.chain (hashing.hash heap key) steps
    · left
      simp only [InPlace.put, if_pos here]
    · rcases going.done place late isSlot with isPlaced | empty
      · exact Or.inl (kept place isPlaced)
      · right
        rw [← empty]
        exact TableVector.set_entryKeys_of_ne here

/-- Going on from an entry ends in a slot without one, and the entry and all
that were found on the way are in the vector. -/
theorem storeNext_spec {fuel : Nat} {entry : Entry Key} {item : Entry Value}
    (going : run.Going hashing heap index)
    (matching : Matching entry item)
    (hole : entry ≠ .empty → entry ≠ .deleted → ∃ hole < run.tv.entryCount,
      run.tv.entryKeys hole = .empty)
    (enough : run.tv.entryCount < run.count + fuel) :
    ∃ later, storeNext hashing heap fuel entry item run = some later ∧
      later.Going hashing heap index ∧ run.Keeps later ∧
      later.tv.entries.Perm ((entryOf entry item).toList ++
        run.tv.entries) := by
  induction fuel generalizing entry item run with
  | zero =>
      have bound : run.count ≤ run.tv.entryCount := by
        rw [going.counted]
        exact contents_length_le
      omega
  | succ fuel ih =>
      cases matching with
      | empty => exact ⟨run, rfl, going, ⟨rfl, rfl⟩, List.Perm.refl _⟩
      | deleted => exact ⟨run, rfl, going, ⟨rfl, rfl⟩, List.Perm.refl _⟩
      | @present key value =>
          obtain ⟨place, inside, empty⟩ := hole (by simp) (by simp)
          obtain ⟨steps, found, free, before⟩ := going.find inside empty key
          have isSlot := going.sized.chain_lt (hashing.hash heap key) steps
          have put := @InPlace.Going.put Key Value Heap hashing heap index key
            run value going steps free before
          -- When another entry is found, the hole is a different slot.
          have remains : run.tv.entryKeys
              (run.tv.chain (hashing.hash heap key) steps) ≠ .empty →
                (run.tv.set (run.tv.chain (hashing.hash heap key) steps)
                  (.present key) (.present value)).entryKeys place =
                    .empty := by
            intro isUsed
            have different : place ≠
                run.tv.chain (hashing.hash heap key) steps := by
              intro same
              rw [← same] at isUsed
              exact isUsed empty
            rw [TableVector.set_entryKeys_of_ne different]
            exact empty
          obtain ⟨later, stored, goes, keeps, entries⟩ := ih put
            (going.matching (run.tv.chain (hashing.hash heap key) steps))
            (fun isUsed _ => ⟨place, inside, remains isUsed⟩)
            (by
              show run.tv.entryCount < run.count + 1 + fuel
              omega)
          refine ⟨later, ?_, goes,
            ⟨keeps.entryCount, keeps.additionsLimit⟩, ?_⟩
          · rw [storeNext, found]
            exact stored
          · exact entries.trans (entries_exchange isSlot)

/-- An entry without a bit is taken out of its slot. -/
theorem InPlace.Going.takeOut (going : run.Going hashing heap (index + 1))
    (free : run.bits index = false) :
    InPlace.Going hashing heap index
      { run with tv := run.tv.set index .empty .empty } := by
  refine ⟨⟨going.sized.member, going.sized.enough⟩,
    matching_set going.matching .empty _, going.counted, ?_, ?_, going.fresh⟩
  · intro place isPlaced
    have different : place ≠ index := by
      intro same
      rw [same, free] at isPlaced
      cases isPlaced
    obtain ⟨key, holds, linked⟩ := going.placed place isPlaced
    refine ⟨key, ?_, linked⟩
    rw [← holds]
    exact TableVector.set_entryKeys_of_ne different
  · intro place late isSlot
    by_cases here : place = index
    · right
      rw [here]
      exact TableVector.set_entryKeys_self
    · rcases going.done place (by omega) isSlot with isPlaced | empty
      · exact Or.inl isPlaced
      · right
        rw [← empty]
        exact TableVector.set_entryKeys_of_ne here

/-- All entries come to where they belong. -/
theorem rehashInPlaceLoop_spec (going : run.Going hashing heap index)
    (bound : index ≤ run.tv.entryCount) :
    ∃ later, rehashInPlaceLoop hashing heap index run = some later ∧
      later.Going hashing heap 0 ∧ run.Keeps later ∧
      later.tv.entries.Perm run.tv.entries := by
  induction index generalizing run with
  | zero => exact ⟨run, rfl, going, ⟨rfl, rfl⟩, List.Perm.refl _⟩
  | succ index ih =>
      rw [rehashInPlaceLoop]
      cases isPlaced : run.bits index with
      | true =>
          rw [if_pos rfl]
          have down : run.Going hashing heap index := by
            refine ⟨going.sized, going.matching, going.counted, going.placed,
              ?_, going.fresh⟩
            intro place late isSlot
            by_cases here : place = index
            · rw [here]
              exact Or.inl isPlaced
            · exact going.done place (by omega) isSlot
          exact ih down (Nat.le_of_succ_le bound)
      | false =>
          rw [if_neg Bool.false_ne_true]
          have isSlot : index < run.tv.entryCount := bound
          have room : run.count ≤ run.tv.entryCount := by
            rw [going.counted]
            exact contents_length_le
          obtain ⟨middle, stored, goes, keeps, entries⟩ :=
            @storeNext_spec Key Value Heap hashing heap index
              { run with tv := run.tv.set index .empty .empty }
              (run.tv.entryCount + 1) (run.tv.entryKeys index)
              (run.tv.entryValues index) (going.takeOut isPlaced)
              (going.matching index)
              (fun _ _ => ⟨index, isSlot, TableVector.set_entryKeys_self⟩)
              (by
                show run.tv.entryCount < run.count + (run.tv.entryCount + 1)
                omega)
          have count : middle.tv.entryCount = run.tv.entryCount :=
            keeps.entryCount
          obtain ⟨later, looped, arrives, more, others⟩ := ih goes (by omega)
          have taken := @entries_exchange Key Value Heap run.tv index .empty
            .empty isSlot
          refine ⟨later, ?_, arrives, ⟨more.entryCount.trans count,
            more.additionsLimit.trans keeps.additionsLimit⟩,
            others.trans (entries.trans taken)⟩
          rw [stored]
          exact looped

/-- A rehash in place begins without bits. -/
theorem InPlace.Going.begin (sized : tv.Sized)
    (matching : ∀ place,
      Matching (tv.entryKeys place) (tv.entryValues place)) :
    InPlace.Going hashing heap tv.entryCount
      { tv := tv, bits := fun _ => false, count := 0, state := [] } := by
  refine ⟨sized, matching, ?_, ?_, ?_, rfl⟩
  · have noBits : contents (fun _ : Nat => (none : Option Unit))
        tv.entryCount = [] := contents_eq_nil fun _ _ => rfl
    exact (congrArg List.length noBits).symm
  · intro place isPlaced
    cases isPlaced
  · intro place late isSlot
    exact absurd isSlot (Nat.not_lt_of_le late)

/-- At the end the slots with a bit are those that are used, and they hold the
entries. -/
theorem InPlace.Going.slot (going : run.Going hashing heap 0) {place : Nat}
    (isSlot : place < run.tv.entryCount) :
    (run.tv.entryAt place).isSome = (run.placedAt place).isSome ∧
      (usedOf (run.tv.entryKeys place)).isSome =
        (run.placedAt place).isSome := by
  rcases going.done place (Nat.zero_le place) isSlot with isPlaced | empty
  · obtain ⟨key, holds, -⟩ := going.placed place isPlaced
    obtain ⟨item, isValue⟩ := Matching.value (holds ▸ going.matching place)
    rw [TableVector.entryAt, InPlace.placedAt, holds, isValue, isPlaced]
    exact ⟨rfl, rfl⟩
  · have noBit : run.bits place = false := by
      rw [Bool.eq_false_iff]
      intro isPlaced
      obtain ⟨key, holds, -⟩ := going.placed place isPlaced
      rw [empty] at holds
      cases holds
    rw [TableVector.entryAt, InPlace.placedAt, empty, noBit]
    exact ⟨rfl, rfl⟩

theorem InPlace.Going.size (going : run.Going hashing heap 0) :
    run.tv.entries.length = run.count := by
  rw [going.counted]
  exact contents_length_congr fun place isSlot => (going.slot isSlot).1

theorem InPlace.Going.used (going : run.Going hashing heap 0) :
    run.tv.used = run.count := by
  rw [going.counted]
  exact contents_length_congr fun place isSlot => (going.slot isSlot).2

/-- A rehash in place of a vector, which may be marked. -/
theorem rehashInPlace_spec (sized : tv.Sized)
    (limit : tv.additionsLimit = additionsLimitFor tv.entryCount)
    (matching : ∀ place,
      Matching (tv.entryKeys place) (tv.entryValues place))
    (distinct : Distinct hashing.toKeyTest tv.entries)
    (room : tv.entries.length ≤ tv.additionsLimit) :
    ∃ new, rehashInPlace hashing heap tv = some new ∧
      new.Sound hashing ∧ isStale hashing heap new.hashState = false ∧
      new.entries.Perm tv.entries ∧ new.deletions = 0 ∧
      new.additionsLimit = tv.additionsLimit := by
  have begun := @InPlace.Going.begin Key Value Heap hashing heap tv sized
    matching
  obtain ⟨later, looped, going, keeps, entries⟩ :=
    rehashInPlaceLoop_spec begun (Nat.le_refl _)
  rw [rehashInPlace, looped, Option.map_some]
  refine ⟨_, rfl, ?_, going.fresh, entries, rfl, keeps.additionsLimit⟩
  exact
    { sized := ⟨going.sized.member, going.sized.enough⟩
      limit := by
        show later.tv.additionsLimit = additionsLimitFor later.tv.entryCount
        rw [keeps.additionsLimit, keeps.entryCount]
        exact limit
      matching := going.matching
      used := going.used
      counted := by
        show later.count = 0 + later.tv.entries.length
        rw [going.size, Nat.zero_add]
      room := by
        show later.count ≤ later.tv.additionsLimit
        rw [← going.size, entries.length_eq, keeps.additionsLimit]
        exact room
      distinct := distinct.perm entries.symm
      linked := by
        intro place isSlot key holds
        rcases going.done place (Nat.zero_le place) isSlot with
          isPlaced | empty
        · obtain ⟨other, isOther, recorded, steps, isPlace, others⟩ :=
            going.placed place isPlaced
          have holds : later.tv.entryKeys place = .present key := holds
          rw [holds] at isOther
          cases isOther
          refine ⟨heap, recorded, steps, isPlace, ?_⟩
          intro earlier before empty
          obtain ⟨another, isAnother, -⟩ :=
            going.placed _ (others earlier before)
          have isEmpty : later.tv.entryKeys (later.tv.chain
              (hashing.hash heap key) earlier) = .empty := empty
          rw [isAnother] at isEmpty
          cases isEmpty
        · have holds : later.tv.entryKeys place = .present key := holds
          rw [holds] at empty
          cases empty
      valid := rfl }

end InPlace

/-! ## Tables -/

/-- A new vector has no entries. -/
theorem makeTableVector_spec {desired : Int}
    {new : TableVector Key Value Heap}
    (made : makeTableVector desired = some new) :
    new.Loading hashing heap [] 0 ∧ new.hashState = [] ∧
      new.additions = 0 ∧ new.entries = [] ∧
      desired.toNat < new.additionsLimit := by
  rw [makeTableVector, Option.map_eq_some_iff] at made
  obtain ⟨count, computed, rfl⟩ := made
  obtain ⟨member, enough, fits⟩ := computeEntryCount_spec computed
  have noEntries : contents (fun _ : Nat => (none : Option (Key × Value)))
      count = [] := contents_eq_nil fun _ _ => rfl
  have noneUsed : contents (fun _ : Nat => (none : Option Unit)) count = [] :=
    contents_eq_nil fun _ _ => rfl
  refine ⟨?_, rfl, rfl, noEntries,
    lt_additionsLimitFor (entryCounts_prime member enough) enough fits⟩
  exact
    { sized := ⟨member, enough⟩
      limit := rfl
      matching := fun _ => .empty
      used := congrArg List.length noneUsed
      counted := congrArg List.length noEntries
      linked := by
        intro place isSlot key holds
        cases holds
      fresh := rfl
      deletions := rfl
      valid := rfl }

theorem TableVector.Loading.sound {dst : TableVector Key Value Heap}
    (loading : dst.Loading hashing heap [] 0)
    (state : dst.hashState = []) (none : dst.additions = 0)
    (entries : dst.entries = []) : dst.Sound hashing where
  sized := loading.sized
  limit := loading.limit
  matching := loading.matching
  used := loading.used.trans none.symm
  counted := by
    rw [none, entries, loading.deletions]
    rfl
  room := by
    rw [none]
    exact Nat.zero_le _
  distinct := by
    rw [entries]
    exact List.Pairwise.nil
  linked := by
    rw [state]
    exact loading.linked
  valid := loading.valid

end Rehashing

end OpenDylan.Runtime.HashTable
