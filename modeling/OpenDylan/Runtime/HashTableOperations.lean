import OpenDylan.Runtime.HashTableRehashing

/-!
# Operations on tables

An operation whose vector is in order does what it is for at once, or after a
rehash at its second attempt: storing and removing change the entries as they
change a finite map, and looking up reads them so.
-/

namespace OpenDylan.Runtime.HashTable

open OpenDylan.Lib.KeyedMap OpenDylan.Lib.Probing OpenDylan.Lib.SlotVector

section Operations

variable {Key Value Heap : Type} {hashing : Hashing Key Heap} {heap : Heap}
  {tv : TableVector Key Value Heap} {table : Table Key Value Heap} {key : Key}

/-- A rehash can be done in place, or the size it asks for is possible. -/
def Table.canRehash (table : Table Key Value Heap) (grow : Bool) : Bool :=
  (!grow && table.tableVector.inPlaceRehashable) ||
    (table.rehashEntryCount grow).any fun desired =>
      (computeEntryCount desired).isSome

/-- The search for a key misses it. -/
def TableVector.misses (hashing : Hashing Key Heap) (heap : Heap)
    (tv : TableVector Key Value Heap) (key : Key) : Bool :=
  match tv.search hashing key (hashing.hash heap key) with
  | some (_, .empty) => true
  | _ => false

/-- How a search ends: in the slot of the key, or in an empty one. -/
inductive TableVector.Searched (hashing : Hashing Key Heap) (heap : Heap)
    (tv : TableVector Key Value Heap) (key : Key) :
    Option (Nat × Entry Key) → Prop where
  | found {index : Nat} {tableKey : Key} {value : Value}
      (inside : index < tv.entryCount)
      (holds : tv.entryKeys index = .present tableKey)
      (isValue : tv.entryValues index = .present value)
      (same : hashing.same key tableKey = true) :
      TableVector.Searched hashing heap tv key
        (some (index, .present tableKey))
  | missed {steps : Nat}
      (empty : tv.entryKeys (tv.chain (hashing.hash heap key) steps) = .empty)
      (used : ∀ earlier < steps,
        tv.entryKeys (tv.chain (hashing.hash heap key) earlier) ≠ .empty)
      (absent : isStale hashing heap tv.hashState = false →
        ∀ entry ∈ tv.entries, hashing.same key entry.1 = false) :
      TableVector.Searched hashing heap tv key
        (some (tv.chain (hashing.hash heap key) steps, .empty))

theorem TableVector.Sound.searched (sound : tv.Sound hashing) (heap : Heap)
    (key : Key) :
    tv.Searched hashing heap key
      (tv.search hashing key (hashing.hash heap key)) := by
  obtain ⟨free, inside, empty⟩ := sound.exists_empty
  obtain ⟨steps, found, used, ends⟩ := sound.sized.search inside empty
    hashing key (hashing.hash heap key)
  rw [found]
  rcases ends with ⟨isEmpty, passes⟩ | ⟨tableKey, holds, same⟩
  · rw [isEmpty]
    refine .missed isEmpty used fun fresh entry member => ?_
    obtain ⟨index, isSlot, holds, -⟩ := TableVector.mem_entries.mp member
    exact (sound.linked index isSlot entry.1 holds).not_missed fresh holds
      isEmpty passes
  · obtain ⟨value, isValue⟩ := Matching.value (holds ▸ sound.matching
      (tv.chain (hashing.hash heap key) steps))
    rw [holds]
    exact .found (sound.sized.chain_lt _ steps) holds isValue same

/-- A vector that holds an entry maps its key to its value. -/
theorem TableVector.Sound.lookup_found (sound : tv.Sound hashing)
    {index : Nat} {tableKey : Key} {value : Value}
    (inside : index < tv.entryCount)
    (holds : tv.entryKeys index = .present tableKey)
    (isValue : tv.entryValues index = .present value)
    (same : hashing.same key tableKey = true) :
    lookup hashing.toKeyTest key tv.entries = some value :=
  lookup_of_mem sound.distinct
    (TableVector.mem_entries.mpr ⟨index, inside, holds, isValue⟩) same

/-- Another hash state that records more. -/
theorem TableVector.Sound.merge (sound : tv.Sound hashing) (heap : Heap)
    (key : Key) :
    TableVector.Sound hashing
      { tv with hashState := mergeHashState tv.hashState heap key } where
  sized := ⟨sound.sized.member, sound.sized.enough⟩
  limit := sound.limit
  matching := sound.matching
  used := sound.used
  counted := sound.counted
  room := sound.room
  distinct := sound.distinct
  linked index inside key holds :=
    (sound.linked index inside key holds).mono rfl (fun _ isUsed => isUsed)
      fun _ member => List.mem_cons_of_mem _ member
  valid := sound.valid

/-- A vector after a rehash. -/
structure TableVector.Rehashed (hashing : Hashing Key Heap) (heap : Heap)
    (tv new : TableVector Key Value Heap) : Prop where
  sound : new.Sound hashing
  fresh : isStale hashing heap new.hashState = false
  entries : new.entries.Perm tv.entries

/-- A possible rehash keeps the entries, and leaves room if there was some, if
it was to grow or if it was not done in place. -/
theorem rehashTable_spec (sound : table.tableVector.Sound hashing)
    {grow : Bool} (possible : table.canRehash grow = true) :
    ∃ new, rehashTable hashing heap table grow =
        some (.ok (), { table with tableVector := new }) ∧
      table.tableVector.Rehashed hashing heap new ∧
      (table.tableVector.full = grow ∨
        table.tableVector.inPlaceRehashable = false → new.full = false) := by
  have size : table.tableVector.presentEntryCount =
      table.tableVector.entries.length := by
    rw [TableVector.presentEntryCount, sound.counted, Nat.add_sub_cancel_left]
  have bound : table.tableVector.entries.length ≤
      table.tableVector.additions := by
    rw [sound.counted]
    exact Nat.le_add_left _ _
  rw [rehashTable]
  simp only
  by_cases inPlace : (!grow && table.tableVector.inPlaceRehashable) = true
  · have marked : ({ table.tableVector with rehashing := true } :
        TableVector Key Value Heap).inPlaceRehashable =
          table.tableVector.inPlaceRehashable := rfl
    rw [marked, if_pos inPlace]
    obtain ⟨new, rehashed, isSound, fresh, entries, deletions, limit⟩ :=
      @rehashInPlace_spec Key Value Heap hashing heap
        { table.tableVector with rehashing := true }
        ⟨sound.sized.member, sound.sized.enough⟩ sound.limit sound.matching
        sound.distinct (Nat.le_trans bound sound.room)
    refine ⟨new, ?_, ⟨isSound, fresh, entries⟩, ?_⟩
    · rw [rehashed]
      rfl
    · intro either
      rw [Bool.and_eq_true, Bool.not_eq_true'] at inPlace
      obtain ⟨noGrowth, possible⟩ := inPlace
      have isFull : table.tableVector.full = false := by
        rcases either with same | punted
        · rw [same, noGrowth]
        · rw [possible] at punted
          cases punted
      rw [TableVector.full, decide_eq_false_iff_not] at isFull ⊢
      have length : new.entries.length = table.tableVector.entries.length :=
        entries.length_eq
      have limit : new.additionsLimit = table.tableVector.additionsLimit :=
        limit
      rw [isSound.counted, deletions, length, limit]
      omega
  · have marked : ({ table.tableVector with rehashing := true } :
        TableVector Key Value Heap).inPlaceRehashable =
          table.tableVector.inPlaceRehashable := rfl
    rw [marked, if_neg inPlace]
    rw [Table.canRehash, Bool.or_eq_true, or_iff_right inPlace,
      Option.any_eq_true] at possible
    obtain ⟨desired, asked, fits⟩ := possible
    obtain ⟨count, computed⟩ := Option.isSome_iff_exists.mp fits
    have made : ∃ dst : TableVector Key Value Heap,
        makeTableVector desired = some dst := by
      rw [makeTableVector, computed]
      exact ⟨_, rfl⟩
    obtain ⟨dst, made⟩ := made
    obtain ⟨loading, state, -, noEntries, isLimit⟩ :=
      @makeTableVector_spec Key Value Heap hashing heap desired dst made
    have enough : table.tableVector.entries.length ≤ desired.toNat := by
      rw [Table.rehashEntryCount, size] at asked
      split at asked
      · cases asked
        omega
      · rw [Option.map_eq_some_iff] at asked
        obtain ⟨new, -, rfl⟩ := asked
        omega
    have room : 0 + (contents table.tableVector.entryAt
        table.tableVector.entryCount).length ≤ dst.additionsLimit := by
      rw [Nat.zero_add]
      exact Nat.le_of_lt (Nat.lt_of_le_of_lt enough isLimit)
    obtain ⟨new, copied, isSound, fresh, entries, deletions, limit⟩ :=
      @copyEntries_spec Key Value Heap hashing heap [] _
        { table.tableVector with rehashing := true } dst 0 loading
        sound.matching (by
          rw [noEntries, List.nil_append]
          exact sound.distinct) room
    rw [noEntries, List.nil_append] at entries
    refine ⟨new, ?_, ⟨isSound, fresh, entries⟩, ?_⟩
    · rw [asked]
      simp only
      rw [made]
      simp only
      rw [rehashIntoCopy, state, copied]
      rfl
    · intro _
      have length : new.entries.length = table.tableVector.entries.length :=
        entries.length_eq
      rw [TableVector.full, decide_eq_false_iff_not, isSound.counted,
        deletions, length, limit]
      omega

theorem TableVector.Sound.needsRehash (sound : tv.Sound hashing) :
    tv.needsRehash hashing heap = isStale hashing heap tv.hashState := by
  rw [TableVector.needsRehash, TableVector.rehashTokenValid, sound.valid]
  rfl

/-- What `element` answers for some entries. -/
def elementResult (hashing : Hashing Key Heap) (key : Key)
    (default : Entry Value) (entries : List (Key × Value)) :
    Except TableError (Entry Value) :=
  match lookup hashing.toKeyTest key entries with
  | some value => .ok (.present value)
  | none => missing default

/-- A vector that misses the key only when it is not stale needs no second
attempt. -/
theorem gethash_settled (sound : table.tableVector.Sound hashing)
    (settled : table.tableVector.misses hashing heap key = true →
      isStale hashing heap table.tableVector.hashState = false)
    (default : Entry Value) (attempts : Nat) :
    gethash hashing heap key default (attempts + 1) table =
      some (elementResult hashing key default table.tableVector.entries,
        table) := by
  have searched := sound.searched heap key
  rw [TableVector.misses] at settled
  rw [gethash]
  generalize table.tableVector.search hashing key (hashing.hash heap key) =
    result at searched settled ⊢
  cases searched with
  | found inside holds isValue same =>
      simp only [TableVector.rehashTokenValid, sound.valid, isValue,
        tableEntryDeleted, elementResult,
        sound.lookup_found inside holds isValue same]
      rfl
  | missed empty used absent =>
      have fresh := settled rfl
      have none := lookup_eq_none.mpr (absent fresh)
      simp only [sound.needsRehash, fresh, elementResult, none]
      rfl

/-- An operation does not return at once: the vector is stale. -/
theorem gethash_stale (sound : table.tableVector.Sound hashing)
    (misses : table.tableVector.misses hashing heap key = true)
    (stale : isStale hashing heap table.tableVector.hashState = true)
    (default : Entry Value) (attempts : Nat) :
    gethash hashing heap key default (attempts + 1) table =
      (rehashTable hashing heap table false).continue
        (gethash hashing heap key default attempts) := by
  rw [TableVector.misses] at misses
  rw [gethash]
  split
  · next missed => simp [missed] at misses
  · rw [sound.needsRehash, if_pos stale]
  · next other => simp_all

/-- `element` answers what the entries say. -/
theorem gethash_spec (sound : table.tableVector.Sound hashing)
    (allowed : table.tableVector.misses hashing heap key = true →
      isStale hashing heap table.tableVector.hashState = true →
        table.canRehash false = true) (default : Entry Value) :
    ∃ new : TableVector Key Value Heap, new.Sound hashing ∧
      new.entries.Perm table.tableVector.entries ∧
      ∀ attempts, gethash hashing heap key default (attempts + 2) table =
        some (elementResult hashing key default table.tableVector.entries,
          { table with tableVector := new }) := by
  by_cases stale : table.tableVector.misses hashing heap key = true ∧
      isStale hashing heap table.tableVector.hashState = true
  · obtain ⟨new, rehashed, isRehashed, -⟩ :=
      @rehashTable_spec Key Value Heap hashing heap table sound false
        (allowed stale.1 stale.2)
    refine ⟨new, isRehashed.sound, isRehashed.entries, fun attempts => ?_⟩
    have same : elementResult hashing key default new.entries =
        elementResult hashing key default table.tableVector.entries := by
      rw [elementResult, elementResult,
        lookup_perm isRehashed.sound.distinct isRehashed.entries]
    rw [gethash_stale sound stale.1 stale.2, rehashed,
      Outcome.continue, ← same]
    exact @gethash_settled Key Value Heap hashing heap
      { table with tableVector := new } key isRehashed.sound
      (fun _ => isRehashed.fresh) default attempts
  · refine ⟨table.tableVector, sound, List.Perm.refl _, fun attempts => ?_⟩
    apply gethash_settled sound
    intro misses
    rw [Bool.eq_false_iff]
    exact fun isStale => stale ⟨misses, isStale⟩

/-- A new entry is put at the end of its chain. -/
theorem TableVector.Sound.putNew (sound : tv.Sound hashing)
    (notFull : tv.full = false)
    (fresh : isStale hashing heap tv.hashState = false) {steps : Nat}
    (empty : tv.entryKeys (tv.chain (hashing.hash heap key) steps) = .empty)
    (used : ∀ earlier < steps,
      tv.entryKeys (tv.chain (hashing.hash heap key) earlier) ≠ .empty)
    (absent : ∀ entry ∈ tv.entries, hashing.same key entry.1 = false)
    (newValue : Value) :
    ∃ new, tv.tryToPuthashNew hashing heap
        (tv.chain (hashing.hash heap key) steps) key newValue = (true, new) ∧
      new.Sound hashing ∧ new.entries.Perm ((key, newValue) :: tv.entries) := by
  have inside := sound.sized.chain_lt (hashing.hash heap key) steps
  have free : tv.entryAt (tv.chain (hashing.hash heap key) steps) = none := by
    rw [TableVector.entryAt, empty]
    rfl
  have more : (tv.set (tv.chain (hashing.hash heap key) steps) (.present key)
      (.present newValue)).entries.Perm ((key, newValue) :: tv.entries) :=
    TableVector.entries_put inside free
  have merged := isStale_merge fresh key
  have room : tv.additions < tv.additionsLimit := by
    rw [TableVector.full, decide_eq_false_iff_not] at notFull
    exact Nat.lt_of_not_le notFull
  refine ⟨{ tv.set (tv.chain (hashing.hash heap key) steps) (.present key)
      (.present newValue) with
    hashState := mergeHashState tv.hashState heap key
    additions := tv.additions + 1 }, ?_, ?_, more⟩
  · have passes : (!tv.full && tv.rehashTokenValid && !isStale hashing heap
        (mergeHashState tv.hashState heap key)) = true := by
      rw [notFull, merged, TableVector.rehashTokenValid, sound.valid]
      rfl
    rw [TableVector.tryToPuthashNew]
    simp only [empty]
    exact if_pos passes
  · exact
      { sized := ⟨sound.sized.member, sound.sized.enough⟩
        limit := sound.limit
        matching := matching_set sound.matching .present _
        used := by
          have isUsed : (tv.set (tv.chain (hashing.hash heap key) steps)
              (.present key) (.present newValue)).used = tv.used + 1 :=
            TableVector.used_put inside empty (by simp)
          show _ = tv.additions + 1
          rw [← sound.used]
          exact isUsed
        counted := by
          have length := more.length_eq
          rw [List.length_cons] at length
          show tv.additions + 1 = tv.deletions + _
          rw [sound.counted]
          exact (congrArg (tv.deletions + ·) length).symm
        room := room
        distinct := by
          have cons : Distinct hashing.toKeyTest
              ((key, newValue) :: tv.entries) :=
            List.Pairwise.cons absent sound.distinct
          exact cons.perm more.symm
        linked := @linked_put Key Value Heap hashing heap tv tv.hashState key
          steps (.present newValue) sound.linked empty used
        valid := sound.valid }

/-- The value of an entry is replaced. -/
theorem TableVector.Sound.putOld (sound : tv.Sound hashing) {index : Nat}
    {tableKey : Key} {value : Value} (inside : index < tv.entryCount)
    (holds : tv.entryKeys index = .present tableKey)
    (isValue : tv.entryValues index = .present value)
    (same : hashing.same key tableKey = true) (newValue : Value) :
    ∃ new, tv.tryToPuthashOld index newValue = (true, new) ∧
      new.Sound hashing ∧
        new.entries.Perm (store hashing.toKeyTest key newValue tv.entries) := by
  have changed : ∃ others, tv.entries.Perm ((tableKey, value) :: others) ∧
      List.Perm (TableVector.entries { tv with
        entryValues := fun place =>
          if place = index then .present newValue else tv.entryValues place })
        ((tableKey, newValue) :: others) := by
    apply contents_replace inside
    · rw [TableVector.entryAt, holds, isValue]
      rfl
    · simp only [TableVector.entryAt, holds, if_pos]
      rfl
    · intro place different
      simp only [TableVector.entryAt, if_neg different]
  obtain ⟨others, before, after⟩ := changed
  have stored := @store_present Key Value hashing.toKeyTest tv.entries others
    key tableKey newValue value sound.distinct before same
  have apart : Distinct hashing.toKeyTest ((tableKey, newValue) :: others) := by
    have split := List.pairwise_cons.mp (sound.distinct.perm before)
    exact List.Pairwise.cons split.1 split.2
  refine ⟨_, ?_, ?_, after.trans stored.symm⟩
  · have passes : tv.rehashTokenValid = true := by
      rw [TableVector.rehashTokenValid, sound.valid]
      rfl
    exact if_pos passes
  · exact
      { sized := ⟨sound.sized.member, sound.sized.enough⟩
        limit := sound.limit
        matching := by
          intro place
          simp only
          split
          · next here =>
              rw [here, holds]
              exact .present
          · exact sound.matching place
        used := sound.used
        counted := by
          rw [after.length_eq, List.length_cons]
          have length := before.length_eq
          rw [List.length_cons] at length
          rw [← length]
          exact sound.counted
        room := sound.room
        distinct := apart.perm after.symm
        linked := sound.linked
        valid := sound.valid }

/-- An entry is removed. -/
theorem TableVector.Sound.takeOut (sound : tv.Sound hashing) {index : Nat}
    {tableKey : Key} {value : Value} (inside : index < tv.entryCount)
    (holds : tv.entryKeys index = .present tableKey)
    (isValue : tv.entryValues index = .present value)
    (same : hashing.same key tableKey = true) :
    ∃ new, tv.tryToRemhash index = (true, new) ∧ new.Sound hashing ∧
      new.entries.Perm (erase hashing.toKeyTest key tv.entries) := by
  have entry : tv.entryAt index = some (tableKey, value) := by
    rw [TableVector.entryAt, holds, isValue]
    rfl
  have taken : tv.entries.Perm ((tableKey, value) ::
      (tv.set index .deleted .deleted).entries) :=
    TableVector.entries_take inside entry rfl
  have erased := erase_present sound.distinct taken same
  have kept : ∀ place, tv.entryKeys place ≠ .empty →
      (tv.set index .deleted .deleted).entryKeys place ≠ .empty := by
    intro place isUsed
    by_cases here : place = index
    · rw [here, TableVector.set_entryKeys_self]
      simp
    · rw [TableVector.set_entryKeys_of_ne here]
      exact isUsed
  refine ⟨{ tv.set index .deleted .deleted with
    deletions := tv.deletions + 1 }, ?_, ?_, erased.symm⟩
  · have passes : tv.rehashTokenValid = true := by
      rw [TableVector.rehashTokenValid, sound.valid]
      rfl
    rw [TableVector.tryToRemhash, holds]
    exact if_pos passes
  · exact
      { sized := ⟨sound.sized.member, sound.sized.enough⟩
        limit := sound.limit
        matching := matching_set sound.matching .deleted _
        used := by
          have same : ∀ place,
              usedOf ((tv.set index .deleted .deleted).entryKeys place) =
                usedOf (tv.entryKeys place) := by
            intro place
            by_cases here : place = index
            · rw [here, TableVector.set_entryKeys_self, holds]
              rfl
            · rw [TableVector.set_entryKeys_of_ne here]
          exact (@TableVector.used_congr Key Value Heap tv
            (tv.set index .deleted .deleted) rfl same).trans sound.used
        counted := by
          have length := taken.length_eq
          rw [List.length_cons] at length
          have counted := sound.counted
          rw [length] at counted
          show tv.additions = tv.deletions + 1 + _
          rw [counted, Nat.add_right_comm, Nat.add_assoc]
          rfl
        room := sound.room
        distinct := (List.pairwise_cons.mp (sound.distinct.perm taken)).2
        linked := by
          intro place isSlot other isOther
          have isPresent : (tv.set index .deleted .deleted).entryKeys place =
              .present other := isOther
          have different : place ≠ index := by
            intro here
            rw [here, TableVector.set_entryKeys_self] at isPresent
            cases isPresent
          rw [TableVector.set_entryKeys_of_ne different] at isPresent
          exact (sound.linked place isSlot other isPresent).mono rfl kept
            fun _ member => member
        valid := sound.valid }

/-- A vector that misses the key only when there is room for it needs no second
attempt. -/
theorem puthash_settled (sound : table.tableVector.Sound hashing)
    (settled : table.tableVector.misses hashing heap key = true →
      isStale hashing heap table.tableVector.hashState = false ∧
        table.tableVector.full = false) (newValue : Value) :
    ∃ new : TableVector Key Value Heap, new.Sound hashing ∧
      new.entries.Perm (store hashing.toKeyTest key newValue
        table.tableVector.entries) ∧
      ∀ attempts, puthash hashing heap newValue key (attempts + 1) table =
        some (.ok newValue, { table with tableVector := new }) := by
  have searched := sound.searched heap key
  rw [TableVector.misses] at settled
  generalize result : table.tableVector.search hashing key
    (hashing.hash heap key) = found at searched settled
  cases searched with
  | @found index tableKey value inside holds isValue same =>
      obtain ⟨new, put, isSound, entries⟩ :=
        sound.putOld inside holds isValue same newValue
      refine ⟨new, isSound, entries, fun attempts => ?_⟩
      rw [puthash, result]
      simp only [TableVector.tryToPuthash, put]
      rfl
  | @missed steps empty used absent =>
      obtain ⟨fresh, notFull⟩ := settled rfl
      obtain ⟨new, put, isSound, entries⟩ :=
        sound.putNew notFull fresh empty used (absent fresh) newValue
      refine ⟨new, isSound, ?_, fun attempts => ?_⟩
      · rw [store_absent (absent fresh)]
        exact entries
      · rw [puthash, result]
        simp only [TableVector.tryToPuthash, put]
        rfl

theorem isStale_mergeHashState {state : HashState Key Heap} :
    isStale hashing heap (mergeHashState state heap key) =
      isStale hashing heap state := by
  rw [isStale, mergeHashState, List.any_cons, hashing.moved_self]
  rfl

/-- No new entry is made in a vector that is stale or full. -/
theorem TableVector.tryToPuthashNew_failing {index : Nat}
    (empty : tv.entryKeys index = .empty)
    (failing : isStale hashing heap tv.hashState = true ∨ tv.full = true)
    (newValue : Value) :
    tv.tryToPuthashNew hashing heap index key newValue =
      (false, { tv with
        hashState := mergeHashState tv.hashState heap key }) := by
  have refused : ¬(!tv.full && tv.rehashTokenValid && !isStale hashing heap
      (mergeHashState tv.hashState heap key)) = true := by
    rw [isStale_mergeHashState]
    rcases failing with stale | full
    · rw [stale, Bool.not_true, Bool.and_false]
      exact Bool.false_ne_true
    · rw [full, Bool.not_true, Bool.false_and, Bool.false_and]
      exact Bool.false_ne_true
  rw [TableVector.tryToPuthashNew]
  simp only [empty]
  exact if_neg refused

/-- A new key is not stored in a vector that is stale or full. -/
theorem puthash_failing (sound : table.tableVector.Sound hashing)
    (misses : table.tableVector.misses hashing heap key = true)
    (failing : isStale hashing heap table.tableVector.hashState = true ∨
      table.tableVector.full = true) (newValue : Value) (attempts : Nat) :
    puthash hashing heap newValue key (attempts + 1) table =
      (rehashTable hashing heap
        { table with
          tableVector := { table.tableVector with
            hashState :=
              mergeHashState table.tableVector.hashState heap key } }
        table.tableVector.full).continue
          (puthash hashing heap newValue key attempts) := by
  have searched := sound.searched heap key
  rw [TableVector.misses] at misses
  generalize result : table.tableVector.search hashing key
    (hashing.hash heap key) = found at searched misses
  cases searched with
  | found => cases misses
  | @missed steps empty used absent =>
      have tried := @TableVector.tryToPuthashNew_failing Key Value Heap hashing
        heap table.tableVector key _ empty failing newValue
      rw [puthash, result]
      simp only [TableVector.tryToPuthash, tried, Bool.false_eq_true, if_false]
      rw [(sound.merge heap key).needsRehash, isStale_mergeHashState]
      rcases Bool.eq_false_or_eq_true
        (isStale hashing heap table.tableVector.hashState) with stale | fresh
      · rw [if_pos stale]
        rfl
      · have full : table.tableVector.full = true := by
          rcases failing with stale | full
          · rw [fresh] at stale
            cases stale
          · exact full
        have isFull : TableVector.full { table.tableVector with
            hashState := mergeHashState table.tableVector.hashState heap
              key } = true := full
        rw [if_neg (by rw [fresh]; exact Bool.false_ne_true), if_pos isFull,
          full]

/-- `element-setter` stores the value. -/
theorem puthash_spec (sound : table.tableVector.Sound hashing)
    (allowed : table.tableVector.misses hashing heap key = true →
      isStale hashing heap table.tableVector.hashState = true ∨
        table.tableVector.full = true →
          table.canRehash table.tableVector.full = true) (newValue : Value) :
    ∃ new : TableVector Key Value Heap, new.Sound hashing ∧
      new.entries.Perm (store hashing.toKeyTest key newValue
        table.tableVector.entries) ∧
      ∀ attempts, puthash hashing heap newValue key (attempts + 2) table =
        some (.ok newValue, { table with tableVector := new }) := by
  by_cases failing : table.tableVector.misses hashing heap key = true ∧
      (isStale hashing heap table.tableVector.hashState = true ∨
        table.tableVector.full = true)
  · obtain ⟨middle, rehashed, isRehashed, room⟩ :=
      @rehashTable_spec Key Value Heap hashing heap
        { table with
          tableVector := { table.tableVector with
            hashState :=
              mergeHashState table.tableVector.hashState heap key } }
        (sound.merge heap key) table.tableVector.full
        (allowed failing.1 failing.2)
    obtain ⟨new, isSound, entries, put⟩ :=
      @puthash_settled Key Value Heap hashing heap
        { table with tableVector := middle } key isRehashed.sound
        (fun _ => ⟨isRehashed.fresh, room (Or.inl rfl)⟩) newValue
    refine ⟨new, isSound, entries.trans (store_perm isRehashed.entries),
      fun attempts => ?_⟩
    rw [puthash_failing sound failing.1 failing.2, rehashed]
    exact put attempts
  · obtain ⟨new, isSound, entries, put⟩ :=
      @puthash_settled Key Value Heap hashing heap table key sound (by
        intro misses
        rw [not_and, not_or] at failing
        exact ⟨Bool.eq_false_iff.mpr (failing misses).1,
          Bool.eq_false_iff.mpr (failing misses).2⟩) newValue
    exact ⟨new, isSound, entries, fun attempts => put (attempts + 1)⟩

/-- A vector that misses the key only when it is not stale needs no second
attempt. -/
theorem removeKey_settled (sound : table.tableVector.Sound hashing)
    (settled : table.tableVector.misses hashing heap key = true →
      isStale hashing heap table.tableVector.hashState = false) :
    ∃ new : TableVector Key Value Heap, new.Sound hashing ∧
      new.entries.Perm (erase hashing.toKeyTest key
        table.tableVector.entries) ∧
      ∀ attempts, removeKey hashing heap key (attempts + 1) table =
        some (.ok (lookup hashing.toKeyTest key
          table.tableVector.entries).isSome,
            { table with tableVector := new }) := by
  have searched := sound.searched heap key
  rw [TableVector.misses] at settled
  generalize result : table.tableVector.search hashing key
    (hashing.hash heap key) = found at searched settled
  cases searched with
  | @found index tableKey value inside holds isValue same =>
      obtain ⟨new, taken, isSound, entries⟩ :=
        sound.takeOut inside holds isValue same
      refine ⟨new, isSound, entries, fun attempts => ?_⟩
      rw [removeKey, result, sound.lookup_found inside holds isValue same]
      simp only [TableVector.tryToRemoveKey, taken]
      rfl
  | missed empty used absent =>
      have fresh := settled rfl
      refine ⟨table.tableVector, sound, ?_, fun attempts => ?_⟩
      · rw [erase_absent (absent fresh)]
      · rw [removeKey, result, lookup_eq_none.mpr (absent fresh)]
        simp only [TableVector.tryToRemoveKey, sound.needsRehash, fresh,
          Bool.false_eq_true, if_false]
        rfl

/-- A stale vector that misses the key is rehashed. -/
theorem removeKey_stale (sound : table.tableVector.Sound hashing)
    (misses : table.tableVector.misses hashing heap key = true)
    (stale : isStale hashing heap table.tableVector.hashState = true)
    (attempts : Nat) :
    removeKey hashing heap key (attempts + 1) table =
      (rehashTable hashing heap table false).continue
        (removeKey hashing heap key attempts) := by
  have searched := sound.searched heap key
  rw [TableVector.misses] at misses
  generalize result : table.tableVector.search hashing key
    (hashing.hash heap key) = found at searched misses
  cases searched with
  | found => cases misses
  | missed =>
      rw [removeKey, result]
      simp only [TableVector.tryToRemoveKey, sound.needsRehash, stale,
        Bool.false_eq_true, if_false, if_true]

/-- `remove-key!` removes the key, and tells whether it was there. -/
theorem removeKey_spec (sound : table.tableVector.Sound hashing)
    (allowed : table.tableVector.misses hashing heap key = true →
      isStale hashing heap table.tableVector.hashState = true →
        table.canRehash false = true) :
    ∃ new : TableVector Key Value Heap, new.Sound hashing ∧
      new.entries.Perm (erase hashing.toKeyTest key
        table.tableVector.entries) ∧
      ∀ attempts, removeKey hashing heap key (attempts + 2) table =
        some (.ok (lookup hashing.toKeyTest key
          table.tableVector.entries).isSome,
            { table with tableVector := new }) := by
  by_cases stale : table.tableVector.misses hashing heap key = true ∧
      isStale hashing heap table.tableVector.hashState = true
  · obtain ⟨middle, rehashed, isRehashed, -⟩ :=
      @rehashTable_spec Key Value Heap hashing heap table sound false
        (allowed stale.1 stale.2)
    obtain ⟨new, isSound, entries, removed⟩ :=
      @removeKey_settled Key Value Heap hashing heap
        { table with tableVector := middle } key isRehashed.sound
        (fun _ => isRehashed.fresh)
    refine ⟨new, isSound, entries.trans (erase_perm isRehashed.entries),
      fun attempts => ?_⟩
    rw [removeKey_stale sound stale.1 stale.2, rehashed,
      ← lookup_perm isRehashed.sound.distinct isRehashed.entries]
    exact removed attempts
  · obtain ⟨new, isSound, entries, removed⟩ :=
      @removeKey_settled Key Value Heap hashing heap table key sound (by
        intro misses
        rw [not_and] at stale
        exact Bool.eq_false_iff.mpr (stale misses))
    exact ⟨new, isSound, entries, fun attempts => removed (attempts + 1)⟩

theorem makeTableVector_sound (hashing : Hashing Key Heap) (heap : Heap)
    {desired : Int} {new : TableVector Key Value Heap}
    (made : makeTableVector desired = some new) :
    new.Sound hashing ∧ new.entries = [] := by
  obtain ⟨loading, state, none, entries, -⟩ :=
    @makeTableVector_spec Key Value Heap hashing heap desired new made
  exact ⟨loading.sound state none entries, entries⟩

/-- `remove-all-keys!` leaves no entries. -/
theorem removeAllKeys_spec (heap : Heap)
    (sound : table.tableVector.Sound hashing)
    (fits : (computeEntryCount table.initialEntries).isSome) :
    ∃ new : TableVector Key Value Heap, new.Sound hashing ∧
      new.entries = [] ∧ removeAllKeys table =
        some (.ok (), { table with tableVector := new }) := by
  rw [removeAllKeys]
  split
  · next none =>
      refine ⟨table.tableVector, sound, ?_, rfl⟩
      have counted := sound.counted
      rw [none] at counted
      exact List.eq_nil_of_length_eq_zero (by omega)
  · split
    · have noEntries : table.tableVector.clear.entries = [] :=
        contents_eq_nil fun _ _ => rfl
      have noneUsed : table.tableVector.clear.used = 0 :=
        congrArg List.length (contents_eq_nil fun _ _ => rfl)
      refine ⟨table.tableVector.clear, ?_, noEntries, rfl⟩
      exact
        { sized := ⟨sound.sized.member, sound.sized.enough⟩
          limit := sound.limit
          matching := fun _ => .empty
          used := noneUsed
          counted := by
            rw [noEntries]
            rfl
          room := Nat.zero_le _
          distinct := by
            rw [noEntries]
            exact List.Pairwise.nil
          linked := by
            intro place isSlot key holds
            cases holds
          valid := rfl }
    · obtain ⟨count, computed⟩ := Option.isSome_iff_exists.mp fits
      have made : ∃ new : TableVector Key Value Heap,
          makeTableVector table.initialEntries = some new := by
        rw [makeTableVector, computed]
        exact ⟨_, rfl⟩
      obtain ⟨new, made⟩ := made
      have isNew := makeTableVector_sound hashing heap made
      rw [made]
      exact ⟨new, isNew.1, isNew.2, rfl⟩

/-! ## More attempts -/

/-- What goes on to return does so when more may follow. -/
theorem Outcome.continue_more {First Second : Type}
    {outcome : Outcome First Key Value Heap}
    {next later : Table Key Value Heap → Outcome Second Key Value Heap}
    {result : Except TableError Second × Table Key Value Heap}
    (more : ∀ table, next table = some result → later table = some result)
    (returns : outcome.continue next = some result) :
    outcome.continue later = some result := by
  match outcome with
  | none => cases returns
  | some (.error _, _) => exact returns
  | some (.ok _, table) => exact more table returns

theorem gethash_more {default : Entry Value} {attempts : Nat}
    {result : Except TableError (Entry Value) × Table Key Value Heap}
    (returns : gethash hashing heap key default attempts table =
      some result) :
    gethash hashing heap key default (attempts + 1) table = some result := by
  induction attempts generalizing table with
  | zero => cases returns
  | succ attempts ih =>
      rw [gethash] at returns ⊢
      generalize table.tableVector.search hashing key
        (hashing.hash heap key) = found at returns ⊢
      match found with
      | none => cases returns
      | some (_, .empty) =>
          simp only at returns ⊢
          split
          · next isStale =>
              rw [if_pos isStale] at returns
              exact Outcome.continue_more (fun _ => ih) returns
          · next settled =>
              rw [if_neg settled] at returns
              exact returns
      | some (_, .deleted) =>
          simp only at returns ⊢
          split
          · next valid =>
              rw [if_pos valid] at returns
              exact returns
          · next invalid =>
              rw [if_neg invalid] at returns
              exact ih returns
      | some (_, .present _) =>
          simp only at returns ⊢
          split
          · next valid =>
              rw [if_pos valid] at returns
              exact returns
          · next invalid =>
              rw [if_neg invalid] at returns
              exact ih returns

theorem puthash_more {newValue : Value} {attempts : Nat}
    {result : Except TableError Value × Table Key Value Heap}
    (returns : puthash hashing heap newValue key attempts table =
      some result) :
    puthash hashing heap newValue key (attempts + 1) table = some result := by
  induction attempts generalizing table with
  | zero => cases returns
  | succ attempts ih =>
      rw [puthash] at returns ⊢
      split
      · next none => simp [none] at returns
      · next index foundKey found =>
          simp only [found] at returns
          generalize table.tableVector.tryToPuthash hashing heap index foundKey
            key newValue = tried at returns ⊢
          obtain ⟨success, tv⟩ := tried
          simp only at returns ⊢
          split
          · next done =>
              rw [if_pos done] at returns
              exact returns
          · next failed =>
              rw [if_neg failed] at returns
              split
              · next needs =>
                  rw [if_pos needs] at returns
                  exact Outcome.continue_more (fun _ => ih) returns
              · next settled =>
                  rw [if_neg settled] at returns
                  split
                  · next full =>
                      rw [if_pos full] at returns
                      exact Outcome.continue_more (fun _ => ih) returns
                  · next notFull =>
                      rw [if_neg notFull] at returns
                      exact ih returns

theorem removeKey_more {attempts : Nat}
    {result : Except TableError Bool × Table Key Value Heap}
    (returns : removeKey hashing heap key attempts table = some result) :
    removeKey hashing heap key (attempts + 1) table = some result := by
  induction attempts generalizing table with
  | zero => cases returns
  | succ attempts ih =>
      rw [removeKey] at returns ⊢
      split
      · next none => simp [none] at returns
      · next index foundKey found =>
          simp only [found] at returns
          generalize table.tableVector.tryToRemoveKey index foundKey = tried
            at returns ⊢
          obtain ⟨success, tv⟩ := tried
          simp only at returns ⊢
          split
          · next done =>
              rw [if_pos done] at returns
              exact returns
          · next failed =>
              rw [if_neg failed] at returns
              split
              · next needs =>
                  rw [if_pos needs] at returns
                  exact Outcome.continue_more (fun _ => ih) returns
              · next settled =>
                  rw [if_neg settled] at returns
                  cases foundKey with
                  | empty => exact returns
                  | deleted => exact ih returns
                  | present tableKey => exact ih returns

end Operations

end OpenDylan.Runtime.HashTable
