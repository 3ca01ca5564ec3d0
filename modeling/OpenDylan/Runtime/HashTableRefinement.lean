import OpenDylan.Runtime.HashTableOperations

/-!
# Tables are finite maps

The answers of a table are those of a finite map, after any operations.  An
operation may rehash the table first; its second attempt then succeeds.

A rehash can fail when the size it asks for is too large, or when the grow size
function fails.  The vector is marked before that is known, and the mark stays:
looking up a key that is in the table then goes on for ever.
-/

namespace OpenDylan.Runtime.HashTable

open OpenDylan.Lib.KeyedMap OpenDylan.Lib.Probing

section Tables

variable {Key Value Heap : Type}

/-! ## Sequences of operations -/

/-- A table and where the objects are. -/
structure State (Key Value Heap : Type) where
  heap : Heap
  table : Table Key Value Heap

/-- The operations on a table, and what happens to it otherwise: a rehash, a
move of objects, and changes of the number of iterations. -/
inductive Operation (Key Value Heap : Type) where
  | element (key : Key) (default : Entry Value)
  | elementSetter (newValue : Value) (key : Key)
  | removeKey (key : Key)
  | removeAllKeys
  | rehash (grow : Bool)
  | move (heap : Heap)
  | iterate (references : Nat)

/-- What an operation answers. -/
inductive Answer (Value : Type) where
  | element (entry : Entry Value)
  | stored (value : Value)
  | removed (present : Bool)
  | done
  | signals (error : TableError)
deriving DecidableEq

/-- The answer for a result. -/
def Answer.ofResult {Result : Type} (answer : Result → Answer Value) :
    Except TableError Result → Answer Value
  | .ok result => answer result
  | .error error => .signals error

/-- The answer and the state after an operation on the table. -/
def State.after {Result : Type} (state : State Key Value Heap)
    (outcome : Outcome Result Key Value Heap)
    (answer : Result → Answer Value) :
    Option (Answer Value × State Key Value Heap) :=
  outcome.map fun result =>
    (Answer.ofResult answer result.1, { state with table := result.2 })

/-- An operation, with a bound on its attempts. -/
def step (hashing : Hashing Key Heap) (attempts : Nat)
    (state : State Key Value Heap) :
    Operation Key Value Heap → Option (Answer Value × State Key Value Heap)
  | .element key default =>
      state.after (gethash hashing state.heap key default attempts
        state.table) .element
  | .elementSetter newValue key =>
      state.after (puthash hashing state.heap newValue key attempts
        state.table) .stored
  | .removeKey key =>
      state.after (removeKey hashing state.heap key attempts state.table)
        .removed
  | .removeAllKeys =>
      state.after (removeAllKeys state.table) fun _ => .done
  | .rehash grow =>
      state.after (rehashTable hashing state.heap state.table grow)
        fun _ => .done
  | .move heap => some (.done, { state with heap := heap })
  | .iterate references =>
      some (.done, { state with
        table := { state.table with
          tableVector := { state.table.tableVector with
            iterationStateReferences := references } } })

/-! ## Finite maps -/

/-- The finite map after some operations, the last one first. -/
def replay (test : KeyTest Key) :
    List (Operation Key Value Heap) → List (Key × Value)
  | [] => []
  | .elementSetter newValue key :: earlier =>
      store test key newValue (replay test earlier)
  | .removeKey key :: earlier => erase test key (replay test earlier)
  | .removeAllKeys :: _ => []
  | _ :: earlier => replay test earlier

/-- The value that was last stored for a key, unless it was removed since. -/
def lastStored (test : KeyTest Key) (key : Key) :
    List (Operation Key Value Heap) → Option Value
  | [] => none
  | .elementSetter newValue stored :: earlier =>
      if test.same key stored then some newValue
      else lastStored test key earlier
  | .removeKey removed :: earlier =>
      if test.same key removed then none else lastStored test key earlier
  | .removeAllKeys :: _ => none
  | _ :: earlier => lastStored test key earlier

/-- The answer of a finite map. -/
def mapAnswer (test : KeyTest Key)
    (history : List (Operation Key Value Heap)) :
    Operation Key Value Heap → Answer Value
  | .element key default =>
      match lastStored test key history with
      | some value => .element (.present value)
      | none => Answer.ofResult .element (missing default)
  | .elementSetter newValue _ => .stored newValue
  | .removeKey key => .removed (lastStored test key history).isSome
  | _ => .done

theorem lookup_replay (test : KeyTest Key) (key : Key)
    (history : List (Operation Key Value Heap)) :
    lookup test key (replay test history) = lastStored test key history := by
  induction history with
  | nil => rfl
  | cons operation earlier ih =>
      cases operation with
      | elementSetter newValue stored =>
          rw [replay, lastStored, lookup_store, ih]
      | removeKey removed => rw [replay, lastStored, lookup_erase, ih]
      | removeAllKeys => rfl
      | _ => exact ih

/-! ## The condition -/

/-- The rehash that an operation begins with, and whether it is to grow. -/
def State.rehashesFor (hashing : Hashing Key Heap)
    (state : State Key Value Heap) : Operation Key Value Heap → Option Bool
  | .element key _ | .removeKey key =>
      if state.table.tableVector.misses hashing state.heap key &&
          state.table.tableVector.needsRehash hashing state.heap then
        some false
      else
        none
  | .elementSetter _ key =>
      if state.table.tableVector.misses hashing state.heap key &&
          (state.table.tableVector.needsRehash hashing state.heap ||
            state.table.tableVector.full) then
        some state.table.tableVector.full
      else
        none
  | .rehash grow => some grow
  | _ => none

/-- The rehash that an operation begins with is possible. -/
def Allowed (hashing : Hashing Key Heap) (state : State Key Value Heap)
    (operation : Operation Key Value Heap) : Prop :=
  ∀ grow, state.rehashesFor hashing operation = some grow →
    state.table.canRehash grow = true

/-! ## Runs -/

/-- A state has the entries of the finite map. -/
structure State.Represents (hashing : Hashing Key Heap)
    (state : State Key Value Heap)
    (history : List (Operation Key Value Heap)) : Prop where
  sound : state.table.tableVector.Sound hashing
  fits : (computeEntryCount state.table.initialEntries).isSome
  entries : state.table.tableVector.entries.Perm
    (replay hashing.toKeyTest history)

/-- A table, after some operations that began with no impossible rehash, the
last one first. -/
inductive Reached (hashing : Hashing Key Heap) :
    State Key Value Heap → List (Operation Key Value Heap) → Prop where
  | made {heap : Heap} {initialEntries : Int}
      {growSizeFunction : Nat → Option Int} {table : Table Key Value Heap}
      (made : makeTable initialEntries growSizeFunction = some table) :
      Reached hashing { heap := heap, table := table } []
  | step {state later : State Key Value Heap}
      {history : List (Operation Key Value Heap)}
      {operation : Operation Key Value Heap} {attempts : Nat}
      {answer : Answer Value} (earlier : Reached hashing state history)
      (allowed : Allowed hashing state operation)
      (returns : step hashing attempts state operation =
        some (answer, later)) :
      Reached hashing later (operation :: history)

section Runs

variable {hashing : Hashing Key Heap} {state : State Key Value Heap}
  {history : List (Operation Key Value Heap)}

/-- Another number of iterations. -/
theorem TableVector.Sound.iterate {tv : TableVector Key Value Heap}
    (sound : tv.Sound hashing) (references : Nat) :
    TableVector.Sound hashing
      { tv with iterationStateReferences := references } :=
  ⟨⟨sound.sized.member, sound.sized.enough⟩, sound.limit, sound.matching,
    sound.used, sound.counted, sound.room, sound.distinct, sound.linked,
    sound.valid⟩

/-- What a key is mapped to by the entries of a table. -/
theorem State.Represents.lookup_entries
    (represents : state.Represents hashing history) (key : Key) :
    lookup hashing.toKeyTest key state.table.tableVector.entries =
      lastStored hashing.toKeyTest key history := by
  rw [lookup_perm represents.sound.distinct represents.entries, lookup_replay]

/-- One operation answers as the finite map does. -/
theorem State.Represents.step (represents : state.Represents hashing history)
    {operation : Operation Key Value Heap}
    (allowed : Allowed hashing state operation) :
    ∃ later : State Key Value Heap,
      later.Represents hashing (operation :: history) ∧
      ∀ attempts, HashTable.step hashing (attempts + 2) state operation =
        some (mapAnswer hashing.toKeyTest history operation, later) := by
  have sound := represents.sound
  have stale := @TableVector.Sound.needsRehash Key Value Heap hashing
    state.heap state.table.tableVector sound
  cases operation with
  | element key default =>
      obtain ⟨new, isSound, entries, returns⟩ := gethash_spec sound (by
        intro misses isStale
        apply allowed
        rw [State.rehashesFor, stale, misses, isStale]
        rfl) default
      refine ⟨{ state with table := { state.table with tableVector := new } },
        ⟨isSound, represents.fits, entries.trans represents.entries⟩,
        fun attempts => ?_⟩
      rw [HashTable.step, returns, elementResult, represents.lookup_entries,
        mapAnswer]
      cases lastStored hashing.toKeyTest key history with
      | some value => rfl
      | none => rfl
  | elementSetter newValue key =>
      obtain ⟨new, isSound, entries, returns⟩ := puthash_spec sound (by
        intro misses either
        apply allowed
        rw [State.rehashesFor, stale, misses]
        have some : (isStale hashing state.heap
            state.table.tableVector.hashState ||
              state.table.tableVector.full) = true := by
          rw [Bool.or_eq_true]
          exact either
        rw [some]
        rfl) newValue
      refine ⟨{ state with table := { state.table with tableVector := new } },
        ⟨isSound, represents.fits,
          entries.trans (store_perm represents.entries)⟩, fun attempts => ?_⟩
      rw [HashTable.step, returns]
      rfl
  | removeKey key =>
      obtain ⟨new, isSound, entries, returns⟩ := removeKey_spec sound (by
        intro misses isStale
        apply allowed
        rw [State.rehashesFor, stale, misses, isStale]
        rfl)
      refine ⟨{ state with table := { state.table with tableVector := new } },
        ⟨isSound, represents.fits,
          entries.trans (erase_perm represents.entries)⟩, fun attempts => ?_⟩
      rw [HashTable.step, returns, represents.lookup_entries]
      rfl
  | removeAllKeys =>
      obtain ⟨new, isSound, entries, returns⟩ :=
        removeAllKeys_spec state.heap sound represents.fits
      refine ⟨{ state with table := { state.table with tableVector := new } },
        ⟨isSound, represents.fits, ?_⟩, fun attempts => ?_⟩
      · simp only [entries, replay]
        exact List.Perm.nil
      · rw [HashTable.step, returns]
        rfl
  | rehash grow =>
      obtain ⟨new, returns, rehashed, -⟩ :=
        @rehashTable_spec Key Value Heap hashing state.heap state.table sound
          grow (allowed grow rfl)
      refine ⟨{ state with table := { state.table with tableVector := new } },
        ⟨rehashed.sound, represents.fits,
          rehashed.entries.trans represents.entries⟩, fun attempts => ?_⟩
      rw [HashTable.step, returns]
      rfl
  | move heap =>
      exact ⟨{ state with heap := heap },
        ⟨sound, represents.fits, represents.entries⟩, fun _ => rfl⟩
  | iterate references =>
      refine ⟨{ state with table := { state.table with
        tableVector := { state.table.tableVector with
          iterationStateReferences := references } } },
        ⟨sound.iterate references, represents.fits, ?_⟩, fun _ => rfl⟩
      exact represents.entries

/-- An operation that returns does so with more attempts. -/
theorem step_more {operation : Operation Key Value Heap} {attempts : Nat}
    {result : Answer Value × State Key Value Heap}
    (returns : step hashing attempts state operation = some result) :
    step hashing (attempts + 1) state operation = some result := by
  cases operation with
  | element key default =>
      rw [step, State.after, Option.map_eq_some_iff] at returns ⊢
      obtain ⟨outcome, got, isResult⟩ := returns
      exact ⟨outcome, gethash_more got, isResult⟩
  | elementSetter newValue key =>
      rw [step, State.after, Option.map_eq_some_iff] at returns ⊢
      obtain ⟨outcome, got, isResult⟩ := returns
      exact ⟨outcome, puthash_more got, isResult⟩
  | removeKey key =>
      rw [step, State.after, Option.map_eq_some_iff] at returns ⊢
      obtain ⟨outcome, got, isResult⟩ := returns
      exact ⟨outcome, removeKey_more got, isResult⟩
  | _ => exact returns

theorem Reached.represents (reached : Reached hashing state history) :
    state.Represents hashing history := by
  induction reached with
  | @made heap initialEntries growSizeFunction table made =>
      rw [makeTable, Option.map_eq_some_iff] at made
      obtain ⟨tv, isMade, rfl⟩ := made
      obtain ⟨sound, entries⟩ := makeTableVector_sound hashing heap isMade
      refine ⟨sound, ?_, ?_⟩
      · rw [makeTableVector, Option.map_eq_some_iff] at isMade
        obtain ⟨count, computed, -⟩ := isMade
        exact Option.isSome_iff_exists.mpr ⟨count, computed⟩
      · rw [entries]
        exact List.Perm.nil
  | @step state later history operation attempts answer _ allowed returns ih =>
      obtain ⟨next, represents, answers⟩ := ih.step allowed
      have same := (step_more (step_more returns)).symm.trans
        (answers attempts)
      cases same
      exact represents

/-- In every run without an impossible rehash, a table answers every operation
as a finite map does, and its size is the number of keys of that map.  No two
slots hold keys that pass the test, and every chain of slots that is searched
has an empty one, so that every search ends. -/
theorem table_refines_map (reached : Reached hashing state history) :
    (∀ operation, Allowed hashing state operation →
      ∃ later, ∀ attempts, 2 ≤ attempts →
        step hashing attempts state operation =
          some (mapAnswer hashing.toKeyTest history operation, later)) ∧
    (∃ live : List (Key × Value), Distinct hashing.toKeyTest live ∧
      (∀ key, lookup hashing.toKeyTest key live =
        lastStored hashing.toKeyTest key history) ∧
      state.table.size = live.length) ∧
    (∀ first < state.table.tableVector.entryCount,
      ∀ second < state.table.tableVector.entryCount, ∀ key other,
        state.table.tableVector.entryKeys first = .present key →
        state.table.tableVector.entryKeys second = .present other →
        hashing.same key other = true → first = second) ∧
    Nat.Prime state.table.tableVector.entryCount ∧
    ∀ id, Nat.Coprime (secondaryStride id)
        state.table.tableVector.entryCount ∧
      (∃ steps < state.table.tableVector.entryCount,
        state.table.tableVector.entryKeys
          (state.table.tableVector.chain id steps) = .empty) ∧
      ∀ key, (state.table.tableVector.search hashing key id).isSome := by
  have represents := reached.represents
  have sound := represents.sound
  refine ⟨?_, ?_, ?_, sound.sized.prime, ?_⟩
  · intro operation allowed
    obtain ⟨later, -, answers⟩ := represents.step allowed
    refine ⟨later, fun attempts enough => ?_⟩
    have shape : attempts = attempts - 2 + 2 := by omega
    rw [shape]
    exact answers _
  · refine ⟨state.table.tableVector.entries, sound.distinct,
      represents.lookup_entries, ?_⟩
    rw [Table.size, TableVector.presentEntryCount, sound.counted,
      Nat.add_sub_cancel_left]
  · intro first isFirst second isSecond key other holds holdsToo same
    exact TableVector.same_slot sound.matching sound.distinct isFirst
      isSecond holds holdsToo same
  · intro id
    obtain ⟨free, inside, empty⟩ := sound.exists_empty
    refine ⟨sound.sized.coprime id, ?_, ?_⟩
    · obtain ⟨steps, bound, isFree⟩ := position_covers
        (sound.sized.coprime id) (sound.sized.stride_lt id)
        (secondaryStride_bounds id).1 (sound.sized.primaryIndex_lt id) inside
      refine ⟨steps, bound, ?_⟩
      rw [TableVector.chain, isFree]
      exact empty
    · intro key
      obtain ⟨steps, found, -⟩ := sound.sized.search inside empty hashing key
        id
      rw [found]
      rfl

end Runs

/-! ## Failed rehashes -/

/-- A key that is found in a marked vector is looked up for ever. -/
theorem gethash_stuck {hashing : Hashing Key Heap} {heap : Heap}
    {table : Table Key Value Heap} {key tableKey : Key} {index : Nat}
    (marked : table.tableVector.rehashing = true)
    (found : table.tableVector.search hashing key (hashing.hash heap key) =
      some (index, .present tableKey))
    (default : Entry Value) (attempts : Nat) :
    gethash hashing heap key default attempts table = none := by
  induction attempts with
  | zero => rfl
  | succ attempts ih =>
      rw [gethash]
      simp only [found, TableVector.rehashTokenValid, marked]
      exact ih

/-- The state after some operations, the last one first. -/
def run (hashing : Hashing Key Heap) (attempts : Nat)
    (state : State Key Value Heap) :
    List (Operation Key Value Heap) → Option (State Key Value Heap)
  | [] => some state
  | operation :: earlier =>
      (run hashing attempts state earlier).bind fun state =>
        (step hashing attempts state operation).map Prod.snd

end Tables

/-! ## Tables of natural numbers -/

/-- Natural numbers as keys that are their own codes and do not move. -/
def naturalHashing : Hashing Nat Unit where
  same first second := first == second
  refl first := beq_self_eq_true first
  symm isSame := by
    rw [beq_iff_eq] at isSame ⊢
    exact isSame.symm
  trans isSame isSameToo := by
    rw [beq_iff_eq] at isSame isSameToo ⊢
    exact isSame.trans isSameToo
  hash _ key := key
  moved _ _ _ := false
  consistent _ _ _ isSame := by
    rw [beq_iff_eq.mp isSame]
  moved_self _ _ := rfl
  hash_unmoved _ := rfl

/-- A table that grows as its grow size function says. -/
def naturalTable (growSizeFunction : Nat → Option Int) :
    Option (State Nat Bool Unit) :=
  (makeTable 10 growSizeFunction).map fun table =>
    { heap := (), table := table }

/-- An operation that begins with no rehash is allowed. -/
theorem allowed_of_none {Key Value Heap : Type} {hashing : Hashing Key Heap}
    {state : State Key Value Heap} {operation : Operation Key Value Heap}
    (noRehash : (state.rehashesFor hashing operation).isNone = true) :
    Allowed hashing state operation := by
  intro grow rehashes
  rw [rehashes] at noRehash
  cases noRehash

/-- The second of two values is looked up once the first was removed. -/
theorem table_refines_map_stored :
    ∃ state : State Nat Bool Unit,
      Reached naturalHashing state
        [.removeKey 44, .elementSetter true 7, .elementSetter false 44] ∧
      ∃ later, step naturalHashing 2 state (.element 7 .empty) =
        some (.element (.present true), later) := by
  have runs : ((naturalTable fun size => some (2 * size)).any fun new =>
      (new.rehashesFor naturalHashing (.elementSetter false 44)).isNone &&
      (step naturalHashing 2 new (.elementSetter false 44)).any fun first =>
      (first.2.rehashesFor naturalHashing (.elementSetter true 7)).isNone &&
      (step naturalHashing 2 first.2 (.elementSetter true 7)).any fun second =>
      (second.2.rehashesFor naturalHashing (.removeKey 44)).isNone &&
      (step naturalHashing 2 second.2 (.removeKey 44)).any fun third =>
      (third.2.rehashesFor naturalHashing (.element 7 .empty)).isNone) =
        true := by
    decide
  simp only [Option.any_eq_true, Bool.and_eq_true] at runs
  obtain ⟨new, made, noRehash, first, isFirst, noRehashThen, second, isSecond,
    noRehashLast, third, isThird, noRehashAfter⟩ := runs
  rw [naturalTable, Option.map_eq_some_iff] at made
  obtain ⟨table, made, rfl⟩ := made
  have reached := (((Reached.made made).step (allowed_of_none noRehash)
    isFirst).step (allowed_of_none noRehashThen) isSecond).step
      (allowed_of_none noRehashLast) isThird
  obtain ⟨later, answers⟩ := (table_refines_map reached).1 (.element 7 .empty)
    (allowed_of_none noRehashAfter)
  exact ⟨third.2, reached, later, answers 2 (Nat.le_refl 2)⟩

/-- Twenty-eight keys are stored in a table of 37 slots whose grow size
function asks for a thousand million entries.  One more key cannot be stored,
and looking up a key that is there never ends. -/
theorem table_refines_map_fails :
    ∃ new state later : State Nat Bool Unit,
      naturalTable (fun _ => some 1000000000) = some new ∧
      run naturalHashing 2 new
        ((List.range 28).map (Operation.elementSetter true)) = some state ∧
      step naturalHashing 2 state (.elementSetter true 28) =
        some (.signals .desiredSizeExceedsMaximum, later) ∧
      lastStored naturalHashing.toKeyTest 0
        ((List.range 28).map (@Operation.elementSetter Nat Bool Unit true)) =
          some true ∧
      ∀ attempts,
        step naturalHashing attempts later (.element 0 .empty) = none := by
  have runs : ((naturalTable fun _ => some 1000000000).any fun new =>
      (run naturalHashing 2 new
        ((List.range 28).map (Operation.elementSetter true))).any fun state =>
      (step naturalHashing 2 state (.elementSetter true 28)).any fun result =>
      result.1 = .signals .desiredSizeExceedsMaximum &&
      result.2.table.tableVector.rehashing &&
      (result.2.table.tableVector.search naturalHashing 0 0).any fun found =>
        found.2 = .present 0) = true := by
    decide +kernel
  simp only [Option.any_eq_true, Bool.and_eq_true, decide_eq_true_eq] at runs
  obtain ⟨new, made, state, isRun, ⟨answer, later⟩, stepped,
    ⟨signals, marked⟩, ⟨index, entry⟩, found, isPresent⟩ := runs
  cases signals
  cases isPresent
  refine ⟨new, state, later, made, isRun, stepped, by decide, ?_⟩
  intro attempts
  rw [step, State.after, gethash_stuck marked found]
  rfl

end OpenDylan.Runtime.HashTable
