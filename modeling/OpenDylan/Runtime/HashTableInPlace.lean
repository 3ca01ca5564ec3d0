import OpenDylan.Runtime.HashTableRehashing

/-!
# Rehashing a table vector in place

The bits that tell which slots hold a rehashed entry are kept in words of a
vector of their own, which is made at the first rehash and used again later.
A vector whose keys are its values has a variant of the loops for itself.  Both
variants move the entries as the loops on arbitrary bits do, and leave a vector
that holds what it held before, without deleted slots, in which every key is
found under its new hash code.
-/

namespace OpenDylan.Runtime.HashTable

open OpenDylan.Lib.KeyedMap OpenDylan.Lib.Probing OpenDylan.Lib.SlotVector

/-! ## Rehashed bits -/

/-- The words of `<rehashed-bits>`, machine words of at least
`$rehashed-bits-word-size` bits. -/
abbrev RehashedBits (extra : Nat) : Type := List (BitVec (32 + extra))

section RehashedBits

variable {extra : Nat}

/-- The number of words that `rehash-in-place` makes. -/
def sizeInWords (lim : Nat) : Nat :=
  (lim ||| 7) >>> 3

/-- `rehashed-bit?` -/
def rehashedBit (vector : RehashedBits extra) (index : Nat) : Option Bool :=
  vector[index >>> 5]?.map fun word => word.getLsbD (index &&& (2 ^ 5 - 1))

/-- `rehashed-bit?-setter` -/
def setRehashedBit (rehashed : Bool) (vector : RehashedBits extra)
    (index : Nat) : Option (RehashedBits extra) :=
  let bit : BitVec (32 + extra) := 1#(32 + extra) <<< (index &&& (2 ^ 5 - 1))
  vector[index >>> 5]?.map fun word =>
    vector.set (index >>> 5) (if rehashed then word ||| bit else word &&& ~~~bit)

/-- `clear-rehashed-bits` -/
def clearRehashedBits (vector : RehashedBits extra) : RehashedBits extra :=
  vector.map fun _ => 0

/-- The bit of a slot, if there is one. -/
def bitOf (vector : RehashedBits extra) (index : Nat) : Bool :=
  (rehashedBit vector index).getD false

theorem word_index (index : Nat) : index >>> 5 = index / 32 :=
  Nat.shiftRight_eq_div_pow index 5

theorem bit_index (index : Nat) : index &&& (2 ^ 5 - 1) = index % 32 :=
  Nat.and_two_pow_sub_one_eq_mod index 5

/-- The words have a bit for every slot. -/
theorem le_sizeInWords {lim : Nat} (enough : minimumEntries ≤ lim) :
    lim ≤ 32 * sizeInWords lim := by
  rw [minimumEntries] at enough
  have more : lim ≤ lim ||| 7 := Nat.left_le_or
  rw [sizeInWords, Nat.shiftRight_eq_div_pow]
  omega

variable {vector : RehashedBits extra} {index : Nat}

theorem rehashedBit_inside (inside : index < 32 * vector.length) :
    rehashedBit vector index = some (bitOf vector index) := by
  have isWord : index / 32 < vector.length := by omega
  rw [bitOf, rehashedBit, word_index, List.getElem?_eq_getElem isWord]
  rfl

theorem bitOf_clear : bitOf (clearRehashedBits vector) index = false := by
  rw [bitOf, rehashedBit, clearRehashedBits, List.getElem?_map]
  cases vector[index >>> 5]? <;> simp

/-- Setting a bit changes no other one. -/
theorem setRehashedBit_inside (inside : index < 32 * vector.length) :
    ∃ later, setRehashedBit true vector index = some later ∧
      later.length = vector.length ∧
      bitOf later = fun place =>
        if place = index then true else bitOf vector place := by
  have isWord : index / 32 < vector.length := by omega
  rw [setRehashedBit, word_index, bit_index, List.getElem?_eq_getElem isWord]
  refine ⟨_, rfl, List.length_set, ?_⟩
  funext place
  simp only [if_true, bitOf, rehashedBit, word_index, bit_index]
  by_cases sameWord : place / 32 = index / 32
  · rw [sameWord, List.getElem?_set_self isWord, List.getElem?_eq_getElem isWord]
    simp only [Option.map_some, Option.getD_some, BitVec.getLsbD_or,
      BitVec.getLsbD_shiftLeft]
    have fits : place % 32 < 32 + extra := by omega
    by_cases same : place = index
    · rw [if_pos same, same]
      rw [same] at fits
      have positive : 0 < 32 + extra := by omega
      simp [fits, positive]
    · have different : place % 32 ≠ index % 32 := by omega
      rw [if_neg same, BitVec.getLsbD_one]
      by_cases before : place % 32 < index % 32
      · simp [before]
      · have behind : place % 32 - index % 32 ≠ 0 := by omega
        simp [behind]
  · have different : place ≠ index := fun same => sameWord (by rw [same])
    rw [List.getElem?_set_ne (Ne.symm sameWord), if_neg different]

end RehashedBits

/-! ## The loops on words -/

section Words

variable {Key Value Heap : Type} {extra : Nat}

/-- The loop of `find-rehash-insertion-point`; `none` when it goes on for ever
or asks for a bit behind the last word. -/
def TableVector.insertionPoint (tv : TableVector Key Value Heap)
    (bits : RehashedBits extra) (stride : Nat) : Nat → Nat → Option Nat
  | 0, _ => none
  | fuel + 1, index =>
      match tv.entryKeys index with
      | .empty => some index
      | .deleted => some index
      | .present _ =>
          match rehashedBit bits index with
          | none => none
          | some false => some index
          | some true =>
              tv.insertionPoint bits stride fuel
                (next tv.entryCount stride index)

/-- The variables of `rehash-in-place`. -/
structure Rehash (Key Value Heap : Type) (extra : Nat) where
  tv : TableVector Key Value Heap
  bits : RehashedBits extra
  count : Nat
  state : HashState Key Heap

/-- The assignments of `storenext` at an index. -/
def Rehash.put (run : Rehash Key Value Heap extra) (heap : Heap)
    (index : Nat) (key : Key) (value : Entry Value) :
    Option (Rehash Key Value Heap extra) :=
  (setRehashedBit true run.bits index).map fun bits =>
    { tv := run.tv.set index (.present key) value
      bits := bits
      count := run.count + 1
      state := mergeHashState run.state heap key }

/-- The local method `storenext` for keys and values, a bounded number of
times. -/
def Rehash.storeNext (hashing : Hashing Key Heap) (heap : Heap) :
    Nat → Entry Key → Entry Value → Rehash Key Value Heap extra →
      Option (Rehash Key Value Heap extra)
  | fuel + 1, .present key, value, run => do
      let id := hashing.hash heap key
      let index ← run.tv.insertionPoint run.bits (secondaryStride id)
        run.tv.entryCount (primaryIndex id run.tv.entryCount)
      let later ← run.put heap index key value
      storeNext hashing heap fuel (run.tv.entryKeys index)
        (run.tv.entryValues index) later
  | 0, .present _, _, _ => none
  | _, .empty, _, run => some run
  | _, .deleted, _, run => some run

/-- The local method `loop` for keys and values, from an index down. -/
def Rehash.loop (hashing : Hashing Key Heap) (heap : Heap) :
    Nat → Rehash Key Value Heap extra → Option (Rehash Key Value Heap extra)
  | 0, run => some run
  | index + 1, run => do
      let rehashed ← rehashedBit run.bits index
      if rehashed then
        loop hashing heap index run
      else
        let later ← storeNext hashing heap (run.tv.entryCount + 1)
          (run.tv.entryKeys index) (run.tv.entryValues index)
          { run with tv := run.tv.set index .empty .empty }
        loop hashing heap index later

/-- The local method `storenext` for keys alone, in a vector whose keys are its
values. -/
def Rehash.storeNextKey (hashing : Hashing Key Heap) (heap : Heap) :
    Nat → Entry Key → Rehash Key Key Heap extra →
      Option (Rehash Key Key Heap extra)
  | fuel + 1, .present key, run => do
      let id := hashing.hash heap key
      let index ← run.tv.insertionPoint run.bits (secondaryStride id)
        run.tv.entryCount (primaryIndex id run.tv.entryCount)
      let later ← run.put heap index key (.present key)
      storeNextKey hashing heap fuel (run.tv.entryKeys index) later
  | 0, .present _, _ => none
  | _, .empty, run => some run
  | _, .deleted, run => some run

/-- The local method `loop` for keys alone, from an index down. -/
def Rehash.keysLoop (hashing : Hashing Key Heap) (heap : Heap) :
    Nat → Rehash Key Key Heap extra → Option (Rehash Key Key Heap extra)
  | 0, run => some run
  | index + 1, run => do
      let rehashed ← rehashedBit run.bits index
      if rehashed then
        keysLoop hashing heap index run
      else
        let later ← storeNextKey hashing heap (run.tv.entryCount + 1)
          (run.tv.entryKeys index)
          { run with tv := run.tv.set index .empty .empty }
        keysLoop hashing heap index later

/-- What `rehash-in-place` starts with; the slot `rehashed-bits` holds words or
is as it was initialized. -/
def TableVector.begin (tv : TableVector Key Value Heap)
    (slot : Option (RehashedBits extra)) : Rehash Key Value Heap extra where
  tv := tv
  bits := clearRehashedBits
    (slot.getD (List.replicate (sizeInWords tv.entryCount) 0))
  count := 0
  state := []

/-- The assignments at the end of `rehash-in-place`. -/
def Rehash.finish (run : Rehash Key Value Heap extra) :
    TableVector Key Value Heap :=
  { run.tv with
    additions := run.count
    deletions := 0
    hashState := run.state
    rehashing := false }

/-- `rehash-in-place` of a vector with keys and values: the vector and its
slot `rehashed-bits`. -/
def rehashKeysAndValues (hashing : Hashing Key Heap) (heap : Heap)
    (tv : TableVector Key Value Heap) (slot : Option (RehashedBits extra)) :
    Option (TableVector Key Value Heap × RehashedBits extra) :=
  (Rehash.loop hashing heap tv.entryCount (tv.begin slot)).map fun run =>
    (run.finish, run.bits)

/-- `rehash-in-place` of a vector whose keys are its values. -/
def rehashKeys (hashing : Hashing Key Heap) (heap : Heap)
    (tv : TableVector Key Key Heap) (slot : Option (RehashedBits extra)) :
    Option (TableVector Key Key Heap × RehashedBits extra) :=
  (Rehash.keysLoop hashing heap tv.entryCount (tv.begin slot)).map fun run =>
    (run.finish, run.bits)

/-! ## From words to bits -/

/-- The variables with the bits of all slots. -/
def Rehash.view (run : Rehash Key Value Heap extra) :
    InPlace Key Value Heap where
  tv := run.tv
  bits := bitOf run.bits
  count := run.count
  state := run.state

/-- There is a bit for each of a number of slots. -/
structure Rehash.Covered (slots words : Nat)
    (run : Rehash Key Value Heap extra) : Prop where
  sized : run.tv.Sized
  entryCount : run.tv.entryCount = slots
  fits : slots ≤ 32 * words
  length : run.bits.length = words

variable {hashing : Hashing Key Heap} {heap : Heap} {slots words : Nat}
  {run : Rehash Key Value Heap extra} {goal : InPlace Key Value Heap}

theorem Rehash.Covered.word (covered : run.Covered slots words) {index : Nat}
    (inside : index < slots) : index < 32 * run.bits.length := by
  rw [covered.length]
  exact Nat.lt_of_lt_of_le inside covered.fits

/-- Writing to a slot does not change the bits. -/
theorem Rehash.Covered.write (covered : run.Covered slots words) (index : Nat)
    (entry : Entry Key) (item : Entry Value) :
    Rehash.Covered slots words
      { run with tv := run.tv.set index entry item } where
  sized := ⟨covered.sized.member, covered.sized.enough⟩
  entryCount := covered.entryCount
  fits := covered.fits
  length := covered.length

/-- The loop stops where the search does. -/
theorem Rehash.Covered.insertionPoint (covered : run.Covered slots words)
    (id : Int) {fuel index : Nat} (inside : index < run.tv.entryCount) :
    run.tv.insertionPoint run.bits (secondaryStride id) fuel index =
      probe (run.tv.takesRehashed (bitOf run.bits)) run.tv.entryCount
        (secondaryStride id) fuel index := by
  induction fuel generalizing index with
  | zero => rfl
  | succ fuel ih =>
      have goesOn := ih (next_lt (covered.sized.stride_lt id)
        (secondaryStride_bounds id).1 inside)
      have isBit := rehashedBit_inside
        (covered.word (covered.entryCount ▸ inside))
      rw [TableVector.insertionPoint, probe, TableVector.takesRehashed]
      cases run.tv.entryKeys index with
      | empty => rfl
      | deleted => rfl
      | present tableKey =>
          simp only [isBit]
          cases bitOf run.bits index with
          | false => rfl
          | true => exact goesOn

theorem Rehash.Covered.find (covered : run.Covered slots words) (id : Int) :
    run.tv.insertionPoint run.bits (secondaryStride id) run.tv.entryCount
        (primaryIndex id run.tv.entryCount) =
      run.view.tv.findRehashInsertionPoint id run.view.bits :=
  covered.insertionPoint id (covered.sized.primaryIndex_lt id)

/-- The assignments at a slot. -/
theorem Rehash.Covered.put (covered : run.Covered slots words) {index : Nat}
    (inside : index < slots) (key : Key) (value : Entry Value) :
    ∃ later, run.put heap index key value = some later ∧
      later.view = run.view.put heap index key value ∧
      later.Covered slots words := by
  obtain ⟨bits, isSet, length, others⟩ :=
    setRehashedBit_inside (covered.word inside)
  refine ⟨_, by rw [Rehash.put, isSet]; rfl, ?_, ?_⟩
  · simp only [Rehash.view, InPlace.put, others]
  · exact
      { sized := ⟨covered.sized.member, covered.sized.enough⟩
        entryCount := covered.entryCount
        fits := covered.fits
        length := length.trans covered.length }

/-- What `storenext` does to the bits it does to the words. -/
theorem Rehash.Covered.storeNext (covered : run.Covered slots words)
    {fuel : Nat} {entry : Entry Key} {item : Entry Value}
    (stored : HashTable.storeNext hashing heap fuel entry item run.view =
      some goal) :
    ∃ later, Rehash.storeNext hashing heap fuel entry item run = some later ∧
      later.view = goal ∧ later.Covered slots words := by
  induction fuel generalizing entry item run with
  | zero =>
      cases entry with
      | present key => cases stored
      | _ =>
          cases stored
          exact ⟨run, rfl, rfl, covered⟩
  | succ fuel ih =>
      cases entry with
      | present key =>
          rw [HashTable.storeNext] at stored
          cases found : run.view.tv.findRehashInsertionPoint
              (hashing.hash heap key) run.view.bits with
          | none =>
              rw [found] at stored
              cases stored
          | some index =>
              simp only [found] at stored
              have inside : index < run.tv.entryCount :=
                probe_lt (covered.sized.stride_lt _)
                  (secondaryStride_bounds _).1
                  (covered.sized.primaryIndex_lt _) found
              obtain ⟨later, put, view, covers⟩ := @Rehash.Covered.put Key
                Value Heap extra heap slots words run covered index
                (covered.entryCount ▸ inside) key item
              rw [← view] at stored
              obtain ⟨last, done, isGoal, remains⟩ := ih covers stored
              refine ⟨last, ?_, isGoal, remains⟩
              simp only [Rehash.storeNext, covered.find, found, put,
                Option.bind_eq_bind, Option.bind_some]
              exact done
      | _ =>
          cases stored
          exact ⟨run, rfl, rfl, covered⟩

/-- What `loop` does to the bits it does to the words. -/
theorem Rehash.Covered.loop (covered : run.Covered slots words) {index : Nat}
    (bound : index ≤ slots)
    (looped : rehashInPlaceLoop hashing heap index run.view = some goal) :
    ∃ later, Rehash.loop hashing heap index run = some later ∧
      later.view = goal ∧ later.Covered slots words := by
  induction index generalizing run with
  | zero =>
      cases looped
      exact ⟨run, rfl, rfl, covered⟩
  | succ index ih =>
      have below : index ≤ slots := Nat.le_of_succ_le bound
      have isBit := rehashedBit_inside (covered.word bound)
      rw [rehashInPlaceLoop] at looped
      simp only [Rehash.loop, isBit, Option.bind_eq_bind, Option.bind_some]
      cases rehashed : run.view.bits index with
      | true =>
          rw [rehashed, if_pos rfl] at looped
          rw [show bitOf run.bits index = true from rehashed, if_pos rfl]
          exact ih covered below looped
      | false =>
          rw [rehashed, if_neg Bool.false_ne_true] at looped
          rw [show bitOf run.bits index = false from rehashed,
            if_neg Bool.false_ne_true]
          cases stored : HashTable.storeNext hashing heap
              (run.view.tv.entryCount + 1) (run.view.tv.entryKeys index)
              (run.view.tv.entryValues index)
              { run.view with tv := run.view.tv.set index .empty .empty } with
          | none =>
              rw [stored] at looped
              cases looped
          | some middle =>
              simp only [stored] at looped
              obtain ⟨later, done, isMiddle, covers⟩ :=
                (covered.write index .empty .empty).storeNext stored
              rw [← isMiddle] at looped
              obtain ⟨last, ends, isGoal, remains⟩ := ih covers below looped
              exact ⟨last, Option.bind_eq_some_iff.mpr ⟨later, done, ends⟩,
                isGoal, remains⟩

/-! ## Keys that are values -/

/-- The values of a vector are its keys. -/
def TableVector.Shared (tv : TableVector Key Key Heap) : Prop :=
  tv.entryValues = tv.entryKeys

theorem TableVector.Shared.set {tv : TableVector Key Key Heap}
    (shared : tv.Shared) (index : Nat) (entry : Entry Key) :
    (tv.set index entry entry).Shared := by
  funext place
  simp only [TableVector.set, congrFun shared place]

theorem Rehash.put_shared {run later : Rehash Key Key Heap extra}
    (shared : run.tv.Shared) {index : Nat} {key : Key}
    (put : run.put heap index key (.present key) = some later) :
    later.tv.Shared := by
  rw [Rehash.put, Option.map_eq_some_iff] at put
  obtain ⟨bits, -, rfl⟩ := put
  exact shared.set index (.present key)

/-- Storing keys alone is storing them as their own values. -/
theorem Rehash.storeNextKey_eq {run : Rehash Key Key Heap extra}
    (shared : run.tv.Shared) {fuel : Nat} {entry : Entry Key} :
    Rehash.storeNextKey hashing heap fuel entry run =
        Rehash.storeNext hashing heap fuel entry entry run ∧
      ∀ later, Rehash.storeNext hashing heap fuel entry entry run =
        some later → later.tv.Shared := by
  induction fuel generalizing entry run with
  | zero =>
      cases entry with
      | present key =>
          refine ⟨rfl, ?_⟩
          intro later stored
          cases stored
      | _ =>
          refine ⟨rfl, ?_⟩
          intro later stored
          cases stored
          exact shared
  | succ fuel ih =>
      cases entry with
      | present key =>
          simp only [Rehash.storeNextKey, Rehash.storeNext,
            Option.bind_eq_bind]
          cases run.tv.insertionPoint run.bits
              (secondaryStride (hashing.hash heap key)) run.tv.entryCount
              (primaryIndex (hashing.hash heap key) run.tv.entryCount) with
          | none =>
              refine ⟨rfl, ?_⟩
              intro later stored
              cases stored
          | some index =>
              simp only [Option.bind_some, congrFun shared index]
              cases put : run.put heap index key (.present key) with
              | none =>
                  refine ⟨rfl, ?_⟩
                  intro later stored
                  cases stored
              | some middle => exact ih (Rehash.put_shared shared put)
      | _ =>
          refine ⟨rfl, ?_⟩
          intro later stored
          cases stored
          exact shared

/-- The loop for keys alone does what the one for keys and values does. -/
theorem Rehash.keysLoop_eq {run : Rehash Key Key Heap extra}
    (shared : run.tv.Shared) {index : Nat} :
    Rehash.keysLoop hashing heap index run =
        Rehash.loop hashing heap index run ∧
      ∀ later, Rehash.loop hashing heap index run = some later →
        later.tv.Shared := by
  induction index generalizing run with
  | zero =>
      refine ⟨rfl, ?_⟩
      intro later looped
      cases looped
      exact shared
  | succ index ih =>
      simp only [Rehash.keysLoop, Rehash.loop, Option.bind_eq_bind]
      cases rehashedBit run.bits index with
      | none =>
          refine ⟨rfl, ?_⟩
          intro later looped
          cases looped
      | some rehashed =>
          cases rehashed with
          | true => exact ih shared
          | false =>
              simp only [Option.bind_some, congrFun shared index,
                Bool.false_eq_true, if_false]
              have stores := @Rehash.storeNextKey_eq Key Heap extra hashing
                heap { run with tv := run.tv.set index .empty .empty }
                (shared.set index .empty) (run.tv.entryCount + 1)
                (run.tv.entryKeys index)
              rw [stores.1]
              cases stored : Rehash.storeNext hashing heap
                  (run.tv.entryCount + 1) (run.tv.entryKeys index)
                  (run.tv.entryKeys index)
                  { run with tv := run.tv.set index .empty .empty } with
              | none =>
                  refine ⟨rfl, ?_⟩
                  intro later looped
                  cases looped
              | some middle => exact ih (stores.2 middle stored)

/-! ## The vector after a rehash -/

/-- A vector with any mix of entries, empty slots and deleted ones. -/
structure TableVector.Mixed (hashing : Hashing Key Heap)
    (tv : TableVector Key Value Heap) : Prop where
  sized : tv.Sized
  matching : ∀ index, Matching (tv.entryKeys index) (tv.entryValues index)
  distinct : Distinct hashing.toKeyTest tv.entries

/-- What a rehash leaves of a vector. -/
structure TableVector.RehashedFrom (hashing : Hashing Key Heap) (heap : Heap)
    (new tv : TableVector Key Value Heap) : Prop where
  entries : new.entries.Perm tv.entries
  noneDeleted : ∀ index < new.entryCount,
    new.entryKeys index ≠ .deleted ∧ new.entryValues index ≠ .deleted
  reachable : ∀ entry ∈ new.entries, ∃ index < new.entryCount,
    new.search hashing entry.1 (hashing.hash heap entry.1) =
      some (index, .present entry.1) ∧
        new.entryValues index = .present entry.2
  additions : new.additions = new.entries.length
  deletions : new.deletions = 0
  fresh : isStale hashing heap new.hashState = false
  valid : new.rehashing = false

/-- A slot with a bit is the one where the search for its key ends. -/
theorem InPlace.Going.search {run : InPlace Key Value Heap} {index : Nat}
    {place : Nat} {key : Key} (going : run.Going hashing heap index)
    (distinct : Distinct hashing.toKeyTest run.tv.entries)
    (isPlaced : run.bits place = true) (isSlot : place < run.tv.entryCount)
    (holds : run.tv.entryKeys place = .present key) :
    run.tv.search hashing key (hashing.hash heap key) =
      some (place, .present key) := by
  obtain ⟨other, isOther, -, steps, isPlace, others⟩ :=
    going.placed place isPlaced
  rw [holds] at isOther
  cases isOther
  have ends : run.tv.endsSearch hashing key place = true := by
    rw [TableVector.endsSearch, holds]
    exact hashing.refl key
  obtain ⟨first, stops, passes, found⟩ :=
    going.sized.exists_probe isSlot ends (hashing.hash heap key)
  have here : run.tv.chain (hashing.hash heap key) first = place := by
    rcases Nat.lt_trichotomy first steps with before | same | behind
    · -- An earlier slot with the key would be the same one.
      obtain ⟨tableKey, isKey, -⟩ := going.placed _ (others first before)
      rw [TableVector.endsSearch, isKey] at stops
      exact (TableVector.same_slot going.matching distinct isSlot
        (going.sized.chain_lt _ first) holds isKey stops).symm
    · rw [same, isPlace]
    · have passed := passes steps behind
      rw [isPlace, ends] at passed
      cases passed
  rw [TableVector.search, found, Option.map_some, here, holds]

/-- A rehash that has come down to the first slot has done what it should. -/
theorem InPlace.Going.rehashed {run : InPlace Key Value Heap}
    {tv : TableVector Key Value Heap} (going : run.Going hashing heap 0)
    (mixed : tv.Mixed hashing) (entries : run.tv.entries.Perm tv.entries) :
    TableVector.RehashedFrom hashing heap
      { run.tv with
        additions := run.count
        deletions := 0
        hashState := run.state
        rehashing := false } tv where
  entries := entries
  noneDeleted := by
    intro index isSlot
    have pair := going.matching index
    rcases going.done index (Nat.zero_le index) isSlot with isPlaced | empty
    · obtain ⟨key, holds, -⟩ := going.placed index isPlaced
      obtain ⟨item, isValue⟩ := Matching.value (holds ▸ pair)
      simp [holds, isValue]
    · rw [empty] at pair
      generalize isValue : run.tv.entryValues index = value at pair
      cases pair
      simp [empty]
  reachable := by
    intro entry member
    obtain ⟨index, isSlot, holds, isValue⟩ :=
      TableVector.mem_entries.mp member
    have isPlaced : run.bits index = true := by
      rcases going.done index (Nat.zero_le index) isSlot with isPlaced | empty
      · exact isPlaced
      · have holds : run.tv.entryKeys index = .present entry.1 := holds
        rw [empty] at holds
        cases holds
    exact ⟨index, isSlot, going.search (mixed.distinct.perm entries.symm)
      isPlaced isSlot holds, isValue⟩
  additions := going.size.symm
  deletions := rfl
  fresh := going.fresh
  valid := rfl

/-- The words that the slot holds, if any, are as many as were made for it. -/
def SlotFits (tv : TableVector Key Value Heap)
    (slot : Option (RehashedBits extra)) : Prop :=
  ∀ bits ∈ slot, bits.length = sizeInWords tv.entryCount

theorem TableVector.begin_covered {tv : TableVector Key Value Heap}
    {slot : Option (RehashedBits extra)} (sized : tv.Sized)
    (fits : SlotFits tv slot) :
    (tv.begin slot).Covered tv.entryCount (sizeInWords tv.entryCount) where
  sized := sized
  entryCount := rfl
  fits := le_sizeInWords sized.enough
  length := by
    rw [TableVector.begin, clearRehashedBits, List.length_map]
    cases slot with
    | none => exact List.length_replicate
    | some bits => exact fits bits rfl

theorem TableVector.begin_view {tv : TableVector Key Value Heap}
    {slot : Option (RehashedBits extra)} :
    (tv.begin slot).view =
      { tv := tv, bits := fun _ => false, count := 0, state := [] } := by
  have bits : bitOf (tv.begin slot).bits = fun _ => false :=
    funext fun _ => bitOf_clear
  rw [Rehash.view, bits]
  rfl

/-- The loop on the words of the slot rehashes the vector. -/
theorem TableVector.Mixed.loop {tv : TableVector Key Value Heap}
    {slot : Option (RehashedBits extra)} (mixed : tv.Mixed hashing)
    (fits : SlotFits tv slot) :
    ∃ run, Rehash.loop hashing heap tv.entryCount (tv.begin slot) = some run ∧
      run.finish.RehashedFrom hashing heap tv ∧
      SlotFits run.finish (some run.bits) := by
  obtain ⟨goal, looped, going, keeps, entries⟩ := rehashInPlaceLoop_spec
    (@InPlace.Going.begin Key Value Heap hashing heap tv mixed.sized
      mixed.matching) (Nat.le_refl _)
  rw [← @TableVector.begin_view Key Value Heap extra tv slot] at looped
  obtain ⟨run, done, rfl, covered⟩ :=
    (TableVector.begin_covered mixed.sized fits).loop (Nat.le_refl _) looped
  refine ⟨run, done, going.rehashed mixed entries, ?_⟩
  intro bits isBits
  cases isBits
  show run.bits.length = sizeInWords run.tv.entryCount
  rw [covered.length, covered.entryCount]

/-- A rehash in place ends, and the vector then holds what it held, without
deleted entries and with every key where it is searched for; this is so for a
vector of keys and values and for one whose keys are its values. -/
theorem rehash_in_place_rehashes (hashing : Hashing Key Heap) (heap : Heap) :
    (∀ (tv : TableVector Key Value Heap) (slot : Option (RehashedBits extra)),
      tv.Mixed hashing → SlotFits tv slot →
      ∃ new bits,
        rehashKeysAndValues hashing heap tv slot = some (new, bits) ∧
        new.RehashedFrom hashing heap tv ∧ SlotFits new (some bits)) ∧
    (∀ (tv : TableVector Key Key Heap) (slot : Option (RehashedBits extra)),
      tv.Mixed hashing → tv.Shared → SlotFits tv slot →
      ∃ new bits, rehashKeys hashing heap tv slot = some (new, bits) ∧
        new.RehashedFrom hashing heap tv ∧ new.Shared ∧
        SlotFits new (some bits)) := by
  constructor
  · intro tv slot mixed fits
    obtain ⟨run, done, rehashed, remains⟩ := mixed.loop fits
    exact ⟨run.finish, run.bits, by rw [rehashKeysAndValues, done]; rfl,
      rehashed, remains⟩
  · intro tv slot mixed shared fits
    obtain ⟨run, done, rehashed, remains⟩ := mixed.loop fits
    obtain ⟨same, stays⟩ := @Rehash.keysLoop_eq Key Heap extra hashing heap
      (tv.begin slot) shared tv.entryCount
    exact ⟨run.finish, run.bits, by rw [rehashKeys, same, done]; rfl,
      rehashed, stays run done, remains⟩

end Words

/-- Numbers whose codes depend on where they are. -/
def shiftedHashing : Hashing Nat Nat where
  toKeyTest := KeyTest.equality Nat
  hash heap key := heap + key
  moved old new _ := old != new
  consistent _ _ _ isSame := by
    rw [of_decide_eq_true isSame]
  moved_self _ _ := by
    rw [bne_self_eq_false]
  hash_unmoved unmoved := by
    rw [bne_eq_false_iff_eq.mp unmoved]

/-- A vector of 37 slots with two entries and a deleted one, whose keys are its
values. -/
def mixedVector : TableVector Nat Nat Nat :=
  let tv : TableVector Nat Nat Nat :=
    { entryCount := 37
      additionsLimit := 28
      entryKeys := fun _ => .empty
      entryValues := fun _ => .empty
      additions := 3
      deletions := 1
      hashState := [(0, 42), (0, 8), (0, 5)]
      rehashing := true
      iterationStateReferences := 0 }
  ((tv.set 5 (.present 5) (.present 5)).set 8 .deleted .deleted).set 25
    (.present 42) (.present 42)

theorem mixedVector_mixed : mixedVector.Mixed shiftedHashing where
  sized := ⟨by decide, by decide⟩
  matching := matching_set (matching_set (matching_set
    (fun _ => .empty) .present _) .deleted _) .present _
  distinct := by
    have entries : mixedVector.entries = [(5, 5), (42, 42)] := by decide
    rw [entries]
    simp [Distinct, Apart, shiftedHashing, KeyTest.equality]

/-- The entries of a vector are rehashed after the objects were moved. -/
theorem rehash_in_place_rehashes_mixed :
    (∃ new bits, rehashKeysAndValues shiftedHashing 1 mixedVector
        (none : Option (RehashedBits 32)) = some (new, bits) ∧
      new.RehashedFrom shiftedHashing 1 mixedVector) ∧
    (∃ new bits, rehashKeys shiftedHashing 1 mixedVector
        (some (List.replicate 4 7) : Option (RehashedBits 0)) =
          some (new, bits) ∧
      new.RehashedFrom shiftedHashing 1 mixedVector ∧ new.Shared) := by
  constructor
  · obtain ⟨new, bits, done, rehashed, -⟩ :=
      (@rehash_in_place_rehashes Nat Nat Nat 32 shiftedHashing 1).1
        mixedVector none mixedVector_mixed (fun _ isBits => nomatch isBits)
    exact ⟨new, bits, done, rehashed⟩
  · obtain ⟨new, bits, done, rehashed, shared, -⟩ :=
      (@rehash_in_place_rehashes Nat Nat Nat 0 shiftedHashing 1).2
        mixedVector (some (List.replicate 4 7)) mixedVector_mixed rfl (by
          intro bits isBits
          cases isBits
          decide)
    exact ⟨new, bits, done, rehashed, shared⟩

end OpenDylan.Runtime.HashTable
