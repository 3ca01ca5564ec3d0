import Mathlib.Data.List.GetD
import OpenDylan.Lib.Primality
import OpenDylan.Runtime.HashTable

/-!
# The invariant of hash tables

The number of slots is a prime above every stride, and never are all slots
used.  A search therefore ends.  Every key is in the chain of slots that is
searched for it, and the slots before it in the chain are used; keys that have
the same code as one of them are found there.
-/

namespace OpenDylan.Runtime.HashTable

open OpenDylan.Lib.KeyedMap OpenDylan.Lib.Probing OpenDylan.Lib.Primality
open OpenDylan.Lib.SlotVector

/-! ## Sizes -/

theorem entryCounts_tested :
    entryCounts.all (fun count =>
      count < minimumEntries || testPrime count) = true := by
  decide +kernel

/-- The numbers of slots are primes. -/
theorem entryCounts_prime {count : Nat} (member : count ∈ entryCounts)
    (enough : minimumEntries ≤ count) : Nat.Prime count := by
  have tested := List.all_eq_true.mp entryCounts_tested count member
  have large : ¬count < minimumEntries := Nat.not_lt_of_le enough
  rw [Bool.or_eq_true, decide_eq_true_eq, or_iff_right large] at tested
  rw [minimumEntries] at enough
  exact prime_of_testPrime (by omega) tested

/-- The search for a number of slots finds one that is large enough. -/
theorem searchEntryCounts_spec {needed fuel lower upper : Nat}
    (ordered : lower ≤ upper) (inside : upper < entryCounts.length)
    (large : needed ≤ entryCounts.getD upper 0)
    (enough : upper - lower ≤ fuel) :
    searchEntryCounts needed fuel lower upper ∈ entryCounts ∧
      needed ≤ searchEntryCounts needed fuel lower upper := by
  have element : ∀ {index}, index < entryCounts.length →
      entryCounts.getD index 0 ∈ entryCounts := by
    intro index bound
    rw [List.getD_eq_getElem _ _ bound]
    exact List.getElem_mem bound
  induction fuel generalizing lower upper with
  | zero =>
      have same : lower = upper := by omega
      subst same
      exact ⟨element inside, large⟩
  | succ fuel ih =>
      rw [searchEntryCounts]
      split
      · next same =>
          subst same
          exact ⟨element inside, large⟩
      · simp only
        split
        · exact ih (by omega) inside large (by omega)
        · exact ih (by omega) (by omega) (by omega) (by omega)

/-- A number of slots has room for the desired number of entries. -/
theorem computeEntryCount_spec {desired : Int} {count : Nat}
    (computed : computeEntryCount desired = some count) :
    count ∈ entryCounts ∧ minimumEntries ≤ count ∧
      entriesFor desired.toNat ≤ count := by
  rw [computeEntryCount] at computed
  split at computed
  · next fits =>
      cases computed
      have inside : entryLast < entryCounts.length := by decide
      have found := searchEntryCounts_spec (Nat.zero_le entryLast) inside fits
        (Nat.le_of_eq (Nat.sub_zero entryLast))
      exact ⟨found.1, Nat.le_trans (Nat.le_max_right _ _) found.2,
        Nat.le_trans (Nat.le_max_left _ _) found.2⟩
  · cases computed

theorem additionsLimitFor_lt {count : Nat}
    (enough : minimumEntries ≤ count) : additionsLimitFor count < count := by
  rw [minimumEntries] at enough
  rw [additionsLimitFor]
  omega

/-- As many entries as were desired do not fill a vector. -/
theorem lt_additionsLimitFor {count desired : Nat} (isPrime : Nat.Prime count)
    (enough : minimumEntries ≤ count) (fits : entriesFor desired ≤ count) :
    desired < additionsLimitFor count := by
  have odd : count % 2 = 1 := by
    rcases isPrime.eq_two_or_odd with two | odd
    · rw [minimumEntries] at enough
      omega
    · exact odd
  rw [entriesFor] at fits
  rw [additionsLimitFor]
  omega

theorem secondaryStride_mem (id : Int) :
    secondaryStride id ∈ secondaryStrides := by
  have inside : (id % 8).toNat < secondaryStrides.length := by
    rw [secondaryStrides]
    simp only [List.length_cons, List.length_nil]
    omega
  rw [secondaryStride, List.getD_eq_getElem _ _ inside]
  exact List.getElem_mem inside

theorem secondaryStride_bounds (id : Int) :
    0 < secondaryStride id ∧ secondaryStride id < minimumEntries := by
  have bounds : ∀ stride ∈ secondaryStrides,
      0 < stride ∧ stride < minimumEntries := by decide
  exact bounds _ (secondaryStride_mem id)

section Vectors

variable {Key Value Heap : Type} {hashing : Hashing Key Heap} {heap : Heap}
  {tv : TableVector Key Value Heap}

/-! ## Chains of slots -/

/-- The number of slots is one of those that are provided for. -/
structure TableVector.Sized (tv : TableVector Key Value Heap) : Prop where
  member : tv.entryCount ∈ entryCounts
  enough : minimumEntries ≤ tv.entryCount

theorem TableVector.Sized.prime (sized : tv.Sized) :
    Nat.Prime tv.entryCount :=
  entryCounts_prime sized.member sized.enough

theorem TableVector.Sized.stride_lt (sized : tv.Sized) (id : Int) :
    secondaryStride id < tv.entryCount :=
  Nat.lt_of_lt_of_le (secondaryStride_bounds id).2 sized.enough

/-- The stride has no factor in common with the number of slots. -/
theorem TableVector.Sized.coprime (sized : tv.Sized) (id : Int) :
    Nat.Coprime (secondaryStride id) tv.entryCount := by
  apply Nat.Coprime.symm
  exact Nat.coprime_of_lt_prime
    (Nat.ne_of_gt (secondaryStride_bounds id).1) (sized.stride_lt id)
    sized.prime

theorem TableVector.Sized.primaryIndex_lt (sized : tv.Sized) (id : Int) :
    primaryIndex id tv.entryCount < tv.entryCount := by
  have positive : 0 < tv.entryCount := sized.prime.pos
  rw [primaryIndex]
  have below := Int.emod_lt_of_pos id (Int.natCast_pos.mpr positive)
  have above := Int.emod_nonneg id
    (Int.ofNat_ne_zero.mpr (Nat.ne_of_gt positive))
  omega

/-- The slots that are searched for a hash code. -/
def TableVector.chain (tv : TableVector Key Value Heap) (id : Int)
    (steps : Nat) : Nat :=
  position tv.entryCount (secondaryStride id) (primaryIndex id tv.entryCount)
    steps

theorem TableVector.Sized.chain_lt (sized : tv.Sized) (id : Int)
    (steps : Nat) : tv.chain id steps < tv.entryCount :=
  position_lt (sized.stride_lt id) (secondaryStride_bounds id).1
    (sized.primaryIndex_lt id) steps

/-- A search of a chain ends when there is a slot that stops it. -/
theorem TableVector.Sized.exists_probe (sized : tv.Sized)
    {stop : Nat → Bool} {target : Nat} (inside : target < tv.entryCount)
    (stops : stop target = true) (id : Int) :
    ∃ steps, stop (tv.chain id steps) = true ∧
      (∀ earlier < steps, stop (tv.chain id earlier) = false) ∧
      probe stop tv.entryCount (secondaryStride id) tv.entryCount
        (primaryIndex id tv.entryCount) = some (tv.chain id steps) := by
  obtain ⟨steps, first, found⟩ := Lib.Probing.exists_probe (sized.coprime id)
    (sized.stride_lt id) (secondaryStride_bounds id).1
    (sized.primaryIndex_lt id) inside stops
  exact ⟨steps, first.stops, first.passes, found _ (Nat.le_refl _)⟩

/-! ## What a vector holds -/

/-- The entry of a slot with a key and a value. -/
def entryOf : Entry Key → Entry Value → Option (Key × Value)
  | .present key, .present value => some (key, value)
  | _, _ => none

/-- Whether a slot is used. -/
def usedOf : Entry Key → Option Unit
  | .empty => none
  | _ => some ()

/-- The entry of a slot. -/
def TableVector.entryAt (tv : TableVector Key Value Heap) (index : Nat) :
    Option (Key × Value) :=
  entryOf (tv.entryKeys index) (tv.entryValues index)

/-- The entries of a vector. -/
def TableVector.entries (tv : TableVector Key Value Heap) :
    List (Key × Value) :=
  contents tv.entryAt tv.entryCount

/-- The number of slots that are used. -/
def TableVector.used (tv : TableVector Key Value Heap) : Nat :=
  (contents (fun index => usedOf (tv.entryKeys index)) tv.entryCount).length

/-- A slot has a key and a value, or neither. -/
inductive Matching : Entry Key → Entry Value → Prop where
  | empty : Matching .empty .empty
  | deleted : Matching .deleted .deleted
  | present {key : Key} {value : Value} :
      Matching (.present key) (.present value)

/-- A slot is in the chain for a key, with no empty slot before it. -/
def TableVector.Linked (hashing : Hashing Key Heap)
    (tv : TableVector Key Value Heap) (state : HashState Key Heap)
    (index : Nat) (key : Key) : Prop :=
  ∃ heap, (heap, key) ∈ state ∧ ∃ steps,
    tv.chain (hashing.hash heap key) steps = index ∧
      ∀ earlier < steps,
        tv.entryKeys (tv.chain (hashing.hash heap key) earlier) ≠ .empty

/-- The invariant of table vectors. -/
structure TableVector.Sound (hashing : Hashing Key Heap)
    (tv : TableVector Key Value Heap) : Prop where
  sized : tv.Sized
  limit : tv.additionsLimit = additionsLimitFor tv.entryCount
  matching : ∀ index, Matching (tv.entryKeys index) (tv.entryValues index)
  used : tv.used = tv.additions
  counted : tv.additions = tv.deletions + tv.entries.length
  room : tv.additions ≤ tv.additionsLimit
  distinct : Distinct hashing.toKeyTest tv.entries
  linked : ∀ index < tv.entryCount, ∀ key,
    tv.entryKeys index = .present key → tv.Linked hashing tv.hashState index key
  valid : tv.rehashing = false

theorem TableVector.mem_entries {entry : Key × Value} :
    entry ∈ tv.entries ↔ ∃ index < tv.entryCount,
      tv.entryKeys index = .present entry.1 ∧
        tv.entryValues index = .present entry.2 := by
  rw [TableVector.entries, mem_contents]
  constructor
  · rintro ⟨index, inside, holds⟩
    refine ⟨index, inside, ?_⟩
    rw [TableVector.entryAt] at holds
    generalize tv.entryKeys index = key, tv.entryValues index = value at holds
    cases key with
    | present key =>
        cases value with
        | present value =>
            cases holds
            exact ⟨rfl, rfl⟩
        | _ => cases holds
    | _ => cases holds
  · rintro ⟨index, inside, key, value⟩
    refine ⟨index, inside, ?_⟩
    rw [TableVector.entryAt, key, value]
    rfl

/-- A slot with a key has a value. -/
theorem Matching.value {key : Key} {value : Entry Value}
    (matching : Matching (.present key) value) :
    ∃ item, value = .present item := by
  cases matching with
  | present => exact ⟨_, rfl⟩

/-- A vector not all of whose slots are used has an empty one. -/
theorem TableVector.exists_empty_of_used (room : tv.used < tv.entryCount) :
    ∃ index < tv.entryCount, tv.entryKeys index = .empty := by
  obtain ⟨index, inside, free⟩ := exists_free room
  refine ⟨index, inside, ?_⟩
  cases key : tv.entryKeys index with
  | empty => rfl
  | _ => simp [usedOf, key] at free

/-- There is always an empty slot. -/
theorem TableVector.Sound.exists_empty (sound : tv.Sound hashing) :
    ∃ index < tv.entryCount, tv.entryKeys index = .empty := by
  have limit := additionsLimitFor_lt sound.sized.enough
  have bound := sound.room
  rw [sound.limit] at bound
  apply TableVector.exists_empty_of_used
  rw [sound.used]
  exact Nat.lt_of_le_of_lt bound limit

/-- No two slots hold keys that pass the test. -/
theorem TableVector.same_slot
    (matching : ∀ index, Matching (tv.entryKeys index) (tv.entryValues index))
    (distinct : Distinct hashing.toKeyTest tv.entries)
    {first second : Nat} {key other : Key} (isFirst : first < tv.entryCount)
    (isSecond : second < tv.entryCount)
    (holds : tv.entryKeys first = .present key)
    (holdsToo : tv.entryKeys second = .present other)
    (same : hashing.same key other = true) : first = second := by
  obtain ⟨value, isValue⟩ := Matching.value (holds ▸ matching first)
  obtain ⟨item, isItem⟩ := Matching.value (holdsToo ▸ matching second)
  have one : tv.entryAt first = some (key, value) := by
    rw [TableVector.entryAt, holds, isValue]
    rfl
  have two : tv.entryAt second = some (other, item) := by
    rw [TableVector.entryAt, holdsToo, isItem]
    rfl
  by_contra different
  have apart := contents_pairwise Apart.symm distinct isFirst isSecond
    different one two
  rw [Apart, same] at apart
  cases apart

/-! ## Searching -/

/-- A search ends in a slot that is empty or that holds the key, with no empty
slot before it. -/
theorem TableVector.Sized.search (sized : tv.Sized) {free : Nat}
    (inside : free < tv.entryCount) (empty : tv.entryKeys free = .empty)
    (hashing : Hashing Key Heap) (key : Key) (id : Int) :
    ∃ steps, tv.search hashing key id =
        some (tv.chain id steps, tv.entryKeys (tv.chain id steps)) ∧
      (∀ earlier < steps, tv.entryKeys (tv.chain id earlier) ≠ .empty) ∧
      ((tv.entryKeys (tv.chain id steps) = .empty ∧ ∀ earlier < steps,
          tv.endsSearch hashing key (tv.chain id earlier) = false) ∨
        ∃ tableKey, tv.entryKeys (tv.chain id steps) = .present tableKey ∧
          hashing.same key tableKey = true) := by
  have stops : tv.endsSearch hashing key free = true := by
    rw [TableVector.endsSearch, empty]
  obtain ⟨steps, ends, passes, found⟩ := sized.exists_probe inside stops id
  refine ⟨steps, ?_, ?_, ?_⟩
  · rw [TableVector.search, found, Option.map_some]
  · intro earlier before isEmpty
    have passed := passes earlier before
    rw [TableVector.endsSearch, isEmpty] at passed
    cases passed
  · rw [TableVector.endsSearch] at ends
    split at ends
    · next isEmpty => exact Or.inl ⟨isEmpty, passes⟩
    · cases ends
    · next tableKey isPresent => exact Or.inr ⟨tableKey, isPresent, ends⟩

/-- A key that is linked under its present code is not missed. -/
theorem TableVector.Linked.not_missed {state : HashState Key Heap}
    {key tableKey : Key} {index steps : Nat}
    (linked : tv.Linked hashing state index tableKey)
    (fresh : isStale hashing heap state = false)
    (holds : tv.entryKeys index = .present tableKey)
    (empty : tv.entryKeys (tv.chain (hashing.hash heap key) steps) = .empty)
    (passes : ∀ earlier < steps, tv.endsSearch hashing key
      (tv.chain (hashing.hash heap key) earlier) = false) :
    hashing.same key tableKey = false := by
  rw [Bool.eq_false_iff]
  intro same
  obtain ⟨old, recorded, place, isPlace, used⟩ := linked
  have unmoved : hashing.moved old heap tableKey = false := by
    rw [isStale, List.any_eq_false] at fresh
    exact Bool.eq_false_iff.mpr (fresh _ recorded)
  have code : hashing.hash old tableKey = hashing.hash heap key := by
    rw [hashing.hash_unmoved unmoved]
    exact (hashing.consistent heap same).symm
  rw [code] at isPlace used
  rcases Nat.lt_trichotomy steps place with before | here | after
  · exact used steps before empty
  · rw [here, isPlace, holds] at empty
    cases empty
  · have passed := passes place after
    rw [isPlace, TableVector.endsSearch, holds] at passed
    simp only [same] at passed
    cases passed

/-- Slots stay linked when none is emptied. -/
theorem TableVector.Linked.mono {other : TableVector Key Value Heap}
    {state later : HashState Key Heap} {index : Nat} {key : Key}
    (linked : tv.Linked hashing state index key)
    (count : other.entryCount = tv.entryCount)
    (kept : ∀ place, tv.entryKeys place ≠ .empty →
      other.entryKeys place ≠ .empty)
    (more : ∀ hashed ∈ state, hashed ∈ later) :
    other.Linked hashing later index key := by
  obtain ⟨old, recorded, steps, isPlace, used⟩ := linked
  have chain : ∀ id steps, other.chain id steps = tv.chain id steps := by
    intro id steps
    rw [TableVector.chain, TableVector.chain, count]
  refine ⟨old, more _ recorded, steps, (chain _ _).trans isPlace, ?_⟩
  intro earlier before
  rw [chain]
  exact kept _ (used earlier before)

/-! ## Changing one slot -/

theorem TableVector.set_entryKeys_self {index : Nat} {key : Entry Key}
    {value : Entry Value} : (tv.set index key value).entryKeys index = key :=
  if_pos rfl

theorem TableVector.set_entryKeys_of_ne {index place : Nat} {key : Entry Key}
    {value : Entry Value} (different : place ≠ index) :
    (tv.set index key value).entryKeys place = tv.entryKeys place :=
  if_neg different

theorem TableVector.set_entryAt_self {index : Nat} {key : Entry Key}
    {value : Entry Value} :
    (tv.set index key value).entryAt index = entryOf key value := by
  simp only [TableVector.entryAt, TableVector.set, if_pos]

theorem TableVector.set_entryAt_of_ne {index place : Nat} {key : Entry Key}
    {value : Entry Value} (different : place ≠ index) :
    (tv.set index key value).entryAt place = tv.entryAt place := by
  simp only [TableVector.entryAt, TableVector.set, if_neg different]

/-- An entry is put into a slot without one. -/
theorem TableVector.entries_put {index : Nat} {key : Key} {value : Value}
    (inside : index < tv.entryCount) (free : tv.entryAt index = none) :
    (tv.set index (.present key) (.present value)).entries.Perm
      ((key, value) :: tv.entries) :=
  contents_fill inside free TableVector.set_entryAt_self
    fun _ different => TableVector.set_entryAt_of_ne different

/-- An entry is taken out of its slot. -/
theorem TableVector.entries_take {index : Nat} {entry : Key × Value}
    {key : Entry Key} {value : Entry Value}
    (inside : index < tv.entryCount) (holds : tv.entryAt index = some entry)
    (free : entryOf key value = none) :
    tv.entries.Perm (entry :: (tv.set index key value).entries) :=
  contents_take inside holds (TableVector.set_entryAt_self.trans free)
    fun _ different => TableVector.set_entryAt_of_ne different

/-- An empty slot becomes used. -/
theorem TableVector.used_put {index : Nat} {key : Entry Key}
    {value : Entry Value} (inside : index < tv.entryCount)
    (empty : tv.entryKeys index = .empty) (isUsed : key ≠ .empty) :
    (tv.set index key value).used = tv.used + 1 := by
  have filled : usedOf ((tv.set index key value).entryKeys index) =
      some () := by
    rw [TableVector.set_entryKeys_self]
    cases key with
    | empty => exact absurd rfl isUsed
    | _ => rfl
  have free : usedOf (tv.entryKeys index) = none := by
    rw [empty]
    rfl
  have more := @contents_fill Unit
    (fun place => usedOf (tv.entryKeys place))
    (fun place => usedOf ((tv.set index key value).entryKeys place))
    tv.entryCount index () inside free filled (fun place different => by
      rw [TableVector.set_entryKeys_of_ne different])
  exact more.length_eq

/-- A used slot stays used. -/
theorem TableVector.used_congr {other : TableVector Key Value Heap}
    (count : other.entryCount = tv.entryCount)
    (same : ∀ place, usedOf (other.entryKeys place) =
      usedOf (tv.entryKeys place)) : other.used = tv.used := by
  rw [TableVector.used, TableVector.used, count]
  congr 2
  funext place
  exact same place

end Vectors

end OpenDylan.Runtime.HashTable
