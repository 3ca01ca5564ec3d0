import OpenDylan.Lib.KeyedMap
import OpenDylan.Runtime.ClassKeyedProbing

/-!
# The tables are finite maps

No two pairs of a table have the same key.  In a table that is searched from its
start no pair is behind an empty one; in a hashed table no empty pair is before
a pair in the chain for its key, and there is always an empty pair.  A search
then ends at the pair with the key, or where a pair with the key belongs.
-/

namespace OpenDylan.Runtime.ClassKeyed

open OpenDylan.Lib.KeyedMap OpenDylan.Lib.Probing OpenDylan.Lib.SlotVector

/-- Keys are integers that are told apart by equality. -/
abbrev keys : KeyTest Int := KeyTest.equality Int

theorem keys_same {first second : Int} :
    keys.same first second = decide (first = second) := rfl

section Tables

variable {Node : Type} {table : Table Node} {key : Int} {value : Node}
  {place : Nat}

/-! ## Setting a pair -/

@[simp]
theorem Table.set_size (i : Nat) :
    (table.set i key value).size = table.size := rfl

theorem Table.set_pair (place other : Nat) :
    (table.set (2 * place) key value).pair other =
      if other = place then some (key, value) else table.pair other := by
  have half : 2 * place / 2 = place := by omega
  rw [Table.set, half]

theorem Table.set_pair_self :
    (table.set (2 * place) key value).pair place = some (key, value) := by
  rw [Table.set_pair, if_pos rfl]

theorem Table.set_pair_of_ne {other : Nat} (different : other ≠ place) :
    (table.set (2 * place) key value).pair other = table.pair other := by
  rw [Table.set_pair, if_neg different]

/-- A pair that was set is not empty. -/
theorem Table.set_pair_ne_none {other : Nat}
    (full : table.pair other ≠ none) :
    (table.set (2 * place) key value).pair other ≠ none := by
  rw [Table.set_pair]
  split
  · exact Option.some_ne_none _
  · exact full

theorem Table.mem_entries {entry : Int × Node} :
    entry ∈ table.entries ↔
      ∃ place < table.pairs, table.pair place = some entry :=
  mem_contents

/-- Where the pair for a key is, or where it belongs. -/
structure Table.Target (table : Table Node) (key : Int) (place : Nat) :
    Prop where
  inside : place < table.pairs
  fits : (∃ old, table.pair place = some (key, old)) ∨
    (table.pair place = none ∧
      ∀ entry ∈ table.entries, keys.same key entry.1 = false)

/-- The pair for a key holds what the key is mapped to. -/
theorem Table.Target.lookup_eq (target : table.Target key place)
    (distinct : Distinct keys table.entries) :
    (table.pair place).map Prod.snd = lookup keys key table.entries := by
  cases target.fits with
  | inl holds =>
      obtain ⟨old, holds⟩ := holds
      rw [holds]
      symm
      apply lookup_of_mem distinct _ (keys.refl key)
      exact Table.mem_entries.mpr ⟨place, target.inside, holds⟩
  | inr free =>
      rw [free.1, lookup_eq_none.mpr free.2]
      rfl

/-- The entries with one more, when an empty pair is set. -/
theorem Table.entries_fill (inside : place < table.pairs)
    (free : table.pair place = none) :
    (table.set (2 * place) key value).entries.Perm
      ((key, value) :: table.entries) :=
  contents_fill inside free Table.set_pair_self
    fun _ different => Table.set_pair_of_ne different

/-- Setting the pair for a key stores at the key. -/
theorem Table.Target.entries_perm (target : table.Target key place)
    (distinct : Distinct keys table.entries) :
    (table.set (2 * place) key value).entries.Perm
      (store keys key value table.entries) := by
  cases target.fits with
  | inl holds =>
      obtain ⟨old, holds⟩ := holds
      obtain ⟨others, before, after⟩ := contents_replace target.inside holds
        Table.set_pair_self fun _ different =>
          @Table.set_pair_of_ne _ table key value _ _ different
      exact after.trans
        (store_present distinct before (keys.refl key)).symm
  | inr free =>
      rw [store_absent free.2]
      exact Table.entries_fill target.inside free.1

/-- The table maps the key to the value, and other keys as before. -/
structure Stores (after before : List (Int × Node)) (key : Int)
    (value : Node) : Prop where
  distinct : Distinct keys after
  lookups : ∀ wanted, lookup keys wanted after =
    if keys.same wanted key then some value else lookup keys wanted before

theorem Table.Target.stores (target : table.Target key place)
    (distinct : Distinct keys table.entries) :
    Stores (table.set (2 * place) key value).entries table.entries key
      value := by
  have perm : (table.set (2 * place) key value).entries.Perm
      (store keys key value table.entries) := target.entries_perm distinct
  have stored := distinct.store key value
  constructor
  · exact stored.perm perm.symm
  · intro wanted
    rw [← lookup_perm stored perm.symm, lookup_store]

theorem size_empty (tableSize : Nat) :
    (Table.empty tableSize : Table Node).size = 2 * (tableSize / 2) := rfl

theorem entries_empty (tableSize : Nat) :
    (Table.empty tableSize : Table Node).entries = [] :=
  contents_eq_nil fun _ _ => rfl

/-! ## Tables that are searched from their start -/

/-- The invariant of tables of linear discriminators. -/
structure Table.Packed (table : Table Node) : Prop where
  distinct : Distinct keys table.entries
  packed : ∀ place < table.pairs, table.pair place ≠ none →
    ∀ earlier < place, table.pair earlier ≠ none

theorem packed_empty (tableSize : Nat) :
    (Table.empty tableSize : Table Node).Packed := by
  constructor
  · rw [entries_empty]
    exact List.Pairwise.nil
  · intro place _ full
    exact absurd rfl full

theorem Table.find_eq_some {test : Option (Int × Node) → Bool} {i : Nat}
    (found : table.find test = some i) :
    ∃ place < table.pairs, i = 2 * place ∧ test (table.pair place) = true ∧
      ∀ earlier < place, test (table.pair earlier) = false := by
  rw [Table.find, Option.map_eq_some_iff] at found
  obtain ⟨place, first, isIndex⟩ := found
  rw [List.find?_range_eq_some] at first
  refine ⟨place, List.mem_range.mp first.2.1, isIndex.symm, first.1, ?_⟩
  intro earlier before
  simpa using first.2.2 earlier before

theorem Table.find_eq_none {test : Option (Int × Node) → Bool}
    (missing : table.find test = none) :
    ∀ place < table.pairs, test (table.pair place) = false := by
  rw [Table.find, Option.map_eq_none_iff, List.find?_range_eq_none] at missing
  intro place inside
  simpa using missing place inside

/-- The search for the place of a key ends there. -/
theorem Table.Packed.target (packed : table.Packed) {i : Nat}
    (found : (table.find fun pair => pair.all fun entry => entry.1 = key) =
      some i) :
    ∃ place, i = 2 * place ∧ table.Target key place ∧
      ∀ earlier < place, table.pair earlier ≠ none := by
  obtain ⟨place, inside, isIndex, passes, fails⟩ := Table.find_eq_some found
  have before : ∀ earlier < place, ∃ entry,
      table.pair earlier = some entry ∧ entry.1 ≠ key := by
    intro earlier isBefore
    have failed := fails earlier isBefore
    cases pair : table.pair earlier with
    | none => simp [pair] at failed
    | some entry =>
        refine ⟨entry, rfl, ?_⟩
        simpa [pair] using failed
  refine ⟨place, isIndex, ⟨inside, ?_⟩, ?_⟩
  · cases pair : table.pair place with
    | some entry =>
        have isKey : entry.1 = key := by simpa [pair] using passes
        exact Or.inl ⟨entry.2, by rw [← isKey]⟩
    | none =>
        refine Or.inr ⟨rfl, ?_⟩
        intro entry member
        obtain ⟨other, otherInside, holds⟩ := Table.mem_entries.mp member
        rw [keys_same, decide_eq_false_iff_not]
        intro same
        rcases Nat.lt_trichotomy other place with isBefore | here | after
        · obtain ⟨there, isThere, different⟩ := before other isBefore
          rw [holds] at isThere
          cases isThere
          exact different same.symm
        · rw [here, pair] at holds
          cases holds
        · have full : table.pair other ≠ none := by
            rw [holds]
            exact Option.some_ne_none entry
          exact packed.packed other otherInside full place after pair
  · intro earlier isBefore
    obtain ⟨entry, isEntry, _⟩ := before earlier isBefore
    rw [isEntry]
    exact Option.some_ne_none entry

theorem Table.Packed.set (packed : table.Packed)
    (target : table.Target key place)
    (full : ∀ earlier < place, table.pair earlier ≠ none) :
    (table.set (2 * place) key value).Packed := by
  constructor
  · exact (target.stores packed.distinct).distinct
  · intro other inside isFull earlier before
    apply Table.set_pair_ne_none
    by_cases here : other = place
    · exact full earlier (here ▸ before)
    · rw [Table.set_pair_of_ne here] at isFull
      exact packed.packed other inside isFull earlier before

/-- A table in which a key has no place is full, and does not have it. -/
theorem Table.full_of_find
    (missing : (table.find fun pair => pair.all fun entry =>
      entry.1 = key) = none) :
    table.entries.length = table.pairs ∧
      ∀ entry ∈ table.entries, keys.same key entry.1 = false := by
  have others : ∀ place < table.pairs, ∃ entry,
      table.pair place = some entry ∧ entry.1 ≠ key := by
    intro place inside
    have failed := Table.find_eq_none missing place inside
    cases pair : table.pair place with
    | none => simp [pair] at failed
    | some entry =>
        refine ⟨entry, rfl, ?_⟩
        simpa [pair] using failed
  constructor
  · apply Nat.le_antisymm contents_length_le
    by_contra room
    obtain ⟨place, inside, free⟩ := exists_free (Nat.not_le.mp room)
    obtain ⟨entry, isEntry, _⟩ := others place inside
    rw [free] at isEntry
    cases isEntry
  · intro entry member
    obtain ⟨place, inside, holds⟩ := Table.mem_entries.mp member
    obtain ⟨there, isThere, different⟩ := others place inside
    rw [holds] at isThere
    cases isThere
    exact decide_eq_false different.symm

/-- A linear lookup answers what the key is mapped to. -/
theorem linearLookup_eq (distinct : Distinct keys table.entries)
    (default : Node) :
    linearLookup key table default =
      (lookup keys key table.entries).getD default := by
  rw [linearLookup]
  cases found : table.find fun pair =>
      pair.any fun entry => entry.1 = key with
  | some i =>
      obtain ⟨place, inside, isIndex, passes, _⟩ := Table.find_eq_some found
      have half : i / 2 = place := by omega
      cases pair : table.pair place with
      | none => simp [pair] at passes
      | some entry =>
          have isKey : entry.1 = key := by simpa [pair] using passes
          have target : table.Target key place :=
            ⟨inside, Or.inl ⟨entry.2, by rw [pair, ← isKey]⟩⟩
          simp only [half]
          rw [target.lookup_eq distinct]
  | none =>
      have absent : ∀ entry ∈ table.entries,
          keys.same key entry.1 = false := by
        intro entry member
        obtain ⟨place, inside, holds⟩ := Table.mem_entries.mp member
        have failed := Table.find_eq_none found place inside
        rw [keys_same, decide_eq_false_iff_not]
        intro same
        simp [holds, same] at failed
      rw [lookup_eq_none.mpr absent]
      rfl

/-! ## Hashed tables -/

/-- The invariant of tables of hashed discriminators: in the chain for a key
there is no empty pair before its own, and some pair is empty. -/
structure Table.Hashed (log2Size : Nat) (table : Table Node) : Prop where
  sized : table.Sized log2Size
  distinct : Distinct keys table.entries
  linked : ∀ place < table.pairs, ∀ key value,
    table.pair place = some (key, value) →
      ∃ steps, table.chain log2Size key steps = place ∧
        ∀ earlier < steps, table.pair (table.chain log2Size key earlier) ≠ none
  room : table.entries.length < table.pairs

variable {log2Size : Nat}

theorem hashed_empty (enough : 5 ≤ log2Size)
    (fits : log2Size < 2 ^ log2SizeWidth) :
    (Table.empty (2 ^ log2Size) : Table Node).Hashed log2Size := by
  have pairs : (Table.empty (2 ^ log2Size) : Table Node).pairs =
      2 ^ (log2Size - 1) := by
    have whole : log2Size = log2Size - 1 + 1 := by omega
    rw [Table.empty, whole, Nat.pow_succ]
    simp
  have sized : (Table.empty (2 ^ log2Size) : Table Node).Sized log2Size :=
    ⟨enough, fits, pairs⟩
  constructor
  · exact sized
  · rw [entries_empty]
    exact List.Pairwise.nil
  · intro place _ key value holds
    cases holds
  · rw [entries_empty]
    exact sized.pairs_pos

theorem Table.Hashed.exists_empty (hashed : table.Hashed log2Size) :
    ∃ place < table.pairs, table.pair place = none :=
  exists_free hashed.room

/-- A probe ends where the pair for the key is or belongs. -/
theorem Table.Hashed.probe (hashed : table.Hashed log2Size) (key : Int) :
    ∃ steps, table.Target key (table.chain log2Size key steps) ∧
      (∀ earlier < steps,
        table.pair (table.chain log2Size key earlier) ≠ none) ∧
      ∀ fuel, table.pairs ≤ fuel → probeFor fuel table log2Size key =
        some (2 * table.chain log2Size key steps, steps) := by
  obtain ⟨free, inside, empty⟩ := hashed.exists_empty
  obtain ⟨steps, ends, passes, probes⟩ :=
    hashed.sized.exists_probe inside empty key
  refine ⟨steps, ⟨hashed.sized.chain_lt key steps, ?_⟩, ?_, probes⟩
  · cases pair : table.pair (table.chain log2Size key steps) with
    | some entry =>
        rw [Table.stops, pair] at ends
        have isKey : entry.1 = key := of_decide_eq_true ends
        exact Or.inl ⟨entry.2, by rw [← isKey]⟩
    | none =>
        refine Or.inr ⟨rfl, ?_⟩
        rintro ⟨otherkey, value⟩ member
        obtain ⟨place, isPlace, holds⟩ := Table.mem_entries.mp member
        rw [keys_same, decide_eq_false_iff_not]
        intro same
        subst same
        obtain ⟨there, reaches, full⟩ := hashed.linked place isPlace _ _ holds
        rcases Nat.lt_trichotomy there steps with before | here | after
        · have passed := passes there before
          rw [Table.stops, reaches, holds] at passed
          exact absurd rfl (of_decide_eq_false passed)
        · rw [← here, reaches, holds] at pair
          cases pair
        · exact full steps after pair
  · intro earlier before empty
    have passed := passes earlier before
    rw [Table.stops, empty] at passed
    cases passed

/-- A hashed lookup answers what the key is mapped to. -/
theorem Table.Hashed.hashedLookup_eq (hashed : table.Hashed log2Size)
    (key : Int) (default : Node) {fuel : Nat} (enough : table.pairs ≤ fuel) :
    hashedLookup fuel key log2Size table default =
      some ((lookup keys key table.entries).getD default) := by
  obtain ⟨steps, target, _, probes⟩ := hashed.probe key
  have half : 2 * table.chain log2Size key steps / 2 =
      table.chain log2Size key steps := by omega
  rw [hashedLookup, probes fuel enough, Option.map_some]
  simp only [half]
  rw [target.lookup_eq hashed.distinct]

/-- A pair is set where the probe for its key ends, and some pair stays
empty. -/
theorem Table.Hashed.set (hashed : table.Hashed log2Size) {steps : Nat}
    (target : table.Target key (table.chain log2Size key steps))
    (full : ∀ earlier < steps,
      table.pair (table.chain log2Size key earlier) ≠ none)
    (room : table.pair (table.chain log2Size key steps) = none →
      table.entries.length + 1 < table.pairs) :
    (table.set (2 * table.chain log2Size key steps) key value).Hashed
      log2Size := by
  constructor
  · exact ⟨hashed.sized.enough, hashed.sized.fits, hashed.sized.pairs⟩
  · exact (target.stores hashed.distinct).distinct
  · intro place inside otherkey other holds
    rw [Table.set_pair] at holds
    split at holds
    · next here =>
        cases holds
        refine ⟨steps, here.symm, ?_⟩
        intro earlier before
        exact Table.set_pair_ne_none (full earlier before)
    · obtain ⟨there, reaches, isFull⟩ :=
        hashed.linked place inside otherkey other holds
      refine ⟨there, reaches, ?_⟩
      intro earlier before
      exact Table.set_pair_ne_none (isFull earlier before)
  · cases pair : table.pair (table.chain log2Size key steps) with
    | none =>
        rw [(Table.entries_fill target.inside pair).length_eq]
        exact room pair
    | some entry =>
        have kept : (table.set (2 * table.chain log2Size key steps) key
            value).entries.length = table.entries.length := by
          apply contents_length_congr
          intro place _
          rw [Table.set_pair]
          split
          · next here => rw [here, pair]; rfl
          · rfl
        rw [kept]
        exact hashed.room

end Tables

end OpenDylan.Runtime.ClassKeyed
