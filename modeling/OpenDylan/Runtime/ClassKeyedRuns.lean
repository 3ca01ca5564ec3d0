import OpenDylan.Runtime.ClassKeyedKinds

/-!
# Class-keyed discriminators are finite maps

Whatever sequence of pairs is added to an empty discriminator, the one that
results maps every key to the last node for it, and all other keys to the
default.  That is so for up to 2^28 keys; with more, or in a table that was made
for as many, the logarithm of a size need not fit its field, and then a probe
may go on for ever.
-/

namespace OpenDylan.Runtime.ClassKeyed

open OpenDylan.Lib.KeyedMap OpenDylan.Lib.Probing OpenDylan.Lib.SlotVector

section Runs

variable {Node : Type} {among : Finset Int}

/-! ## Empty discriminators -/

/-- Empty discriminators.  The table of a hashed one is made for some number of
cells. -/
inductive Discriminator.Empty : Discriminator Node → Prop where
  | monomorphic : Empty (.monomorphic none)
  | linear (header : Header Node) (tableSize : Nat) :
      Empty (.linear header (Table.empty tableSize))
  | hashed (header : Header Node) (storageSize : Nat) :
      Empty (.hashed header (hashedLog2Size storageSize % 2 ^ log2SizeWidth)
        (Table.empty (2 ^ hashedLog2Size storageSize)))

/-- What is made for some number of keys is empty. -/
theorem empty_setGroundedDefault {d : Discriminator Node} (empty : d.Empty)
    (default : Option Node) : (setGroundedDefault default d).Empty := by
  cases empty with
  | monomorphic => exact .monomorphic
  | linear header tableSize => exact .linear _ tableSize
  | hashed header storageSize => exact .hashed _ storageSize

theorem empty_makeInitial (bySingletonClass : Bool) (numberOfKeys : Nat) :
    (makeInitial bySingletonClass numberOfKeys : Discriminator Node).Empty := by
  simp only [makeInitial]
  split
  · exact .hashed _ _
  · exact .linear _ _

theorem empty_makeByClass (numberOfKeys : Nat) :
    (makeByClass numberOfKeys : Discriminator Node).Empty := by
  rw [makeByClass]
  split
  · exact .monomorphic
  · exact empty_makeInitial false numberOfKeys

theorem empty_makeBySingletonClass (numberOfKeys : Nat) (default : Node) :
    (makeBySingletonClass numberOfKeys default).Empty :=
  empty_setGroundedDefault (empty_makeInitial true numberOfKeys) _

/-- The table of a discriminator has at most 2^31 cells. -/
def Discriminator.Small : Discriminator Node → Prop
  | .monomorphic _ => True
  | .linear _ _ => True
  | .hashed _ _ table => table.size ≤ 2 ^ 31

/-- An empty discriminator is one of those that keys can be added to. -/
theorem Discriminator.Empty.kept {d : Discriminator Node} (empty : d.Empty)
    (small : d.Small) : Kept among d := by
  cases empty with
  | monomorphic =>
      exact .monomorphic fun entry absurdity => nomatch absurdity
  | linear header tableSize =>
      apply Kept.tabular
      exact .linear header (packed_empty tableSize) (within_empty tableSize)
        (by omega)
  | hashed header storageSize =>
      have enough := five_le_hashedLog2Size storageSize
      have fits : hashedLog2Size storageSize < 2 ^ log2SizeWidth := by
        rw [log2SizeWidth]
        by_contra isMore
        have power : 2 ^ 32 ≤ 2 ^ hashedLog2Size storageSize :=
          Nat.pow_le_pow_right (by decide) (by omega)
        rw [Discriminator.Small, size_empty] at small
        omega
      rw [Nat.mod_eq_of_lt fits]
      exact .tabular (.hashed (.intro header (hashed_empty enough fits) enough
        (within_empty _)))

theorem Discriminator.Empty.entries {d : Discriminator Node}
    (empty : d.Empty) : d.entries = [] := by
  cases empty with
  | monomorphic => rfl
  | linear header tableSize => exact entries_empty tableSize
  | hashed header storageSize => exact entries_empty _

/-! ## Lookups -/

/-- Every cycle of probes of a hashed discriminator has an empty pair. -/
def Discriminator.Roomy : Discriminator Node → Prop
  | .monomorphic _ => True
  | .linear _ _ => True
  | .hashed _ log2Size table =>
    ∀ key, ∃ steps, table.pair (table.probed log2Size key steps / 2) = none

/-- `ckd-lookup` answers what the key is mapped to, or the default. -/
theorem Kept.answers {d : Discriminator Node} (kept : Kept among d)
    {absentEngineNode default : Node}
    (hasDefault : groundedDefault absentEngineNode d = some default) :
    ∃ bound, ∀ fuel, bound ≤ fuel → ∀ key,
      ckdLookup absentEngineNode fuel key d =
        some ((lookup keys key d.entries).getD default) := by
  simp only [ckdLookup, hasDefault, Option.bind_some]
  cases kept with
  | @monomorphic pair within =>
      refine ⟨0, fun fuel _ key => ?_⟩
      cases pair with
      | none => rfl
      | some pair =>
          rw [Discriminator.entries, Option.toList_some, lookup_cons,
            ckdLookupDefault, keys_same]
          by_cases same : pair.1 = key
          · simp [same]
          · simp [same, Ne.symm same, lookup]
  | tabular isLinear =>
      cases isLinear with
      | linear header packed within size =>
          refine ⟨0, fun fuel _ key => ?_⟩
          rw [ckdLookupDefault, linearLookup_eq packed.distinct]
          rfl
      | hashed isHashed =>
          cases isHashed with
          | @intro header log2Size table hashed larger within =>
              refine ⟨table.pairs, fun fuel enough key => ?_⟩
              exact hashed.hashedLookup_eq key default enough

theorem Kept.roomy {d : Discriminator Node} (kept : Kept among d) :
    d.Roomy := by
  cases kept with
  | monomorphic within => trivial
  | tabular isLinear =>
      cases isLinear with
      | linear header packed within size => trivial
      | hashed isHashed =>
          cases isHashed with
          | @intro header log2Size table hashed larger within =>
              intro key
              obtain ⟨free, inside, empty⟩ := hashed.exists_empty
              have strideBounds := hashed.sized.stride_bounds key
              obtain ⟨steps, _, reached⟩ := position_covers
                (hashed.sized.coprime key) strideBounds.2 strideBounds.1
                (hashed.sized.first_lt key) inside
              refine ⟨steps, ?_⟩
              have half : table.probed log2Size key steps / 2 = free := by
                rw [hashed.sized.probed_eq, Table.chain, reached]
                omega
              rw [half, empty]

/-! ## Sequences of additions -/

/-- A sequence of additions to an empty discriminator returns one that answers
the last value that was added for a key, and the default for every other key. -/
structure Answers (absentEngineNode : Node) (calls : List (Int × Node))
    (default : Node) (start d : Discriminator Node) : Prop where
  returns : ∃ bound, ∀ fuel, bound ≤ fuel →
    ckdAddAll fuel start calls = some d
  lookups : ∃ bound, ∀ fuel, bound ≤ fuel → ∀ key,
    ckdLookup absentEngineNode fuel key d =
      some ((calls.reverse.lookup key).getD default)
  default : groundedDefault absentEngineNode d = some default
  roomy : d.Roomy

theorem lookup_eq_list (key : Int) (calls : List (Int × Node)) :
    lookup keys key calls = calls.lookup key := by
  induction calls with
  | nil => rfl
  | cons call rest ih =>
      obtain ⟨other, value⟩ := call
      rw [lookup_cons, List.lookup_cons, ih, keys_same]
      by_cases same : key = other
      · simp [same]
      · rw [beq_false_of_ne same, decide_eq_false same]
        rfl

theorem ckdAddAll_answers (absentEngineNode : Node)
    {start : Discriminator Node} (empty : start.Empty) (small : start.Small)
    {default : Node}
    (hasDefault : groundedDefault absentEngineNode start = some default)
    {calls : List (Int × Node)}
    (few : (calls.map Prod.fst).toFinset.card ≤ 2 ^ 28) :
    ∃ d, Answers absentEngineNode calls default start d := by
  have within : Within (calls.map Prod.fst).toFinset calls := by
    intro call member
    rw [List.mem_toFinset]
    exact List.mem_map_of_mem member
  obtain ⟨d, addsAll, kept⟩ :=
    (canAdd_kept few).addsAll (empty.kept small) within
  have sameDefault : groundedDefault absentEngineNode d = some default :=
    (addsAll.default absentEngineNode).trans hasDefault
  refine ⟨d, addsAll.returns, ?_, sameDefault, kept.roomy⟩
  obtain ⟨bound, lookups⟩ := kept.answers sameDefault
  refine ⟨bound, fun fuel enough key => ?_⟩
  rw [lookups fuel enough key, addsAll.lookups, empty.entries,
    lookup_eq_list]
  congr 2
  exact Option.or_none

theorem ckdAddAll_answers_three :
    ∃ d, Answers 0 [(7, 1), (8, 2), (7, 3)] 9 (makeBySingletonClass 4 9) d :=
  ckdAddAll_answers 0 (empty_makeBySingletonClass 4 9) trivial rfl (by decide)

end Runs

/-! ## Tables that are too large -/

/-- What is made for 2^30 keys: the logarithm is 33, and its field holds 1. -/
theorem makeByClass_large :
    (makeByClass (2 ^ 30) : Discriminator Bool) =
      .hashed { bySingletonClass := false } 1 (Table.empty (2 ^ 33)) := rfl

/-- With a mask that is zero, a probe for another key goes on for ever. -/
theorem probe_stuck {table : Table Bool} {key other : Int} {value : Bool}
    {step : Nat} (inside : 0 < table.size)
    (holds : table.pair 0 = some (other, value)) (different : other ≠ key)
    (fuel nprobes : Nat) : probe table key step 0 fuel 0 nprobes = none := by
  have same : nextIndex 0 step 0 = 0 := by
    have zero := land_two_pow_sub_one ((0 : Nat) + step) 0
    rw [Int.pow_zero, Int.sub_self, Int.emod_one] at zero
    rw [nextIndex, zero]
    rfl
  induction fuel generalizing nprobes with
  | zero => rfl
  | succ fuel ih =>
      rw [probe, if_pos inside, Nat.zero_div, holds]
      simp only [if_neg different, same]
      exact ih (nprobes + 1)

/-- The table that was made for 2^30 keys, with the pair for the key zero. -/
def largeTable : Table Bool :=
  (Table.empty (2 ^ 33)).set 0 0 false

theorem ckdAdd_large (fuel : Nat) :
    ckdAdd (fuel + 2) (makeByClass (2 ^ 30)) 0 false =
      some (.hashed { bySingletonClass := false } 1 largeTable) := by
  have index : firstIndex 0 (Table.empty (2 ^ 33) : Table Bool) = 0 := rfl
  have inside : 0 < (Table.empty (2 ^ 33) : Table Bool).size := by
    rw [size_empty]
    decide
  have stays : isEnlarged (Table.empty (2 ^ 33) : Table Bool) 0 = false := by
    simp [isEnlarged, entries_empty]
  have free : (Table.empty (2 ^ 33) : Table Bool).pair (0 / 2) = none := rfl
  have ends : probeFor (fuel + 1) (Table.empty (2 ^ 33) : Table Bool) 1 0 =
      some (0, 0) := by
    rw [probeFor, index, probe, if_pos inside, free]
  rw [makeByClass_large, ckdAdd, hckdAdd, ends, Option.bind_some, hckdAddAt,
    stays, Bool.and_false, if_neg Bool.false_ne_true]
  rfl

theorem ckdAdd_largeTable (fuel : Nat) :
    ckdAdd fuel (.hashed { bySingletonClass := false } 1 largeTable)
      (2 ^ 33) false = none := by
  have index : firstIndex (2 ^ 33) largeTable = 0 := rfl
  have inside : 0 < largeTable.size := by
    rw [largeTable, Table.set_size, size_empty]
    decide
  cases fuel with
  | zero => rfl
  | succ fuel =>
      have holds : largeTable.pair 0 = some (0, false) := rfl
      have mask : hashMask 1 = 0 := rfl
      rw [ckdAdd, hckdAdd, probeFor, index, mask,
        probe_stuck inside holds (by decide)]
      rfl

/-- Of an empty discriminator for 2^30 keys, to which two keys are added that
differ by the size of its table, the second addition does not return. -/
theorem not_ckdAddAll_answers :
    ¬ ∀ (calls : List (Int × Bool)) (start : Discriminator Bool)
      (default : Bool), start.Empty →
      groundedDefault true start = some default →
        ∃ d, Answers true calls default start d := by
  intro answers
  obtain ⟨d, answered⟩ := answers [(0, false), (2 ^ 33, false)]
    (makeByClass (2 ^ 30)) true (empty_makeByClass _) rfl
  obtain ⟨bound, returns⟩ := answered.returns
  have returned := returns (bound + 2) (Nat.le_add_right _ _)
  rw [ckdAddAll, addAll, List.foldlM_cons, ckdAdd_large] at returned
  simp only [List.foldlM_cons, Option.bind_eq_bind, Option.bind_some,
    ckdAdd_largeTable, Option.bind_none] at returned
  cases returned


end OpenDylan.Runtime.ClassKeyed
