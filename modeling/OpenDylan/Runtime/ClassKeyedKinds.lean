import Mathlib.Data.Finset.Card
import OpenDylan.Runtime.ClassKeyedTables

/-!
# Adding to a class-keyed discriminator

A table grows when there is no place for a key, or when a probe has been too
long.  The pairs of the old table are then added to the new one, which may grow
in turn.  A hashed table whose quarter is as large as the number of keys does
not grow, so that growth ends, before the field for the logarithm of the size is
too small.
-/

namespace OpenDylan.Runtime.ClassKeyed

open OpenDylan.Lib.KeyedMap OpenDylan.Lib.SlotVector

variable {Node : Type}

/-- The pairs of a discriminator. -/
def Discriminator.entries : Discriminator Node → List (Int × Node)
  | .monomorphic pair => pair.toList
  | .linear _ table => table.entries
  | .hashed _ _ table => table.entries

/-- Every key of some pairs is one of these keys. -/
def Within (among : Finset Int) (pairs : List (Int × Node)) : Prop :=
  ∀ pair ∈ pairs, pair.1 ∈ among

/-- `ckd-add!` returns a discriminator that maps the key to the value and other
keys as before, with the same default. -/
structure Adds (d after : Discriminator Node) (key : Int) (value : Node) :
    Prop where
  returns : ∃ bound, ∀ fuel, bound ≤ fuel →
    ckdAdd fuel d key value = some after
  stores : Stores after.entries d.entries key value
  default : ∀ absentEngineNode,
    groundedDefault absentEngineNode after =
      groundedDefault absentEngineNode d

/-- Keys can be added to the discriminators of a kind, and give such ones. -/
def CanAdd (among : Finset Int) (kind : Discriminator Node → Prop) : Prop :=
  ∀ d, kind d → ∀ key ∈ among, ∀ value,
    ∃ after, Adds d after key value ∧ kind after

section Additions

variable {among : Finset Int} {key : Int} {value : Node}

/-! ## Finite maps -/

theorem Stores.within {after before : List (Int × Node)}
    (stores : Stores after before key value) (within : Within among before)
    (member : key ∈ among) : Within among after := by
  rintro ⟨other, node⟩ isPair
  have found := lookup_of_mem stores.distinct isPair (keys.refl other)
  rw [stores.lookups] at found
  split at found
  · next same => rwa [of_decide_eq_true same]
  · obtain ⟨stored, isStored, same⟩ := mem_of_lookup found
    rw [of_decide_eq_true same]
    exact within _ isStored

/-- There are no more pairs than keys. -/
theorem length_le_card {pairs : List (Int × Node)}
    (distinct : Distinct keys pairs) (within : Within among pairs) :
    pairs.length ≤ among.card := by
  have nodup : (pairs.map Prod.fst).Nodup := by
    rw [List.Nodup, List.pairwise_map]
    apply List.Pairwise.imp _ distinct
    intro first second apart
    exact of_decide_eq_false apart
  have sub : (pairs.map Prod.fst).toFinset ⊆ among := by
    intro other member
    rw [List.mem_toFinset, List.mem_map] at member
    obtain ⟨pair, isPair, isKey⟩ := member
    rw [← isKey]
    exact within pair isPair
  have count := Finset.card_le_card sub
  rwa [List.toFinset_card_of_nodup nodup, List.length_map] at count

/-! ## Adding several pairs -/

/-- Adding pairs one after the other returns a discriminator that maps every key
to the last value for it, and other keys as before. -/
structure AddsAll (d after : Discriminator Node) (pairs : List (Int × Node)) :
    Prop where
  returns : ∃ bound, ∀ fuel, bound ≤ fuel →
    addAll (ckdAdd fuel) d pairs = some after
  lookups : ∀ wanted, lookup keys wanted after.entries =
    (lookup keys wanted pairs.reverse).or (lookup keys wanted d.entries)
  default : ∀ absentEngineNode,
    groundedDefault absentEngineNode after =
      groundedDefault absentEngineNode d

theorem CanAdd.addsAll {kind : Discriminator Node → Prop}
    (canAdd : CanAdd among kind) {d : Discriminator Node} (isKind : kind d)
    {pairs : List (Int × Node)} (within : Within among pairs) :
    ∃ after, AddsAll d after pairs ∧ kind after := by
  induction pairs generalizing d with
  | nil =>
      refine ⟨d, ⟨⟨0, fun _ _ => rfl⟩, fun _ => rfl, fun _ => rfl⟩, isKind⟩
  | cons pair rest ih =>
      obtain ⟨next, adds, isNext⟩ := canAdd d isKind pair.1
        (within pair List.mem_cons_self) pair.2
      obtain ⟨after, addsAll, isAfter⟩ := ih isNext
        fun other member => within other (List.mem_cons_of_mem pair member)
      refine ⟨after, ⟨?_, ?_, ?_⟩, isAfter⟩
      · obtain ⟨first, returns⟩ := adds.returns
        obtain ⟨second, returnsAll⟩ := addsAll.returns
        refine ⟨max first second, fun fuel enough => ?_⟩
        have returned := returns fuel (Nat.le_trans (Nat.le_max_left ..) enough)
        rw [addAll, List.foldlM_cons, returned]
        exact returnsAll fuel (Nat.le_trans (Nat.le_max_right ..) enough)
      · intro wanted
        rw [addsAll.lookups, adds.stores.lookups, List.reverse_cons,
          lookup_append, lookup_cons, Option.or_assoc]
        split <;> rfl
      · intro absentEngineNode
        rw [addsAll.default, adds.default]

/-- A discriminator of the kind stands for one that has grown. -/
theorem CanAdd.grown {kind : Discriminator Node → Prop}
    (canAdd : CanAdd among kind) {d nd : Discriminator Node}
    (isKind : kind nd) (empty : nd.entries = [])
    (default : ∀ absentEngineNode, groundedDefault absentEngineNode nd =
      groundedDefault absentEngineNode d)
    (distinct : Distinct keys d.entries) (within : Within among d.entries)
    (member : key ∈ among)
    (grows : ∃ bound, ∀ fuel, bound ≤ fuel → ckdAdd (fuel + 1) d key value =
      (addAll (ckdAdd fuel) nd d.entries).bind fun nd =>
        ckdAdd fuel nd key value) :
    ∃ after, Adds d after key value ∧ kind after := by
  obtain ⟨full, addsAll, isFull⟩ := canAdd.addsAll isKind within
  obtain ⟨after, adds, isAfter⟩ := canAdd full isFull key member value
  refine ⟨after, ⟨?_, ⟨adds.stores.distinct, ?_⟩, ?_⟩, isAfter⟩
  · obtain ⟨first, returnsAll⟩ := addsAll.returns
    obtain ⟨second, returns⟩ := adds.returns
    obtain ⟨third, calls⟩ := grows
    refine ⟨first + second + third + 1, fun fuel enough => ?_⟩
    cases fuel with
    | zero => omega
    | succ fuel =>
        rw [calls fuel (by omega), returnsAll fuel (by omega),
          Option.bind_some, returns fuel (by omega)]
  · intro wanted
    have same : lookup keys wanted full.entries =
        lookup keys wanted d.entries := by
      rw [addsAll.lookups, empty]
      rw [lookup_perm (distinct.perm (List.reverse_perm _).symm)
        (List.reverse_perm d.entries)]
      exact Option.or_none
    rw [adds.stores.lookups, same]
  · intro absentEngineNode
    rw [adds.default, addsAll.default, default]

end Additions

end OpenDylan.Runtime.ClassKeyed

/-!
# Kinds of class-keyed discriminators

A hashed discriminator stays hashed.  A linear one can grow a few times and then
becomes hashed, and a monomorphic one becomes linear.  For each kind, adding a
key returns a discriminator of the kind or of one of those it can become, as
long as there are no more than 2^28 keys: then a hashed table whose size has 31
for its logarithm does not grow.
-/

namespace OpenDylan.Runtime.ClassKeyed

open OpenDylan.Lib.KeyedMap

section Kinds

variable {Node : Type} {among : Finset Int} {key : Int} {value : Node}
  {table : Table Node} {log2Size : Nat}

/-- The number of keys for which no table outgrows the field. -/
def mostKeys : Nat := 2 ^ 28

/-! ## Hashed discriminators -/

/-- Hashed discriminators of some size on. -/
inductive HashedFrom (among : Finset Int) (least : Nat) :
    Discriminator Node → Prop where
  | intro (header : Header Node) {log2Size : Nat} {table : Table Node}
      (hashed : table.Hashed log2Size) (larger : least ≤ log2Size)
      (within : Within among table.entries) :
      HashedFrom among least (.hashed header log2Size table)

theorem HashedFrom.mono {least lower : Nat} {d : Discriminator Node}
    (hashed : HashedFrom among least d) (smaller : lower ≤ least) :
    HashedFrom among lower d := by
  cases hashed with
  | intro header hashed larger within =>
      exact .intro header hashed (Nat.le_trans smaller larger) within

/-- A table that is not enlarged has room for a pair and an empty one. -/
theorem room_of_not_enlarged (sized : table.Sized log2Size) {nprobes : Nat}
    (stays : isEnlarged table nprobes = false) :
    table.entries.length + 1 < table.pairs := by
  obtain ⟨quarter, positive, pairs⟩ := sized.pairs_dvd
  have size : table.size = 32 * quarter := by
    rw [Table.size, pairs]
    omega
  simp only [isEnlarged, size] at stays
  split at stays
  · omega
  · split at stays
    · omega
    · rw [Bool.or_eq_false_iff, decide_eq_false_iff_not] at stays
      omega

/-- A table that is enlarged is more than a quarter full. -/
theorem full_of_enlarged {nprobes : Nat}
    (grows : isEnlarged table nprobes = true) :
    table.size / 8 < table.entries.length := by
  simp only [isEnlarged] at grows
  split at grows
  · cases grows
  · omega

/-- What the attributes of a discriminator are copied to. -/
def Header.copied (header : Header Node) : Header Node where
  bySingletonClass := header.bySingletonClass
  default := if header.bySingletonClass then header.default else none

theorem copyAttributes_makeHashed (header : Header Node)
    (fits : log2Size < 2 ^ log2SizeWidth) :
    copyAttributes header (makeHashed header.bySingletonClass log2Size) =
      .hashed header.copied log2Size (Table.empty (2 ^ log2Size)) := by
  rw [copyAttributes, makeHashed, Nat.mod_eq_of_lt fits, Header.copied]
  cases header.bySingletonClass <;> rfl

theorem copyAttributes_makeLinear (header : Header Node) (tableSize : Nat) :
    copyAttributes header (makeLinear header.bySingletonClass tableSize) =
      .linear header.copied (Table.empty tableSize) := by
  rw [copyAttributes, makeLinear, Header.copied]
  cases header.bySingletonClass <;> rfl

/-- The copied default is the default. -/
theorem Header.copied_default (header : Header Node)
    (absentEngineNode : Node) :
    (if header.copied.bySingletonClass then header.copied.default
      else some absentEngineNode) =
    if header.bySingletonClass then header.default
      else some absentEngineNode := by
  simp only [Header.copied]
  split <;> rfl

theorem within_empty (tableSize : Nat) :
    Within among (Table.empty tableSize : Table Node).entries := by
  rw [Within, entries_empty]
  exact fun _ absurdity => nomatch absurdity

/-- A pair is added to a hashed table, or to the next larger one. -/
theorem hashed_add {least : Nat} (header : Header Node)
    (hashed : table.Hashed log2Size) (larger : least ≤ log2Size)
    (within : Within among table.entries)
    (few : among.card ≤ mostKeys) (member : key ∈ among)
    (next : log2Size + 1 < 2 ^ log2SizeWidth →
      CanAdd among (@HashedFrom Node among (log2Size + 1))) :
    ∃ after, Adds (.hashed header log2Size table) after key value ∧
      HashedFrom among least after := by
  obtain ⟨steps, target, full, probes⟩ := hashed.probe key
  have half : 2 * table.chain log2Size key steps / 2 =
      table.chain log2Size key steps := by omega
  cases enlarges : (table.pair (table.chain log2Size key steps)).isNone &&
      isEnlarged table steps with
  | true =>
      rw [Bool.and_eq_true] at enlarges
      have count := length_le_card hashed.distinct within
      have isFull := full_of_enlarged enlarges.2
      have fits : log2Size + 1 < 2 ^ log2SizeWidth := by
        have below := hashed.sized.fits
        rw [log2SizeWidth] at below ⊢
        by_contra isLast
        have last : log2Size = 31 := by omega
        rw [hashed.sized.size, last] at isFull
        rw [mostKeys] at few
        omega
      have enough : 5 ≤ log2Size + 1 :=
        Nat.le_succ_of_le hashed.sized.enough
      have isKind : HashedFrom among (log2Size + 1)
          (.hashed header.copied (log2Size + 1)
            (Table.empty (2 ^ (log2Size + 1))) : Discriminator Node) :=
        .intro header.copied (hashed_empty enough fits) (Nat.le_refl _)
          (within_empty _)
      have grows : ∃ bound, ∀ fuel, bound ≤ fuel →
          ckdAdd (fuel + 1) (.hashed header log2Size table) key value =
            (addAll (ckdAdd fuel) (.hashed header.copied (log2Size + 1)
              (Table.empty (2 ^ (log2Size + 1)))) table.entries).bind
                fun nd => ckdAdd fuel nd key value := by
        refine ⟨table.pairs, fun fuel enough => ?_⟩
        rw [ckdAdd, hckdAdd, probes fuel enough, Option.bind_some,
          hckdAddAt, half, enlarges.1, enlarges.2, growHashed,
          copyAttributes_makeHashed header fits]
        rfl
      obtain ⟨after, adds, isAfter⟩ := (next fits).grown
        (d := .hashed header log2Size table) isKind (entries_empty _)
        header.copied_default hashed.distinct within member grows
      exact ⟨after, adds, isAfter.mono (Nat.le_succ_of_le larger)⟩
  | false =>
      have room : table.pair (table.chain log2Size key steps) = none →
          table.entries.length + 1 < table.pairs := by
        intro empty
        rw [empty, Option.isNone_none, Bool.true_and] at enlarges
        exact room_of_not_enlarged hashed.sized enlarges
      have stores : Stores (table.set (2 * table.chain log2Size key steps)
          key value).entries table.entries key value :=
        target.stores hashed.distinct
      refine ⟨.hashed header log2Size (table.set
        (2 * table.chain log2Size key steps) key value), ⟨?_, stores, ?_⟩, ?_⟩
      · refine ⟨table.pairs + 1, fun fuel enough => ?_⟩
        cases fuel with
        | zero => omega
        | succ fuel =>
            rw [ckdAdd, hckdAdd, probes fuel (by omega), Option.bind_some,
              hckdAddAt, half, enlarges]
            rfl
      · intro absentEngineNode
        rfl
      · exact .intro header (hashed.set target full room) larger
          (stores.within within member)

/-- Keys can be added to hashed discriminators. -/
theorem canAdd_hashed (few : among.card ≤ mostKeys) (least : Nat) :
    CanAdd among (@HashedFrom Node among least) := by
  -- The induction is on how many sizes are left.
  have below : ∀ left least, 2 ^ log2SizeWidth ≤ least + left →
      CanAdd among (@HashedFrom Node among least) := by
    intro left
    induction left with
    | zero =>
        intro least large d isKind
        cases isKind with
        | intro header hashed larger within =>
            have fits := hashed.sized.fits
            omega
    | succ left ih =>
        intro least large d isKind key member value
        cases isKind with
        | intro header hashed larger within =>
            apply hashed_add header hashed larger within few member
            intro _
            exact ih _ (by omega)
  exact below (2 ^ log2SizeWidth) least (Nat.le_add_left _ _)

/-! ## Linear discriminators -/

theorem log2SizeLoop_spec {storageSize fuel i : Nat}
    (enough : storageSize < 2 ^ (i + fuel)) :
    ∃ last, i ≤ last ∧ log2SizeLoop storageSize fuel i = last + 1 ∧
      (i < last → 2 ^ (last - 1) ≤ storageSize) := by
  induction fuel generalizing i with
  | zero => exact ⟨i, Nat.le_refl i, rfl, fun absurdity => by omega⟩
  | succ fuel ih =>
      rw [log2SizeLoop]
      split
      · exact ⟨i, Nat.le_refl i, rfl, fun absurdity => by omega⟩
      · next small =>
          obtain ⟨last, later, isLast, large⟩ := ih (i := i + 1) (by
            rwa [Nat.add_right_comm])
          refine ⟨last, by omega, isLast, fun _ => ?_⟩
          by_cases same : i + 1 = last
          · rw [← same, Nat.add_sub_cancel]
            exact Nat.not_lt.mp small
          · exact large (by omega)

theorem hashedLog2Size_spec (storageSize : Nat) :
    ∃ last, 4 ≤ last ∧ hashedLog2Size storageSize = last + 1 ∧
      (4 < last → 2 ^ (last - 1) ≤ storageSize) :=
  log2SizeLoop_spec (Nat.lt_of_lt_of_le Nat.lt_two_pow_self
    (Nat.pow_le_pow_right (by decide) (Nat.le_add_left _ _)))

theorem five_le_hashedLog2Size (storageSize : Nat) :
    5 ≤ hashedLog2Size storageSize := by
  obtain ⟨last, later, isLast, _⟩ := hashedLog2Size_spec storageSize
  omega

/-- The logarithm for a table that is not too large fits its field. -/
theorem hashedLog2Size_fits {storageSize : Nat}
    (small : storageSize < 2 ^ 30) :
    hashedLog2Size storageSize < 2 ^ log2SizeWidth := by
  obtain ⟨last, later, isLast, large⟩ := hashedLog2Size_spec storageSize
  rw [isLast, log2SizeWidth]
  by_contra isMore
  have power : 2 ^ 30 ≤ 2 ^ (last - 1) :=
    Nat.pow_le_pow_right (by decide) (by omega)
  have bound := large (by omega)
  omega

/-- Linear discriminators that can grow so many times and stay linear, and the
hashed ones that they become. -/
inductive LinearFrom (among : Finset Int) (times : Nat) :
    Discriminator Node → Prop where
  | hashed {d : Discriminator Node} (isHashed : HashedFrom among 5 d) :
      LinearFrom among times d
  | linear (header : Header Node) {table : Table Node}
      (packed : table.Packed) (within : Within among table.entries)
      (size : 6 ≤ table.size + 4 * times) :
      LinearFrom among times (.linear header table)

theorem LinearFrom.succ {times : Nat} {d : Discriminator Node}
    (isKind : LinearFrom among times d) : LinearFrom among (times + 1) d := by
  cases isKind with
  | hashed isHashed => exact .hashed isHashed
  | linear header packed within size =>
      exact .linear header packed within (by omega)

/-- A linear discriminator that is full grows to an empty one, with its
default, that is hashed or can grow once less. -/
theorem grownLinear_spec (header : Header Node) {times : Nat}
    (size : 6 ≤ table.size + 4 * times) (small : table.size + 4 < 2 ^ 30) :
    (HashedFrom among 5 (grownLinear header table) ∨
      ∃ fewer, times = fewer + 1 ∧
        LinearFrom among fewer (grownLinear header table)) ∧
    (grownLinear header table).entries = [] ∧
    ∀ absentEngineNode,
      groundedDefault absentEngineNode (grownLinear header table) =
        groundedDefault absentEngineNode (.linear header table) := by
  by_cases isLinear : table.size + 4 < 10
  · have made : grownLinear header table =
        .linear header.copied (Table.empty (table.size + 4)) := by
      rw [← copyAttributes_makeLinear]
      simp [grownLinear, linearDiscriminatorTableGrowthIncrement,
        linearDiscriminatorTableLimit, isLinear]
    have even : table.size = 2 * table.pairs := rfl
    have larger : 6 ≤ (Table.empty (table.size + 4) : Table Node).size +
        4 * (times - 1) := by
      rw [size_empty]
      omega
    rw [made]
    refine ⟨Or.inr ⟨times - 1, by omega, ?_⟩, entries_empty _,
      header.copied_default⟩
    exact .linear _ (packed_empty _) (within_empty _) larger
  · have enough := five_le_hashedLog2Size (table.size + 4)
    have fits := hashedLog2Size_fits small
    have made : grownLinear header table = .hashed header.copied
        (hashedLog2Size (table.size + 4))
        (Table.empty (2 ^ hashedLog2Size (table.size + 4))) := by
      rw [← copyAttributes_makeHashed header fits]
      simp [grownLinear, linearDiscriminatorTableGrowthIncrement,
        linearDiscriminatorTableLimit, isLinear]
    rw [made]
    refine ⟨Or.inl ?_, entries_empty _, header.copied_default⟩
    exact .intro header.copied (hashed_empty enough fits) enough
      (within_empty _)

/-- A pair is added to a linear table, or to a larger one. -/
theorem linear_add {times : Nat} (header : Header Node)
    (packed : table.Packed) (within : Within among table.entries)
    (size : 6 ≤ table.size + 4 * times) (few : among.card ≤ mostKeys)
    (member : key ∈ among)
    (next : ∀ fewer, times = fewer + 1 →
      CanAdd among (@LinearFrom Node among fewer)) :
    ∃ after, Adds (.linear header table) after key value ∧
      LinearFrom among times after := by
  cases found : table.find fun pair => pair.all fun entry =>
      entry.1 = key with
  | some i =>
      obtain ⟨place, isIndex, target, full⟩ := packed.target found
      subst isIndex
      have stores : Stores (table.set (2 * place) key value).entries
          table.entries key value := target.stores packed.distinct
      refine ⟨.linear header (table.set (2 * place) key value),
        ⟨?_, stores, fun _ => rfl⟩, ?_⟩
      · refine ⟨1, fun fuel enough => ?_⟩
        cases fuel with
        | zero => omega
        | succ fuel => rw [ckdAdd, lckdAdd, found]
      · exact .linear header (packed.set target full)
          (stores.within within member) size
  | none =>
      have isFull := (Table.full_of_find found).1
      have count := length_le_card packed.distinct within
      have small : table.size + 4 < 2 ^ 30 := by
        rw [Table.size, ← isFull]
        rw [mostKeys] at few
        omega
      have grows : ∃ bound, ∀ fuel, bound ≤ fuel →
          ckdAdd (fuel + 1) (.linear header table) key value =
            (addAll (ckdAdd fuel) (grownLinear header table)
              table.entries).bind fun nd => ckdAdd fuel nd key value := by
        refine ⟨0, fun fuel _ => ?_⟩
        rw [ckdAdd, lckdAdd, found]
        rfl
      obtain ⟨kind, empty, default⟩ :=
        @grownLinear_spec _ among table header times size small
      cases kind with
      | inl isHashed =>
          obtain ⟨after, adds, isAfter⟩ := (canAdd_hashed few 5).grown
            isHashed empty default packed.distinct within member grows
          exact ⟨after, adds, .hashed isAfter⟩
      | inr isLinear =>
          obtain ⟨fewer, isTimes, isLinear⟩ := isLinear
          obtain ⟨after, adds, isAfter⟩ := (next fewer isTimes).grown
            isLinear empty default packed.distinct within member grows
          refine ⟨after, adds, ?_⟩
          rw [isTimes]
          exact isAfter.succ

/-- Keys can be added to linear discriminators. -/
theorem canAdd_linear (few : among.card ≤ mostKeys) (times : Nat) :
    CanAdd among (@LinearFrom Node among times) := by
  have step : ∀ times, (∀ fewer, times = fewer + 1 →
      CanAdd among (@LinearFrom Node among fewer)) →
      CanAdd among (@LinearFrom Node among times) := by
    intro times next d isKind key member value
    cases isKind with
    | hashed isHashed =>
        obtain ⟨after, adds, isAfter⟩ :=
          canAdd_hashed few 5 d isHashed key member value
        exact ⟨after, adds, .hashed isAfter⟩
    | linear header packed within size =>
        exact linear_add header packed within size few member next
  induction times with
  | zero =>
      apply step
      intro fewer absurdity
      omega
  | succ times ih =>
      apply step
      intro fewer same
      cases same
      exact ih

/-! ## All discriminators -/

/-- The discriminators that come from empty ones. -/
inductive Kept (among : Finset Int) : Discriminator Node → Prop where
  | monomorphic {pair : Option (Int × Node)}
      (within : Within among pair.toList) : Kept among (.monomorphic pair)
  | tabular {d : Discriminator Node} (isLinear : LinearFrom among 2 d) :
      Kept among d

/-- The table that takes over the pair of a monomorphic discriminator. -/
theorem lckdAdd_first
    (add : Discriminator Node → Int → Node → Option (Discriminator Node))
    (header : Header Node) :
    lckdAdd add header (Table.empty 2) key value =
      some (.linear header ((Table.empty 2).set 0 key value)) := rfl

theorem packed_first :
    ((Table.empty 2).set 0 key value : Table Node).Packed := by
  have target : (Table.empty 2 : Table Node).Target key 0 := by
    refine ⟨Nat.one_pos, Or.inr ⟨rfl, ?_⟩⟩
    rw [entries_empty]
    exact fun _ absurdity => nomatch absurdity
  apply (packed_empty 2).set target
  intro earlier absurdity
  omega

theorem entries_first :
    ((Table.empty 2).set 0 key value : Table Node).entries =
      [(key, value)] := rfl

/-- Keys can be added to all these discriminators. -/
theorem canAdd_kept (few : among.card ≤ mostKeys) :
    CanAdd among (@Kept Node among) := by
  intro d isKind key member value
  cases isKind with
  | tabular isLinear =>
      obtain ⟨after, adds, isAfter⟩ :=
        canAdd_linear few 2 d isLinear key member value
      exact ⟨after, adds, .tabular isAfter⟩
  | @monomorphic pair within =>
      have alone : ∀ {pair : Option (Int × Node)},
          (∀ entry ∈ pair, entry.1 = key) →
          (∀ fuel, ckdAdd (fuel + 1) (.monomorphic pair) key value =
            some (.monomorphic (some (key, value)))) →
          ∃ after, Adds (.monomorphic pair) after key value ∧
            Kept among after := by
        intro pair same returns
        refine ⟨.monomorphic (some (key, value)), ⟨?_, ⟨?_, ?_⟩, ?_⟩, ?_⟩
        · refine ⟨1, fun fuel enough => ?_⟩
          cases fuel with
          | zero => omega
          | succ fuel => exact returns fuel
        · exact List.pairwise_singleton _ _
        · intro wanted
          have others : keys.same wanted key = false →
              lookup keys wanted pair.toList = none := by
            intro different
            rw [lookup_eq_none]
            intro entry isEntry
            rwa [same entry (Option.mem_toList.mp isEntry)]
          rw [Discriminator.entries, Discriminator.entries,
            Option.toList_some, lookup_cons]
          split
          · rfl
          · next different =>
              rw [others (Bool.not_eq_true _ ▸ different)]
              rfl
        · intro absentEngineNode
          rfl
        · apply Kept.monomorphic
          intro entry isEntry
          rw [List.mem_singleton.mp isEntry]
          exact member
      cases pair with
      | none =>
          apply alone
          · exact fun entry absurdity => nomatch absurdity
          · exact fun fuel => rfl
      | some pair =>
          by_cases same : pair.1 = key
          · apply alone
            · intro entry isEntry
              cases isEntry
              exact same
            · intro fuel
              exact if_pos same
          · -- The pair moves to a linear discriminator.
            have first : LinearFrom among 1
                (.linear { bySingletonClass := false }
                  ((Table.empty 2).set 0 pair.1 pair.2) :
                  Discriminator Node) := by
              apply LinearFrom.linear _ packed_first
              · rw [entries_first]
                exact within
              · rw [Table.set_size, size_empty]
            obtain ⟨after, adds, isAfter⟩ :=
              canAdd_linear few 1 _ first key member value
            refine ⟨after, ⟨?_, ?_, adds.default⟩, .tabular isAfter.succ⟩
            · obtain ⟨bound, returns⟩ := adds.returns
              refine ⟨bound + 1, fun fuel enough => ?_⟩
              cases fuel with
              | zero => omega
              | succ fuel =>
                  rw [ckdAdd, mckdAdd, if_neg same, lckdAdd_first,
                    Option.bind_some]
                  exact returns fuel (by omega)
            · have stores := adds.stores
              rwa [Discriminator.entries.eq_2, entries_first] at stores

end Kinds

end OpenDylan.Runtime.ClassKeyed
