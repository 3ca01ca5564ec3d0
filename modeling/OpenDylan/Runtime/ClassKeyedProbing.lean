import OpenDylan.Lib.Probing
import OpenDylan.Runtime.ClassKeyed

/-!
# Probing class-keyed tables

A hashed table has a power of two pairs, and the step between the pairs that are
probed for a key is odd.  So every pair is probed before one is probed again,
and a probe ends in a table that has an empty pair.
-/

namespace OpenDylan.Runtime.ClassKeyed

open OpenDylan.Lib.Probing OpenDylan.Lib.SlotVector

variable {Node : Type}

/-! ## Masks -/

/-- The remainder of a number with one more bit below. -/
theorem bit_emod (bit : Bool) (half : Int) {modulus : Int}
    (positive : 0 < modulus) :
    Int.bit bit half % (2 * modulus) = Int.bit bit (half % modulus) := by
  have below := Int.emod_lt_of_pos half positive
  have above := Int.emod_nonneg half (Int.ne_of_gt positive)
  have split : Int.bit bit half =
      Int.bit bit (half % modulus) + 2 * modulus * (half / modulus) := by
    rw [Int.bit_val, Int.bit_val, Int.mul_assoc]
    have whole := Int.emod_add_mul_ediv half modulus
    omega
  rw [split, Int.add_mul_emod_self_left, Int.bit_val]
  cases bit with
  | false => exact Int.emod_eq_of_lt (by simp; omega) (by simp; omega)
  | true => exact Int.emod_eq_of_lt (by simp; omega) (by simp; omega)

theorem land_two_pow_sub_one (n : Int) (bits : Nat) :
    n.land (2 ^ bits - 1) = n % 2 ^ bits := by
  induction bits generalizing n with
  | zero =>
      rw [Int.pow_zero, Int.sub_self, Int.emod_one]
      cases n <;> simp [Int.land, Nat.ldiff]
  | succ bits ih =>
      have mask : (2 : Int) ^ (bits + 1) - 1 =
          Int.bit true (2 ^ bits - 1) := by
        rw [Int.bit_val, Int.pow_succ, Bool.cond_true]
        omega
      rw [mask, ← Int.bit_decomp n, Int.land_bit, ih, Bool.and_true,
        Int.pow_succ, Int.mul_comm, bit_emod]
      exact Int.pow_pos (by decide)

/-- A mask without the lowest bit. -/
theorem land_two_pow_sub_two (n : Int) (bits : Nat) :
    n.land (2 ^ (bits + 1) - 2) = 2 * (n / 2 % 2 ^ bits) := by
  have mask : (2 : Int) ^ (bits + 1) - 2 = Int.bit false (2 ^ bits - 1) := by
    rw [Int.bit_val, Int.pow_succ, Bool.cond_false]
    omega
  have half : n / 2 = Int.div2 n := (Int.div2_val n).symm
  rw [mask, half]
  conv_lhs => rw [← Int.bit_decomp n]
  rw [Int.land_bit, land_two_pow_sub_one, Bool.and_false, Int.bit_val,
    Bool.cond_false, Int.add_zero]

/-! ## The step for a key -/

theorem hashStep_mem (key : Int) (log2Size : Nat) :
    hashStep key log2Size ∈ secondHashValues := by
  have mask : secondHashMask = 2 ^ 4 - 1 := rfl
  have inside : ((key >>> log2Size).land secondHashMask).toNat <
      secondHashValues.length := by
    rw [mask, land_two_pow_sub_one]
    simp only [secondHashValues, List.length_cons, List.length_nil]
    omega
  rw [hashStep, List.getD_eq_getElem _ _ inside]
  exact List.getElem_mem inside

/-- The step in pairs. -/
def pairStep (key : Int) (log2Size : Nat) : Nat :=
  hashStep key log2Size / 2

theorem hashStep_eq (key : Int) (log2Size : Nat) :
    hashStep key log2Size = 2 * pairStep key log2Size := by
  have even : ∀ step ∈ secondHashValues, step = 2 * (step / 2) := by decide
  exact even _ (hashStep_mem key log2Size)

theorem pairStep_odd (key : Int) (log2Size : Nat) :
    pairStep key log2Size % 2 = 1 := by
  have odd : ∀ step ∈ secondHashValues, step / 2 % 2 = 1 := by decide
  exact odd _ (hashStep_mem key log2Size)

/-! ## Sizes -/

/-- The field holds the logarithm of the size of a table, which is not less than
the smallest that is made. -/
structure Table.Sized (log2Size : Nat) (table : Table Node) : Prop where
  enough : 5 ≤ log2Size
  fits : log2Size < 2 ^ log2SizeWidth
  pairs : table.pairs = 2 ^ (log2Size - 1)

section Sized

variable {table : Table Node} {log2Size : Nat}

theorem Table.Sized.size (sized : table.Sized log2Size) :
    table.size = 2 ^ log2Size := by
  have enough := sized.enough
  rw [Table.size, sized.pairs, ← Nat.pow_succ']
  congr 1
  omega

theorem Table.Sized.pairs_dvd (sized : table.Sized log2Size) :
    ∃ quarter, 0 < quarter ∧ table.pairs = 16 * quarter := by
  refine ⟨2 ^ (log2Size - 5), Nat.two_pow_pos _, ?_⟩
  have enough := sized.enough
  have whole : log2Size - 1 = 4 + (log2Size - 5) := by omega
  rw [sized.pairs, whole, Nat.pow_add]

theorem Table.Sized.pairs_pos (sized : table.Sized log2Size) :
    0 < table.pairs := by
  rw [sized.pairs]
  exact Nat.two_pow_pos _

/-- How far a probe goes down, around the table, when it goes up by the step. -/
def Table.stride (table : Table Node) (log2Size : Nat) (key : Int) : Nat :=
  table.pairs - pairStep key log2Size % table.pairs

/-- The pair that is probed first. -/
def Table.first (table : Table Node) (key : Int) : Nat :=
  (key / 2 % table.pairs).toNat

/-- The pairs that are probed for a key. -/
def Table.chain (table : Table Node) (log2Size : Nat) (key : Int)
    (steps : Nat) : Nat :=
  position table.pairs (table.stride log2Size key) (table.first key) steps

theorem Table.Sized.first_lt (sized : table.Sized log2Size) (key : Int) :
    table.first key < table.pairs := by
  have positive := sized.pairs_pos
  rw [Table.first]
  have below := Int.emod_lt_of_pos (key / 2) (Int.natCast_pos.mpr positive)
  have above := Int.emod_nonneg (key / 2)
    (Int.ofNat_ne_zero.mpr (Nat.ne_of_gt positive))
  omega

theorem Table.Sized.step_pos (sized : table.Sized log2Size) (key : Int) :
    pairStep key log2Size % table.pairs % 2 = 1 := by
  obtain ⟨quarter, _, pairs⟩ := sized.pairs_dvd
  have even : 2 ∣ table.pairs := ⟨8 * quarter, by omega⟩
  rw [Nat.mod_mod_of_dvd _ even]
  exact pairStep_odd key log2Size

theorem Table.Sized.stride_bounds (sized : table.Sized log2Size)
    (key : Int) :
    0 < table.stride log2Size key ∧
      table.stride log2Size key < table.pairs := by
  have below := Nat.mod_lt (pairStep key log2Size) sized.pairs_pos
  have odd := sized.step_pos key
  rw [Table.stride]
  omega

/-- The stride has no factor in common with the number of pairs. -/
theorem Table.Sized.coprime (sized : table.Sized log2Size) (key : Int) :
    Nat.Coprime (table.stride log2Size key) table.pairs := by
  have odd : table.stride log2Size key % 2 = 1 := by
    obtain ⟨quarter, _, pairs⟩ := sized.pairs_dvd
    have below := Nat.mod_lt (pairStep key log2Size) sized.pairs_pos
    have stepOdd := sized.step_pos key
    rw [Table.stride]
    omega
  rw [sized.pairs]
  apply Nat.Coprime.pow_right
  rw [Nat.Coprime, Nat.gcd_comm, Nat.gcd_rec, odd, Nat.gcd_one_left]

theorem Table.Sized.chain_lt (sized : table.Sized log2Size) (key : Int)
    (steps : Nat) : table.chain log2Size key steps < table.pairs :=
  position_lt (sized.stride_bounds key).2 (sized.stride_bounds key).1
    (sized.first_lt key) steps

/-! ## Indexes -/

theorem Table.Sized.firstIndex_eq (sized : table.Sized log2Size)
    (key : Int) : firstIndex key table = 2 * table.first key := by
  have enough := sized.enough
  have whole : log2Size = log2Size - 1 + 1 := by omega
  have size : (table.size : Int) = 2 ^ (log2Size - 1 + 1) := by
    rw [← whole, sized.size]
    exact Int.natCast_pow 2 log2Size
  have pairs : (table.pairs : Int) = 2 ^ (log2Size - 1) := by
    rw [sized.pairs]
    exact Int.natCast_pow 2 _
  rw [firstIndex, size, land_two_pow_sub_two, Table.first, pairs]
  omega

/-- The next index is that of the pair that is probed next. -/
theorem Table.Sized.nextIndex_eq (sized : table.Sized log2Size) (key : Int)
    {place : Nat} (inside : place < table.pairs) :
    nextIndex (2 * place) (hashStep key log2Size) (hashMask log2Size) =
      2 * next table.pairs (table.stride log2Size key) place := by
  have enough := sized.enough
  have whole : log2Size = log2Size - 1 + 1 := by omega
  have pairs : (2 : Int) ^ (log2Size - 1) = table.pairs := by
    rw [sized.pairs]
    exact (Int.natCast_pow 2 _).symm
  have sum : ((2 * place : Nat) + (2 * pairStep key log2Size : Nat) : Int) / 2 =
      (place + pairStep key log2Size : Nat) := by
    omega
  have mask : hashMask log2Size = 2 ^ (log2Size - 1 + 1) - 2 := by
    rw [← whole, hashMask]
  rw [nextIndex, mask, hashStep_eq, land_two_pow_sub_two, sum, pairs,
    ← Int.natCast_mod, ← Nat.add_mod_mod]
  have below := Nat.mod_lt (pairStep key log2Size) sized.pairs_pos
  rw [next, Table.stride]
  generalize pairStep key log2Size % table.pairs = step at below
  split
  · rw [Nat.mod_eq_of_lt (by omega)]
    omega
  · rw [Nat.mod_eq_sub_mod (by omega), Nat.mod_eq_of_lt (by omega)]
    omega

/-- The indexes that are probed for a key, one after the other. -/
def Table.probed (table : Table Node) (log2Size : Nat) (key : Int) : Nat → Nat
  | 0 => firstIndex key table
  | steps + 1 =>
    nextIndex (table.probed log2Size key steps) (hashStep key log2Size)
      (hashMask log2Size)

theorem Table.Sized.probed_eq (sized : table.Sized log2Size) (key : Int)
    (steps : Nat) :
    table.probed log2Size key steps = 2 * table.chain log2Size key steps := by
  induction steps with
  | zero => exact sized.firstIndex_eq key
  | succ steps ih =>
      rw [Table.probed, ih,
        sized.nextIndex_eq key (sized.chain_lt key steps)]
      rfl

/-! ## Where a probe ends -/

/-- A pair ends the probe for a key. -/
def Table.stops (table : Table Node) (key : Int) (place : Nat) : Bool :=
  match table.pair place with
  | none => true
  | some (otherkey, _) => otherkey = key

/-- A probe ends at the first pair that stops it. -/
theorem Table.Sized.probe_eq (sized : table.Sized log2Size) {key : Int}
    {place steps fuel nprobes : Nat} (inside : place < table.pairs)
    (first : FirstStop (table.stops key) table.pairs
      (table.stride log2Size key) place steps) (enough : steps < fuel) :
    probe table key (hashStep key log2Size) (hashMask log2Size) fuel
        (2 * place) nprobes =
      some (2 * position table.pairs (table.stride log2Size key) place steps,
        nprobes + steps) := by
  have isCell : 2 * place < table.size := by
    rw [Table.size]
    omega
  have half : 2 * place / 2 = place := by omega
  induction fuel generalizing place steps nprobes with
  | zero => exact absurd enough (Nat.not_lt_zero steps)
  | succ fuel ih =>
      rw [probe, if_pos isCell, half]
      cases steps with
      | zero =>
          have stops : table.stops key place = true := first.stops
          rw [Table.stops] at stops
          cases held : table.pair place with
          | none => rfl
          | some pair =>
              rw [held] at stops
              simp only [if_pos (of_decide_eq_true stops)]
              rfl
      | succ steps =>
          have passes : table.stops key place = false :=
            first.passes 0 (Nat.succ_pos steps)
          rw [Table.stops] at passes
          cases held : table.pair place with
          | none => simp [held] at passes
          | some pair =>
              rw [held] at passes
              simp only [if_neg (of_decide_eq_false passes)]
              have onward := next_lt (sized.stride_bounds key).2
                (sized.stride_bounds key).1 inside
              have later : FirstStop (table.stops key) table.pairs
                  (table.stride log2Size key)
                  (next table.pairs (table.stride log2Size key) place)
                  steps := first.later
              rw [sized.nextIndex_eq key inside, ih onward later
                (Nat.lt_of_succ_lt_succ enough) (by rw [Table.size]; omega)
                (by omega), position_next, Nat.add_assoc, Nat.add_comm 1]

/-- A probe of a table with an empty pair ends, at the first pair of the chain
that stops it. -/
theorem Table.Sized.exists_probe (sized : table.Sized log2Size)
    {free : Nat} (inside : free < table.pairs)
    (empty : table.pair free = none) (key : Int) :
    ∃ steps, table.stops key (table.chain log2Size key steps) = true ∧
      (∀ earlier < steps,
        table.stops key (table.chain log2Size key earlier) = false) ∧
      ∀ fuel, table.pairs ≤ fuel → probeFor fuel table log2Size key =
        some (2 * table.chain log2Size key steps, steps) := by
  have stops : table.stops key free = true := by
    rw [Table.stops, empty]
  have strideBounds := sized.stride_bounds key
  obtain ⟨last, before, reached⟩ := position_covers (sized.coprime key)
    strideBounds.2 strideBounds.1 (sized.first_lt key) inside
  rw [← reached] at stops
  obtain ⟨steps, bound, first⟩ := exists_firstStop stops
  refine ⟨steps, first.stops, first.passes, ?_⟩
  intro fuel enough
  rw [probeFor, sized.firstIndex_eq,
    sized.probe_eq (sized.first_lt key) first (by omega), Nat.zero_add]
  rfl

end Sized

end OpenDylan.Runtime.ClassKeyed
