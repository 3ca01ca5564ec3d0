import Mathlib.Data.Int.Bitwise

/-!
# Integers as words

The bitwise operations on integers agree with those on the words that the
integers stand for, and they keep integers inside the range of a word.
-/

namespace OpenDylan.Lib.Word

/-! ## Bits of a word -/

theorem getElem_ofInt {width : Nat} (value : Int) {index : Nat}
    (inside : index < width) :
    (BitVec.ofInt width value)[index] = value.testBit index := by
  rw [← BitVec.getLsbD_eq_getElem]
  cases value with
  | ofNat magnitude =>
      rw [Int.ofNat_eq_natCast, BitVec.ofInt_natCast, BitVec.getLsbD_ofNat]
      simp only [inside, decide_true, Bool.true_and]
      rfl
  | negSucc magnitude =>
      rw [BitVec.ofInt_negSucc_eq_not_ofNat, BitVec.getLsbD_not,
        BitVec.getLsbD_ofNat]
      simp only [inside, decide_true, Bool.true_and]
      rfl

theorem ofInt_land (width : Nat) (left right : Int) :
    BitVec.ofInt width (left.land right) =
      BitVec.ofInt width left &&& BitVec.ofInt width right := by
  ext index inside
  simp [getElem_ofInt, Int.testBit_land]

theorem ofInt_lor (width : Nat) (left right : Int) :
    BitVec.ofInt width (left.lor right) =
      BitVec.ofInt width left ||| BitVec.ofInt width right := by
  ext index inside
  simp [getElem_ofInt, Int.testBit_lor]

/-- A shift to the left multiplies by a power of two. -/
theorem shiftLeft_eq_ofInt {width : Nat} (x : BitVec width) (shift : Nat) :
    x <<< shift = BitVec.ofInt width (x.toInt * 2 ^ shift) := by
  have factor : BitVec.twoPow width shift =
      BitVec.ofInt width (2 ^ shift) := by
    have natural : (2 ^ shift : Int) = ((2 ^ shift : Nat) : Int) := by
      push_cast
      rfl
    rw [natural, BitVec.ofInt_natCast]
    apply BitVec.eq_of_toNat_eq
    rw [BitVec.toNat_twoPow, BitVec.toNat_ofNat]
  rw [BitVec.shiftLeft_eq_mul_twoPow, BitVec.ofInt_mul, BitVec.ofInt_toInt,
    factor]

/-- The bits of a mask of low bits. -/
theorem testBit_mask (count index : Nat) :
    ((2 ^ count - 1 : Int)).testBit index = decide (index < count) := by
  have natural : (2 ^ count - 1 : Int) = ((2 ^ count - 1 : Nat) : Int) := by
    rw [Int.natCast_sub Nat.one_le_two_pow]
    simp
  rw [natural]
  exact Nat.testBit_two_pow_sub_one count index

/-! ## Ranges -/

/-- The integers that a word can hold, read as signed or as unsigned. -/
def Fits (width : Nat) (value : Int) : Prop :=
  -(2 ^ (width - 1) : Int) ≤ value ∧ value < 2 ^ width

instance (width : Nat) (value : Int) : Decidable (Fits width value) :=
  inferInstanceAs (Decidable (_ ∧ _))

theorem fits_ofNat_iff (width magnitude : Nat) :
    Fits width (Int.ofNat magnitude) ↔ magnitude < 2 ^ width := by
  have positive : (0 : Int) < 2 ^ (width - 1) :=
    Int.pow_pos (by decide)
  simp only [Fits, Int.ofNat_eq_natCast]
  constructor
  · rintro ⟨-, upper⟩
    exact_mod_cast upper
  · intro upper
    refine ⟨by omega, by exact_mod_cast upper⟩

theorem fits_negSucc_iff (width magnitude : Nat) :
    Fits width (Int.negSucc magnitude) ↔ magnitude < 2 ^ (width - 1) := by
  have positive : (0 : Int) < 2 ^ width :=
    Int.pow_pos (by decide)
  simp only [Fits, Int.negSucc_eq]
  constructor
  · rintro ⟨lower, -⟩
    have upper : (magnitude : Int) < 2 ^ (width - 1) := by omega
    exact_mod_cast upper
  · intro upper
    have cast : (magnitude : Int) < 2 ^ (width - 1) := by exact_mod_cast upper
    omega

theorem ldiff_le (left right : Nat) : Nat.ldiff left right ≤ left := by
  apply Nat.le_of_testBit
  intro index
  simp only [Nat.testBit_ldiff]
  cases left.testBit index <;> simp

theorem fits_land {width : Nat} {left right : Int}
    (leftFits : Fits width left) (rightFits : Fits width right) :
    Fits width (left.land right) := by
  cases left with
  | ofNat left =>
      rw [fits_ofNat_iff] at leftFits
      cases right with
      | ofNat right =>
          exact (fits_ofNat_iff _ _).mpr
            (Nat.lt_of_le_of_lt Nat.and_le_left leftFits)
      | negSucc right =>
          exact (fits_ofNat_iff _ _).mpr
            (Nat.lt_of_le_of_lt (ldiff_le _ _) leftFits)
  | negSucc left =>
      rw [fits_negSucc_iff] at leftFits
      cases right with
      | ofNat right =>
          rw [fits_ofNat_iff] at rightFits
          exact (fits_ofNat_iff _ _).mpr
            (Nat.lt_of_le_of_lt (ldiff_le _ _) rightFits)
      | negSucc right =>
          rw [fits_negSucc_iff] at rightFits
          exact (fits_negSucc_iff _ _).mpr
            (Nat.or_lt_two_pow leftFits rightFits)

theorem fits_lor {width : Nat} {left right : Int}
    (leftFits : Fits width left) (rightFits : Fits width right) :
    Fits width (left.lor right) := by
  cases left with
  | ofNat left =>
      rw [fits_ofNat_iff] at leftFits
      cases right with
      | ofNat right =>
          rw [fits_ofNat_iff] at rightFits
          exact (fits_ofNat_iff _ _).mpr
            (Nat.or_lt_two_pow leftFits rightFits)
      | negSucc right =>
          rw [fits_negSucc_iff] at rightFits
          exact (fits_negSucc_iff _ _).mpr
            (Nat.lt_of_le_of_lt (ldiff_le _ _) rightFits)
  | negSucc left =>
      rw [fits_negSucc_iff] at leftFits
      cases right with
      | ofNat right =>
          exact (fits_negSucc_iff _ _).mpr
            (Nat.lt_of_le_of_lt (ldiff_le _ _) leftFits)
      | negSucc right =>
          exact (fits_negSucc_iff _ _).mpr
            (Nat.lt_of_le_of_lt Nat.and_le_left leftFits)

/-- An integer that fits and whose word is small is that small number. -/
theorem value_eq_of_toNat_lt {width : Nat} {value : Int}
    (fits : Fits width value)
    (small : (BitVec.ofInt width value).toNat < width) :
    value = (BitVec.ofInt width value).toNat := by
  cases value with
  | ofNat magnitude =>
      rw [fits_ofNat_iff] at fits
      rw [Int.ofNat_eq_natCast, BitVec.ofInt_natCast, BitVec.toNat_ofNat,
        Nat.mod_eq_of_lt fits]
  | negSucc magnitude =>
      rw [fits_negSucc_iff] at fits
      exfalso
      rw [BitVec.ofInt_negSucc_eq_not_ofNat, BitVec.toNat_not,
        BitVec.toNat_ofNat] at small
      cases width with
      | zero => simp at small
      | succ width =>
          simp only [Nat.add_sub_cancel] at fits
          have doubled : 2 ^ (width + 1) = 2 * 2 ^ width := by
            rw [Nat.pow_succ, Nat.mul_comm]
          have below : magnitude < 2 ^ (width + 1) := by omega
          rw [Nat.mod_eq_of_lt below] at small
          have growth : width < 2 ^ width := Nat.lt_two_pow_self
          omega

end OpenDylan.Lib.Word
