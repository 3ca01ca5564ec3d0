import OpenDylan.Collections.BitVectorLoops
import OpenDylan.Numbers.IntegerPowers

/-!
# Filling bit vectors

A range of bits that begins and ends in different words is filled with masks of
machine words.  A range within one word is filled with masks that are shifted
as tagged integers, which have two bits fewer.
-/

namespace OpenDylan.Collections.BitVectors

variable {log : Nat}

/-! ## Filling -/

/-- What stops `fill!`. -/
inductive FillStop where
  | access (stop : Stop)
  | arithmetic (failure : Numbers.Failure)
deriving DecidableEq

/-- An access to a word within `fill!`. -/
def access {Value : Type} (value : Except Stop Value) : Except FillStop Value :=
  value.mapError .access

/-- `integer-as-raw` -/
def integerAsRaw (x : Numbers.SmallInteger (2 ^ log - 3)) : Word log :=
  BitVec.ofInt (2 ^ log) x.value

/-- `integer-as-raw(ash(-1, offset))` -/
def shiftedMask (offset : Nat) : Except FillStop (Word log) := do
  let mask ←
    (Numbers.ash (Numbers.literal (-1)) (Numbers.literal offset)).mapError
      .arithmetic
  return integerAsRaw mask

/-- The word of which the bits between two masks are filled. -/
def wordFilledBetween (value : Bool) (startMask lastMask word : Word log) :
    Word log :=
  if value = false then
    (lastMask ||| ~~~startMask) &&& word
  else
    (lastMask ^^^ startMask) ||| word

/-- `fill!` where the start and the end are in the same word. -/
def fillWithinWord (value : Bool) (startWordOffset startBitOffset
    lastBitOffset vector : Nat) (vectors : Vectors log) :
    Except FillStop (Vectors log) := do
  let startMask ← shiftedMask startBitOffset
  let lastMask ← shiftedMask lastBitOffset
  let word ← access (bitVectorWord vectors vector startWordOffset)
  access (setBitVectorWord vectors vector startWordOffset
    (wordFilledBetween value startMask lastMask word))

/-- The last word to be filled, unless it is filled as a whole. -/
def fillLastWord (value : Bool) (last vector : Nat) (vectors : Vectors log) :
    Except FillStop (Nat × Vectors log) :=
  let lastWordOffset := computeWordOffset log last
  let lastBitOffset := computeBitOffset log last
  if last = size vectors vector then
    .ok (wordSize vectors vector, vectors)
  else if lastBitOffset ≠ 0 then do
    let word ← access (bitVectorWord vectors vector lastWordOffset)
    let filled :=
      if value = false then
        word &&& rawMaskForBitsAbove lastBitOffset
      else
        word ||| rawMaskForBitsStrictlyBelow lastBitOffset
    let vectors ←
      access (setBitVectorWord vectors vector lastWordOffset filled)
    return (lastWordOffset, vectors)
  else
    .ok (lastWordOffset, vectors)

/-- The first word to be filled, unless it is filled as a whole. -/
def fillFirstWord (value : Bool) (start vector : Nat) (vectors : Vectors log) :
    Except FillStop (Nat × Vectors log) :=
  let startWordOffset := computeWordOffset log start
  let startBitOffset := computeBitOffset log start
  if startBitOffset ≠ 0 then do
    let word ← access (bitVectorWord vectors vector startWordOffset)
    let filled :=
      if value = false then
        word &&& rawMaskForBitsStrictlyBelow startBitOffset
      else
        word ||| rawMaskForBitsAbove startBitOffset
    let vectors ←
      access (setBitVectorWord vectors vector startWordOffset filled)
    return (startWordOffset + 1, vectors)
  else
    .ok (startWordOffset, vectors)

/-- `fill!` where the start and the end are in different words. -/
def fillAcrossWords (value : Bool) (start last vector : Nat)
    (vectors : Vectors log) : Except FillStop (Vectors log) := do
  let (lastWordOffset, vectors) ← fillLastWord value last vector vectors
  let (startWordOffset, vectors) ← fillFirstWord value start vector vectors
  -- primitive-fill!
  access (storeWords vector (fun _ _ => return fillWord value)
    (lastWordOffset - startWordOffset) startWordOffset vectors)

/-- `fill!` -/
def fill (vector : Nat) (value : Bool) (start : Nat) (last : Option Nat)
    (vectors : Vectors log) : Except FillStop (Vectors log) :=
  if size vectors vector > 0 then
    let last := last.getD (size vectors vector)
    let startWordOffset := computeWordOffset log start
    let lastWordOffset := computeWordOffset log last
    if lastWordOffset = startWordOffset then
      fillWithinWord value startWordOffset (computeBitOffset log start)
        (computeBitOffset log last) vector vectors
    else
      fillAcrossWords value start last vector vectors
  else
    .ok vectors

/-! ## Masks -/

/-- A mask is shifted out of a tagged integer before it is shifted out of a
word. -/
theorem shiftedMask_eq (wide : 3 ≤ log) {offset : Nat}
    (inside : offset < 2 ^ log) :
    (shiftedMask offset : Except FillStop (Word log)) =
      if offset < 2 ^ log - 2 then .ok (rawMaskForBitsAbove offset)
      else .error (.arithmetic .arithmeticOverflow) := by
  have room : log + 3 ≤ 2 ^ log := by
    obtain ⟨rest, rfl⟩ : ∃ rest, log = rest + 3 := ⟨log - 3, by omega⟩
    have := @Nat.lt_two_pow_self rest
    rw [pow_add]
    omega
  have grows : (2 : Int) ^ log ≤ 2 ^ (2 ^ log - 3) :=
    pow_le_pow_right₀ (by omega) (by omega)
  have bound : (offset : Int) < 2 ^ log := by exact_mod_cast inside
  have minusOne : (Numbers.literal (-1) :
      Numbers.SmallInteger (2 ^ log - 3)).value = -1 :=
    Numbers.literal_value (Numbers.holds_minusOne _)
  have count : (Numbers.literal offset :
      Numbers.SmallInteger (2 ^ log - 3)).value = offset :=
    Numbers.literal_value (by unfold Lib.TwoWords.Holds; omega)
  have holds : Lib.TwoWords.Holds (2 ^ log - 3) (-1 * 2 ^ offset) ↔
      offset < 2 ^ log - 2 := by
    have powers : (2 : Int) ^ offset ≤ 2 ^ (2 ^ log - 3) ↔
        offset ≤ 2 ^ log - 3 := pow_le_pow_iff_right₀ (by omega)
    have positive : (0 : Int) < 2 ^ offset := by positivity
    unfold Lib.TwoWords.Holds
    omega
  have word : rawMaskForBitsAbove offset =
      BitVec.ofInt (2 ^ log) (-1 * 2 ^ offset) := by
    have ones : (BitVec.allOnes (2 ^ log)).toInt = -1 := by
      rw [BitVec.toInt_allOnes, if_pos (Nat.two_pow_pos log)]
    rw [rawMaskForBitsAbove, Lib.Word.shiftLeft_eq_ofInt, ones]
  unfold shiftedMask
  rw [Numbers.ash_nonnegative _ (by omega), minusOne, count, Int.toNat_natCast]
  by_cases fits : offset < 2 ^ log - 2
  · rw [if_pos fits, Numbers.exactly, dif_pos (holds.mpr fits), word]
    rfl
  · rw [if_neg fits, Numbers.exactly, dif_neg (fun room => fits (holds.mp room))]
    rfl

theorem getLsbD_bitsAbove (bit : Nat) {index : Nat}
    (inside : index < 2 ^ log) :
    (rawMaskForBitsAbove bit : Word log).getLsbD index =
      decide (bit ≤ index) := by
  unfold rawMaskForBitsAbove
  by_cases below : index < bit
  · simp [below, inside, Nat.not_le.mpr below]
  · have above : bit ≤ index := Nat.not_lt.mp below
    simp [inside, above]

theorem getLsbD_bitsStrictlyBelow (bit : Nat) {index : Nat}
    (inside : index < 2 ^ log) :
    (rawMaskForBitsStrictlyBelow bit : Word log).getLsbD index =
      decide (index < bit) := by
  have above := getLsbD_bitsAbove bit inside
  unfold rawMaskForBitsAbove at above
  have opposite : decide (index < bit) = !decide (bit ≤ index) := by
    rw [← decide_not]
    exact decide_eq_decide.mpr Nat.not_le.symm
  unfold rawMaskForBitsStrictlyBelow
  rw [BitVec.getLsbD_not, above, opposite]
  simp [inside]

/-! ## Ranges of bits -/

/-- The bits of a range of a vector have been given a value, and no other bit
has changed. -/
def Fills (vector : Nat) (value : Bool) (range : Nat → Prop)
    [DecidablePred range] (before after : Vectors log) : Prop :=
  Writes vector
    (fun index => if range index then value else bitAt before vector index)
    before after

theorem Fills.none (vector : Nat) (value : Bool) (range : Nat → Prop)
    [DecidablePred range] (vectors : Vectors log)
    (empty : ∀ index, index < BitVectors.size vectors vector → ¬ range index) :
    Fills vector value range vectors vectors :=
  ⟨SameShape.refl vectors, fun _ _ _ => rfl,
    fun index inside => (if_neg (empty index inside)).symm⟩

/-- One range after another. -/
theorem Fills.trans {vector : Nat} {value : Bool}
    {range next all : Nat → Prop} [DecidablePred range] [DecidablePred next]
    [DecidablePred all] {first second third : Vectors log}
    (fills : Fills vector value range first second)
    (further : Fills vector value next second third)
    (same : ∀ index, index < BitVectors.size first vector →
      (all index ↔ range index ∨ next index)) :
    Fills vector value all first third := by
  refine ⟨fills.shape.trans further.shape, ?_, ?_⟩
  · intro other different position
    rw [further.others other different, fills.others other different]
  · intro index inside
    rw [further.bits index (by rwa [fills.shape.size]), fills.bits index inside]
    by_cases here : range index
    · by_cases there : next index
      · rw [if_pos there, if_pos ((same index inside).mpr (.inl here))]
      · rw [if_neg there, if_pos here,
          if_pos ((same index inside).mpr (.inl here))]
    · by_cases there : next index
      · rw [if_pos there, if_pos ((same index inside).mpr (.inr there))]
      · rw [if_neg there, if_neg here,
          if_neg fun both => ((same index inside).mp both).elim here there]

/-- A word in which a range of bits has been given a value. -/
theorem setBitVectorWord_fills {vectors : Vectors log} {vector index : Nat}
    {value : Bool} {range : Nat → Prop} [DecidablePred range]
    {word : Word log} (inside : index < wordSize vectors vector)
    (bits : ∀ position, computeWordOffset log position = index →
      word.getLsbD (computeBitOffset log position) =
        if range position then value else bitAt vectors vector position)
    (within : ∀ position, range position →
      computeWordOffset log position = index) :
    ∃ after, access (setBitVectorWord vectors vector index word) = .ok after ∧
      Fills vector value range vectors after := by
  obtain ⟨after, stored, shape, words⟩ := setBitVectorWord_spec word inside
  refine ⟨after, by rw [stored]; rfl, shape, ?_, ?_⟩
  · intro other different position
    rw [words, if_neg fun both => different both.1]
  · intro position _
    rw [bitAt, words]
    by_cases here : computeWordOffset log position = index
    · rw [if_pos ⟨rfl, here⟩]
      exact bits position here
    · rw [if_neg fun both => here both.2,
        if_neg fun inRange => here (within position inRange)]
      rfl

/-! ## The parts of a fill -/

theorem computeWordOffset_of_range {word index : Nat}
    (low : 2 ^ log * word ≤ index) (high : index < 2 ^ log * (word + 1)) :
    computeWordOffset log index = word := by
  rw [computeWordOffset_eq]
  rw [Nat.mul_comm] at low high
  exact Nat.div_eq_of_lt_le low high

/-- What is filled with the first word ends at a word. -/
theorem fillFirstWord_spec {vectors : Vectors log} {vector start : Nat}
    (value : Bool) (inside : start < BitVectors.size vectors vector) :
    ∃ offset after,
      fillFirstWord value start vector vectors = .ok (offset, after) ∧
      Fills vector value (fun index => start ≤ index ∧ index < 2 ^ log * offset)
        vectors after ∧
      start ≤ 2 ^ log * offset ∧
      offset ≤ computeWordOffset log start + 1 := by
  have sum := offsets_add log start
  have bounded := computeBitOffset_lt log start
  have next := Nat.mul_add_one (2 ^ log) (computeWordOffset log start)
  unfold fillFirstWord
  dsimp only
  by_cases whole : computeBitOffset log start = 0
  · rw [if_neg (not_not.mpr whole)]
    refine ⟨_, _, rfl, Fills.none _ _ _ _ ?_, by omega, by omega⟩
    intro index _ range
    omega
  rw [if_pos whole, bitVectorWord_ok (wordInside inside)]
  obtain ⟨after, stored, fills⟩ := @setBitVectorWord_fills log vectors vector _
    value (fun index => start ≤ index ∧
      index < 2 ^ log * (computeWordOffset log start + 1)) _
    (if value = false then
      wordAt vectors vector (computeWordOffset log start) &&&
        rawMaskForBitsStrictlyBelow (computeBitOffset log start)
    else
      wordAt vectors vector (computeWordOffset log start) |||
        rawMaskForBitsAbove (computeBitOffset log start))
    (wordInside inside)
    (by
      intro position here
      have parts := offsets_add log position
      have small := computeBitOffset_lt log position
      rw [here] at parts
      have range : (start ≤ position ∧ position <
          2 ^ log * (computeWordOffset log start + 1)) ↔
          computeBitOffset log start ≤ computeBitOffset log position := by
        omega
      simp only [range, bitAt, here]
      cases value with
      | false =>
          rw [if_pos rfl, BitVec.getLsbD_and, getLsbD_bitsStrictlyBelow _ small]
          by_cases above :
            computeBitOffset log start ≤ computeBitOffset log position
          · simp [above]
          · simp [above, Nat.lt_of_not_le above]
      | true =>
          rw [if_neg (by simp), BitVec.getLsbD_or, getLsbD_bitsAbove _ small]
          by_cases above :
            computeBitOffset log start ≤ computeBitOffset log position
          · simp [above]
          · simp [above])
    (fun position range => computeWordOffset_of_range (by omega) range.2)
  refine ⟨_, after, ?_, fills, by omega, Nat.le_refl _⟩
  show (do
    let vectors ← access (setBitVectorWord vectors vector _ _)
    return (_, vectors)) = _
  rw [stored]
  rfl

/-- What is filled with the last word starts at a word. -/
theorem fillLastWord_spec {vectors : Vectors log} {vector last : Nat}
    (value : Bool) (bounded : last ≤ BitVectors.size vectors vector) :
    ∃ offset after,
      fillLastWord value last vector vectors = .ok (offset, after) ∧
      Fills vector value (fun index => 2 ^ log * offset ≤ index ∧ index < last)
        vectors after ∧
      computeWordOffset log last ≤ offset ∧
      offset ≤ wordSize vectors vector ∧
      (last < BitVectors.size vectors vector → 2 ^ log * offset ≤ last) := by
  have sum := offsets_add log last
  have small := computeBitOffset_lt log last
  have next := Nat.mul_add_one (2 ^ log) (computeWordOffset log last)
  have counted := wordSize_eq vectors vector
  have all : BitVectors.size vectors vector ≤
      2 ^ log * wordSize vectors vector := by
    rw [counted]
    by_contra more
    exact absurd (lt_wordCount_iff.mpr (Nat.lt_of_not_le more))
      (Nat.lt_irrefl _)
  have least : computeWordOffset log last ≤ wordSize vectors vector := by
    rw [computeWordOffset_eq]
    refine (Nat.div_le_div_right (bounded.trans all)).trans ?_
    rw [Nat.mul_div_cancel_left _ (Nat.two_pow_pos log)]
  unfold fillLastWord
  dsimp only
  by_cases whole : last = BitVectors.size vectors vector
  · rw [if_pos whole]
    refine ⟨_, _, rfl, Fills.none _ _ _ _ ?_, least, Nat.le_refl _,
      fun less => by omega⟩
    intro index inside range
    omega
  rw [if_neg whole]
  have inside : last < BitVectors.size vectors vector := by omega
  by_cases aligned : computeBitOffset log last = 0
  · rw [if_neg (not_not.mpr aligned)]
    refine ⟨_, _, rfl, Fills.none _ _ _ _ ?_, Nat.le_refl _, least,
      fun _ => by omega⟩
    intro index _ range
    omega
  rw [if_pos aligned, bitVectorWord_ok (wordInside inside)]
  obtain ⟨after, stored, fills⟩ := @setBitVectorWord_fills log vectors vector _
    value (fun index => 2 ^ log * computeWordOffset log last ≤ index ∧
      index < last) _
    (if value = false then
      wordAt vectors vector (computeWordOffset log last) &&&
        rawMaskForBitsAbove (computeBitOffset log last)
    else
      wordAt vectors vector (computeWordOffset log last) |||
        rawMaskForBitsStrictlyBelow (computeBitOffset log last))
    (wordInside inside)
    (by
      intro position here
      have parts := offsets_add log position
      have room := computeBitOffset_lt log position
      rw [here] at parts
      have range : (2 ^ log * computeWordOffset log last ≤ position ∧
          position < last) ↔
          computeBitOffset log position < computeBitOffset log last := by
        omega
      simp only [range, bitAt, here]
      cases value with
      | false =>
          rw [if_pos rfl, BitVec.getLsbD_and, getLsbD_bitsAbove _ room]
          by_cases below :
            computeBitOffset log position < computeBitOffset log last
          · simp [below, Nat.not_le.mpr below]
          · simp [below, Nat.le_of_not_lt below]
      | true =>
          rw [if_neg (by simp), BitVec.getLsbD_or,
            getLsbD_bitsStrictlyBelow _ room]
          by_cases below :
            computeBitOffset log position < computeBitOffset log last
          · simp [below]
          · simp [below])
    (fun position range => computeWordOffset_of_range range.1 (by omega))
  refine ⟨_, after, ?_, fills, Nat.le_refl _, least, fun _ => by omega⟩
  show (do
    let vectors ← access (setBitVectorWord vectors vector _ _)
    return (_, vectors)) = _
  rw [stored]
  rfl

/-- Whole words are filled with bits of the value. -/
theorem fillWords_spec {vectors : Vectors log} {vector first finish : Nat}
    (value : Bool) (ordered : first ≤ finish)
    (inside : finish ≤ wordSize vectors vector) :
    ∃ after, access (storeWords vector (fun _ _ => return fillWord value)
        (finish - first) first vectors) = .ok after ∧
      Fills vector value
        (fun index => 2 ^ log * first ≤ index ∧ index < 2 ^ log * finish)
        vectors after := by
  let word : Nat → Word log := fun position =>
    if position < first then wordAt vectors vector position
    else fillWord value
  have kept : ∀ position, position < first →
      word position = wordAt vectors vector position :=
    fun position early => if_pos early
  have filled : ∀ position, first ≤ position →
      word position = fillWord value :=
    fun position late => if_neg (Nat.not_lt.mpr late)
  have begun : Stores vector first word vectors vectors := by
    refine ⟨SameShape.refl vectors, fun other position => ?_⟩
    split
    case isTrue both => rw [both.1, kept position both.2]
    case isFalse => rfl
  obtain ⟨after, stored, stores⟩ := begun.storeWords
    (fun _ _ => return fillWord value) (finish - first)
    (fun index low _ _ _ _ => by
      rw [filled index low]
      rfl)
    (fun index _ high => by omega)
  refine ⟨after, by rw [stored]; rfl, ?_⟩
  have sum : first + (finish - first) = finish := by omega
  rw [sum] at stores
  refine stores.writes ?_ ?_
  · intro index _ below
    have parts := offsets_add log index
    have small := computeBitOffset_lt log index
    have high : 2 ^ log * (computeWordOffset log index + 1) ≤ 2 ^ log * finish :=
      Nat.mul_le_mul_left _ below
    rw [Nat.mul_add_one] at high
    by_cases early : computeWordOffset log index < first
    · have low : 2 ^ log * (computeWordOffset log index + 1) ≤
          2 ^ log * first := Nat.mul_le_mul_left _ early
      rw [Nat.mul_add_one] at low
      rw [kept _ early, if_neg (by omega)]
      rfl
    · have late := Nat.le_of_not_lt early
      have low : 2 ^ log * first ≤ 2 ^ log * computeWordOffset log index :=
        Nat.mul_le_mul_left _ late
      rw [filled _ late, if_pos (by omega), getLsbD_fillWord value small]
  · intro index _ past
    have parts := offsets_add log index
    have low : 2 ^ log * finish ≤ 2 ^ log * computeWordOffset log index :=
      Nat.mul_le_mul_left _ past
    rw [if_neg (by omega)]

/-- A range that ends in another word than it begins in is filled. -/
theorem fillAcrossWords_spec {vectors : Vectors log} {vector start last : Nat}
    (value : Bool) (ordered : start ≤ last)
    (bounded : last ≤ BitVectors.size vectors vector)
    (different : computeWordOffset log last ≠ computeWordOffset log start) :
    ∃ after, fillAcrossWords value start last vector vectors = .ok after ∧
      Fills vector value (fun index => start ≤ index ∧ index < last)
        vectors after := by
  have words : computeWordOffset log start < computeWordOffset log last := by
    have monotone : computeWordOffset log start ≤ computeWordOffset log last := by
      rw [computeWordOffset_eq, computeWordOffset_eq]
      exact Nat.div_le_div_right ordered
    omega
  have nonempty : start < BitVectors.size vectors vector := by
    have : start ≠ last := fun same => different (by rw [same])
    omega
  obtain ⟨finish, middle, lastFilled, lastFills, least, most, begins⟩ :=
    fillLastWord_spec value bounded
  obtain ⟨first, later, firstFilled, firstFills, ends, next⟩ :=
    @fillFirstWord_spec log middle vector start value
      (by rwa [lastFills.shape.size])
  obtain ⟨after, filled, fills⟩ :=
    @fillWords_spec log later vector first finish value (by omega)
      (by rwa [firstFills.shape.wordSize, lastFills.shape.wordSize])
  refine ⟨after, ?_, ?_⟩
  · unfold fillAcrossWords
    rw [lastFilled]
    show (do
      let (startWordOffset, vectors) ← fillFirstWord value start vector middle
      _) = _
    rw [firstFilled]
    exact filled
  · have sum := offsets_add log last
    have all : 2 ^ log * first ≤ 2 ^ log * finish :=
      Nat.mul_le_mul_left _ (by omega)
    have both : Fills vector value
        (fun index => (start ≤ index ∧ index < 2 ^ log * first) ∨
          (2 ^ log * finish ≤ index ∧ index < last)) vectors later :=
      lastFills.trans firstFills fun index _ => by omega
    refine both.trans fills fun index inside => ?_
    rcases Nat.lt_or_ge last (BitVectors.size vectors vector) with less | whole
    · have := begins less
      omega
    · omega

/-- The word of which a range within it has been filled. -/
theorem getLsbD_filledBetween (value : Bool) (word : Word log)
    {first finish index : Nat} (ordered : first ≤ finish)
    (inside : index < 2 ^ log) :
    (wordFilledBetween value (rawMaskForBitsAbove first)
      (rawMaskForBitsAbove finish) word).getLsbD index =
      if first ≤ index ∧ index < finish then value else word.getLsbD index := by
  unfold wordFilledBetween
  cases value with
  | false =>
      rw [if_pos rfl, BitVec.getLsbD_and, BitVec.getLsbD_or,
        BitVec.getLsbD_not, getLsbD_bitsAbove _ inside,
        getLsbD_bitsAbove _ inside]
      by_cases low : first ≤ index
      · by_cases high : index < finish
        · simp [low, high, Nat.not_le.mpr high]
        · simp [low, high, Nat.le_of_not_lt high]
      · simp [low, inside]
  | true =>
      rw [if_neg (by simp), BitVec.getLsbD_or, BitVec.getLsbD_xor,
        getLsbD_bitsAbove _ inside, getLsbD_bitsAbove _ inside]
      by_cases low : first ≤ index
      · by_cases high : index < finish
        · simp [low, high, Nat.not_le.mpr high]
        · simp [low, high, Nat.le_of_not_lt high]
      · have below : ¬ finish ≤ index := by omega
        simp [low, below]

/-- A range that ends in the word it begins in is filled, if both masks can be
shifted and the word is one of the vector. -/
theorem fillWithinWord_spec (wide : 3 ≤ log) {vectors : Vectors log}
    {vector start last : Nat} (value : Bool) (ordered : start ≤ last)
    (same : computeWordOffset log last = computeWordOffset log start)
    (shifts : computeBitOffset log last < 2 ^ log - 2)
    (inside : computeWordOffset log start < wordSize vectors vector) :
    ∃ after, fillWithinWord value (computeWordOffset log start)
        (computeBitOffset log start) (computeBitOffset log last) vector
        vectors = .ok after ∧
      Fills vector value (fun index => start ≤ index ∧ index < last)
        vectors after := by
  have startSum := offsets_add log start
  have lastSum := offsets_add log last
  have next := Nat.mul_add_one (2 ^ log) (computeWordOffset log start)
  rw [same] at lastSum
  obtain ⟨after, stored, fills⟩ := @setBitVectorWord_fills log vectors vector _
    value (fun index => start ≤ index ∧ index < last) _
    (wordFilledBetween value (rawMaskForBitsAbove (computeBitOffset log start))
      (rawMaskForBitsAbove (computeBitOffset log last))
      (wordAt vectors vector (computeWordOffset log start))) inside
    (by
      intro position here
      have parts := offsets_add log position
      have room := computeBitOffset_lt log position
      rw [here] at parts
      have range : (start ≤ position ∧ position < last) ↔
          computeBitOffset log start ≤ computeBitOffset log position ∧
            computeBitOffset log position < computeBitOffset log last := by
        omega
      rw [getLsbD_filledBetween _ _ (by omega) room]
      simp only [range, bitAt, here])
    (fun position range =>
      computeWordOffset_of_range (by omega) (by omega))
  refine ⟨after, ?_, fills⟩
  unfold fillWithinWord
  rw [shiftedMask_eq wide (computeBitOffset_lt log start), if_pos (by omega),
    shiftedMask_eq wide (computeBitOffset_lt log last), if_pos shifts,
    bitVectorWord_ok inside]
  exact stored

/-- A range within one word is not filled if a mask cannot be shifted, or if
the word is none of the vector. -/
theorem fillWithinWord_fails (wide : 3 ≤ log) {vectors : Vectors log}
    {vector start last : Nat} (value : Bool)
    (fails : ¬ (computeBitOffset log last < 2 ^ log - 2 ∧
      computeWordOffset log start < wordSize vectors vector)) :
    ∃ stop, fillWithinWord value (computeWordOffset log start)
        (computeBitOffset log start) (computeBitOffset log last) vector
        vectors = .error stop := by
  unfold fillWithinWord
  rw [shiftedMask_eq wide (computeBitOffset_lt log start),
    shiftedMask_eq wide (computeBitOffset_lt log last)]
  by_cases first : computeBitOffset log start < 2 ^ log - 2
  · by_cases second : computeBitOffset log last < 2 ^ log - 2
    · have outside : ¬ computeWordOffset log start < wordSize vectors vector :=
        fun inside => fails ⟨second, inside⟩
      rw [if_pos first, if_pos second, bitVectorWord, if_neg outside]
      exact ⟨_, rfl⟩
    · rw [if_pos first, if_neg second]
      exact ⟨_, rfl⟩
  · rw [if_neg first]
    exact ⟨_, rfl⟩

/-! ## The whole of a fill -/

/-- A range of a vector is filled with a value, and nothing else is
changed. -/
def FillsRange (vector : Nat) (value : Bool) (start last : Nat)
    (vectors : Vectors log) (result : Except FillStop (Vectors log)) : Prop :=
  ∃ after, result = .ok after ∧
    Fills vector value (fun index => start ≤ index ∧ index < last)
      vectors after

/-- A range is filled unless it begins and ends in the same word and a mask
needs more bits than an integer has, or no such word exists. -/
theorem fill_iff (wide : 3 ≤ log) {vectors : Vectors log} {vector start : Nat}
    {last : Option Nat} (value : Bool)
    (ordered : start ≤ last.getD (size vectors vector))
    (bounded : last.getD (size vectors vector) ≤ size vectors vector) :
    FillsRange vector value start (last.getD (size vectors vector)) vectors
        (fill vector value start last vectors) ↔
      (size vectors vector = 0 ∨
        computeWordOffset log (last.getD (size vectors vector)) ≠
          computeWordOffset log start ∨
        (computeBitOffset log (last.getD (size vectors vector)) <
            2 ^ log - 2 ∧
          computeWordOffset log start < wordSize vectors vector)) := by
  unfold fill
  dsimp only
  generalize last.getD (size vectors vector) = finish at ordered bounded ⊢
  by_cases empty : size vectors vector = 0
  · rw [if_neg (by omega)]
    refine ⟨fun _ => .inl empty, fun _ => ⟨vectors, rfl, ?_⟩⟩
    exact Fills.none _ _ _ _ fun index inside _ => by omega
  rw [if_pos (by omega)]
  by_cases same : computeWordOffset log finish = computeWordOffset log start
  · rw [if_pos same]
    by_cases room : computeBitOffset log finish < 2 ^ log - 2 ∧
        computeWordOffset log start < wordSize vectors vector
    · exact ⟨fun _ => .inr (.inr room), fun _ =>
        fillWithinWord_spec wide value ordered same room.1 room.2⟩
    · obtain ⟨stop, stopped⟩ :=
        @fillWithinWord_fails log wide vectors vector start finish value room
      constructor
      · rintro ⟨after, filled, -⟩
        rw [stopped] at filled
        cases filled
      · rintro (none | different | fits)
        · exact absurd none empty
        · exact absurd same different
        · exact absurd fits room
  · rw [if_neg same]
    exact ⟨fun _ => .inr (.inl same), fun _ =>
      fillAcrossWords_spec value ordered bounded same⟩

/-- One vector of 64 bits. -/
def oneWord : Vectors 6 := [⟨64, [0], by decide⟩]

/-- Bits within a word of 64 bits. -/
theorem fill_within_word :
    FillsRange 0 true 3 10 oneWord (fill 0 true 3 (some 10) oneWord) :=
  (@fill_iff 6 (by decide) oneWord 0 3 (some 10) true (by decide)
    (by decide)).mpr (by decide)

theorem shiftedMask_overflow :
    (shiftedMask 62 : Except FillStop (Word 6)) =
      .error (.arithmetic .arithmeticOverflow) := by
  decide +kernel

/-- The mask of the bits from 62 on is no integer. -/
theorem fill_overflows :
    fill 0 true 3 (some 62) oneWord =
        .error (.arithmetic .arithmeticOverflow) ∧
      ¬ FillsRange 0 true 3 62 oneWord
        (fill 0 true 3 (some 62) oneWord) := by
  have masked : (shiftedMask 3 : Except FillStop (Word 6)) =
      .ok (rawMaskForBitsAbove 3) := by
    decide +kernel
  have stopped : fill 0 true 3 (some 62) oneWord =
      .error (.arithmetic .arithmeticOverflow) := by
    show (do
      let startMask ← shiftedMask 3
      let lastMask ← shiftedMask 62
      let word ← access (bitVectorWord oneWord 0 0)
      access (setBitVectorWord oneWord 0 0
        (wordFilledBetween true startMask lastMask word))) = _
    rw [masked, shiftedMask_overflow]
    rfl
  refine ⟨stopped, ?_⟩
  rintro ⟨after, filled, -⟩
  rw [stopped] at filled
  cases filled

end OpenDylan.Collections.BitVectors
