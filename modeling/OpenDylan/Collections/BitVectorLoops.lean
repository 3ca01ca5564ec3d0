import OpenDylan.Collections.BitVector
import Mathlib.Tactic.Ring

/-!
# The word loops of bit vectors

Every loop over words stores, index by index, a word that is determined by the
words at that index before the loop.  This is why the vector written may be one
of those read.
-/

namespace OpenDylan.Collections.BitVectors

variable {log : Nat}

/-! ## Offsets -/

theorem computeWordOffset_eq (index : Nat) :
    computeWordOffset log index = index / 2 ^ log :=
  Nat.shiftRight_eq_div_pow index log

theorem computeBitOffset_eq (index : Nat) :
    computeBitOffset log index = index % 2 ^ log :=
  Nat.and_two_pow_sub_one_eq_mod index log

theorem computeBitOffset_lt (log index : Nat) :
    computeBitOffset log index < 2 ^ log := by
  rw [computeBitOffset_eq]
  exact Nat.mod_lt _ (Nat.two_pow_pos log)

/-- An index from its two offsets. -/
theorem offsets_add (log index : Nat) :
    2 ^ log * computeWordOffset log index + computeBitOffset log index =
      index := by
  rw [computeWordOffset_eq, computeBitOffset_eq]
  exact Nat.div_add_mod index (2 ^ log)

theorem lt_wordCount_iff {size word : Nat} :
    word < wordCount log size ↔ 2 ^ log * word < size := by
  unfold wordCount
  have positive := Nat.two_pow_pos log
  split
  case isTrue empty => simp [empty]
  case isFalse nonempty =>
      rw [Nat.shiftRight_eq_div_pow, Nat.lt_succ_iff,
        Nat.le_div_iff_mul_le positive, Nat.mul_comm]
      omega

theorem computeWordOffset_lt (log : Nat) {size index : Nat} (inside : index < size) :
    computeWordOffset log index < wordCount log size := by
  rw [lt_wordCount_iff]
  have sum := offsets_add log index
  omega

/-! ## Bits of words -/

theorem getLsbD_fillWord (fill : Bool) {index : Nat}
    (inside : index < 2 ^ log) :
    (fillWord fill : Word log).getLsbD index = fill := by
  cases fill <;> simp [fillWord, inside]

/-! ## One word -/

theorem wordSize_eq (vectors : Vectors log) (vector : Nat) :
    wordSize vectors vector = wordCount log (size vectors vector) :=
  (vectorAt vectors vector).counted

/-- Two heaps with vectors of the same sizes at the same addresses. -/
structure SameShape (before after : Vectors log) : Prop where
  length : after.length = before.length
  size : ∀ vector, size after vector = size before vector

theorem SameShape.refl (vectors : Vectors log) : SameShape vectors vectors :=
  ⟨rfl, fun _ => rfl⟩

theorem SameShape.trans {first second third : Vectors log}
    (left : SameShape first second) (right : SameShape second third) :
    SameShape first third :=
  ⟨right.length.trans left.length,
    fun vector => (right.size vector).trans (left.size vector)⟩

theorem SameShape.wordSize {before after : Vectors log}
    (shape : SameShape before after) (vector : Nat) :
    wordSize after vector = wordSize before vector := by
  rw [wordSize_eq, wordSize_eq, shape.size]

theorem bitVectorWord_ok {vectors : Vectors log} {vector index : Nat}
    (inside : index < wordSize vectors vector) :
    bitVectorWord vectors vector index =
      .ok (wordAt vectors vector index) :=
  if_pos inside

/-- A vector with words has been allocated. -/
theorem lt_length_of_lt_wordSize {vectors : Vectors log} {vector index : Nat}
    (inside : index < wordSize vectors vector) : vector < vectors.length := by
  by_contra outside
  rw [wordSize, vectorAt, List.getD_eq_default _ _ (by omega)] at inside
  simp [BitVector.empty] at inside

theorem vectorAt_modify {vectors : Vectors log} {vector : Nat}
    (allocated : vector < vectors.length)
    (change : BitVector log → BitVector log) (other : Nat) :
    vectorAt (vectors.modify vector change) other =
      if other = vector then
        change (vectorAt vectors vector)
      else
        vectorAt vectors other := by
  unfold vectorAt
  simp only [List.getD_eq_getElem?_getD, List.getElem?_modify]
  by_cases same : other = vector
  · subst same
    simp [allocated]
  · have different : ¬vector = other := fun equal => same equal.symm
    simp [same, different]

theorem setBitVectorWord_spec {vectors : Vectors log} {vector index : Nat}
    (word : Word log) (inside : index < wordSize vectors vector) :
    ∃ after, setBitVectorWord vectors vector index word = .ok after ∧
      SameShape vectors after ∧
      ∀ other position, wordAt after other position =
        if other = vector ∧ position = index then
          word
        else
          wordAt vectors other position := by
  have allocated := lt_length_of_lt_wordSize inside
  refine ⟨_, if_pos inside, ⟨List.length_modify .., ?_⟩, ?_⟩
  · intro other
    unfold size
    rw [vectorAt_modify allocated]
    split
    case isTrue same => rw [same]; rfl
    case isFalse => rfl
  · intro other position
    unfold wordAt
    rw [vectorAt_modify allocated]
    by_cases same : other = vector
    · subst same
      rw [if_pos rfl]
      simp only [BitVector.setWord, List.getD_eq_getElem?_getD,
        List.getElem?_set, true_and]
      by_cases here : index = position
      · subst here
        have within : index < (vectorAt vectors other).words.length := inside
        simp [within]
      · have elsewhere : ¬position = index := fun equal => here equal.symm
        simp [here, elsewhere]
    · simp [same]

/-! ## Loops over words -/

/-- The words of a vector below a limit have been stored, and nothing else has
changed. -/
structure Stores (vector limit : Nat) (word : Nat → Word log)
    (before after : Vectors log) : Prop where
  shape : SameShape before after
  words : ∀ other position, wordAt after other position =
    if other = vector ∧ position < limit then
      word position
    else
      wordAt before other position

/-- Words from the limit on are still those from before. -/
theorem Stores.words_of_le {vector limit : Nat} {word : Nat → Word log}
    {before after : Vectors log} (stores : Stores vector limit word before after)
    {position : Nat} (le : limit ≤ position) (other : Nat) :
    wordAt after other position = wordAt before other position := by
  rw [stores.words, if_neg (by omega)]

theorem Stores.setBitVectorWord {vector limit : Nat} {word : Nat → Word log}
    {before middle : Vectors log}
    (stores : Stores vector limit word before middle)
    (inside : limit < wordSize before vector) :
    ∃ after, setBitVectorWord middle vector limit (word limit) = .ok after ∧
      Stores vector (limit + 1) word before after := by
  obtain ⟨after, stored, shape, words⟩ := setBitVectorWord_spec (word limit)
    (by rw [stores.shape.wordSize]; exact inside :
      limit < wordSize middle vector)
  refine ⟨after, stored, stores.shape.trans shape, ?_⟩
  intro other position
  rw [words, stores.words]
  by_cases same : other = vector
  · by_cases here : position = limit
    · simp [same, here]
    · have split : position < limit + 1 ↔ position < limit := by omega
      simp [same, here, split]
  · simp [same]

/-- What a word to be stored is determined by: the words at its own index. -/
def ReadsAt (before : Vectors log)
    (source : Vectors log → Nat → Except Stop (Word log))
    (word : Nat → Word log) (index : Nat) : Prop :=
  ∀ current, SameShape before current →
    (∀ other, wordAt current other index = wordAt before other index) →
    source current index = .ok (word index)

theorem Stores.storeWords {vector : Nat} {word : Nat → Word log}
    {before : Vectors log}
    (source : Vectors log → Nat → Except Stop (Word log))
    (count : Nat) {first : Nat} {middle : Vectors log}
    (stores : Stores vector first word before middle)
    (reads : ∀ index, first ≤ index → index < first + count →
      ReadsAt before source word index)
    (inside : ∀ index, first ≤ index → index < first + count →
      index < wordSize before vector) :
    ∃ after, storeWords vector source count first middle = .ok after ∧
      Stores vector (first + count) word before after := by
  induction count generalizing first middle with
  | zero => exact ⟨middle, rfl, stores⟩
  | succ count inductionHypothesis =>
      have read : source middle first = .ok (word first) :=
        reads first (Nat.le_refl _) (by omega) middle stores.shape
          (stores.words_of_le (Nat.le_refl _))
      obtain ⟨next, stored, further⟩ :=
        stores.setBitVectorWord (inside first (Nat.le_refl _) (by omega))
      obtain ⟨after, looped, all⟩ := inductionHypothesis further
        (fun index low high => reads index (by omega) (by omega))
        (fun index low high => inside index (by omega) (by omega))
      refine ⟨after, ?_, ?_⟩
      · simp only [BitVectors.storeWords, read]
        show (BitVectors.setBitVectorWord middle vector first (word first) >>=
          BitVectors.storeWords vector source count (first + 1)) = .ok after
        rw [stored]
        exact looped
      · rwa [show first + (count + 1) = first + 1 + count by omega]

/-! ## Bits of a vector -/

/-- The bit at an index, wherever the index is. -/
def bitAt (vectors : Vectors log) (vector index : Nat) : Bool :=
  (wordAt vectors vector (computeWordOffset log index)).getLsbD
    (computeBitOffset log index)

/-- A vector has been given new bits, and no other vector has changed. -/
structure Writes (vector : Nat) (bit : Nat → Bool)
    (before after : Vectors log) : Prop where
  shape : SameShape before after
  others : ∀ other, other ≠ vector → ∀ position,
    wordAt after other position = wordAt before other position
  bits : ∀ index, index < size before vector →
    bitAt after vector index = bit index

theorem wordInside {vectors : Vectors log} {vector index : Nat}
    (inside : index < size vectors vector) :
    computeWordOffset log index < wordSize vectors vector := by
  rw [wordSize_eq]
  exact computeWordOffset_lt log inside

/-- The bits of the words that a loop has stored, and of those above. -/
theorem Stores.writes {vector limit : Nat} {word : Nat → Word log}
    {before after : Vectors log} {bit : Nat → Bool}
    (stores : Stores vector limit word before after)
    (below : ∀ index, index < BitVectors.size before vector →
      computeWordOffset log index < limit →
      (word (computeWordOffset log index)).getLsbD
        (computeBitOffset log index) = bit index)
    (above : ∀ index, index < BitVectors.size before vector →
      limit ≤ computeWordOffset log index →
      bitAt before vector index = bit index) :
    Writes vector bit before after := by
  refine ⟨stores.shape, ?_, ?_⟩
  · intro other different position
    rw [stores.words, if_neg (fun both => different both.1)]
  · intro index inside
    rw [bitAt, stores.words]
    split
    case isTrue stored => exact below index inside stored.2
    case isFalse kept =>
        apply above index inside
        apply Nat.not_lt.mp
        intro less
        exact kept ⟨rfl, less⟩

/-! ## Bits with a pad -/

/-- The bit at an index of a vector with a pad. -/
def paddedBit (vectors : Vectors log) (vector : Nat) (pad : Bool)
    (index : Nat) : Bool :=
  if index < size vectors vector then bitAt vectors vector index else pad

theorem paddedBit_inside {vectors : Vectors log} {vector index : Nat}
    {pad : Bool} (inside : index < size vectors vector) :
    paddedBit vectors vector pad index = bitAt vectors vector index :=
  if_pos inside

theorem paddedBit_outside {vectors : Vectors log} {vector index : Nat}
    {pad : Bool} (outside : size vectors vector ≤ index) :
    paddedBit vectors vector pad index = pad :=
  if_neg (Nat.not_lt.mpr outside)

end OpenDylan.Collections.BitVectors
