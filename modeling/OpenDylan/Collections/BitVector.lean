import Mathlib.Data.List.Basic
import Mathlib.Data.Nat.Bitwise

/-!
# Bit vectors

A bit vector keeps its bits in machine words.  The last word may have bits
past the size of the vector, with any values.  Vectors are objects at
addresses, so that the vector an operation writes may be one of those it reads.
An access outside the words of a vector is an outcome of its own.
-/

namespace OpenDylan.Collections.BitVectors

/-- What stops an operation. -/
inductive Stop where
  | rangeError (index : Int)
  | outside (vector index : Nat)
deriving DecidableEq

/-! ## Words

`log` stands for `$log-word-size`; a word has `2 ^ log` bits.  A bit is `true`
for 1 and `false` for 0.
-/

/-- `<raw-machine-word>` -/
abbrev Word (log : Nat) := BitVec (2 ^ log)

section Words

variable {log : Nat}

/-- `compute-word-offset` -/
def computeWordOffset (log index : Nat) : Nat := index >>> log

/-- `compute-bit-offset` -/
def computeBitOffset (log index : Nat) : Nat := index &&& (2 ^ log - 1)

/-- `raw-mask-for-bits-above` -/
def rawMaskForBitsAbove (bit : Nat) : Word log := BitVec.allOnes _ <<< bit

/-- `raw-mask-for-bits-strictly-below` -/
def rawMaskForBitsStrictlyBelow (bit : Nat) : Word log :=
  ~~~(BitVec.allOnes _ <<< bit)

/-- The word of which `fill!`, `make` and the tails of the operations make
copies: no bits or all bits. -/
def fillWord (fill : Bool) : Word log :=
  if fill = false then 0 else BitVec.allOnes _

/-- The number of words that a vector of a size is given. -/
def wordCount (log size : Nat) : Nat :=
  if size = 0 then 0 else ((size - 1) >>> log) + 1

end Words

/-! ## Vectors and their words -/

/-- `<bit-vector>` -/
structure BitVector (log : Nat) where
  size : Nat
  words : List (Word log)
  counted : words.length = wordCount log size

/-- All bit vectors, by their addresses. -/
abbrev Vectors (log : Nat) := List (BitVector log)

section Access

variable {log : Nat}

/-- A vector without bits. -/
def BitVector.empty : BitVector log := ⟨0, [], rfl⟩

/-- A vector with one word replaced. -/
def BitVector.setWord (vector : BitVector log) (index : Nat)
    (word : Word log) : BitVector log :=
  { vector with
    words := vector.words.set index word
    counted := by rw [List.length_set, vector.counted] }

/-- The vector at an address. -/
def vectorAt (vectors : Vectors log) (vector : Nat) : BitVector log :=
  vectors.getD vector BitVector.empty

/-- `size` -/
def size (vectors : Vectors log) (vector : Nat) : Nat :=
  (vectorAt vectors vector).size

/-- `word-size` -/
def wordSize (vectors : Vectors log) (vector : Nat) : Nat :=
  (vectorAt vectors vector).words.length

/-- The word at an index, 0 past the last. -/
def wordAt (vectors : Vectors log) (vector index : Nat) : Word log :=
  (vectorAt vectors vector).words.getD index 0

/-- `bit-vector-word` -/
def bitVectorWord (vectors : Vectors log) (vector index : Nat) :
    Except Stop (Word log) :=
  if index < wordSize vectors vector then
    .ok (wordAt vectors vector index)
  else
    .error (.outside vector index)

/-- `bit-vector-word-setter` -/
def setBitVectorWord (vectors : Vectors log) (vector index : Nat)
    (word : Word log) : Except Stop (Vectors log) :=
  if index < wordSize vectors vector then
    .ok (vectors.modify vector (·.setWord index word))
  else
    .error (.outside vector index)

/-- A loop that stores a word at each of a number of indices. -/
def storeWords (vector : Nat)
    (word : Vectors log → Nat → Except Stop (Word log)) :
    Nat → Nat → Vectors log → Except Stop (Vectors log)
  | 0, _, vectors => return vectors
  | count + 1, index, vectors => do
      let stored ← word vectors index
      let vectors ← setBitVectorWord vectors vector index stored
      storeWords vector word count (index + 1) vectors

/-! ## Making a vector -/

/-- `$empty-bit-vector` -/
def emptyBitVector : Nat := 0

end Access

end OpenDylan.Collections.BitVectors
