import OpenDylan.Collections.BitVectorLoops

/-!
# Bit sets

A bit set has a member vector and a pad for all numbers past its end, so that
it may be infinite.  It stands for the set of the numbers at which its member
vector has a bit, where the vector goes on with its pad.
-/

namespace OpenDylan.Collections.BitSets

open BitVectors

variable {log : Nat}

/-! ## Sets -/

/-- `<bit-set>` -/
structure BitSet where
  memberVectorPad : Bool
  memberVector : Nat
deriving DecidableEq

/-- All bit vectors and all bit sets, by their addresses. -/
structure Memory (log : Nat) where
  vectors : Vectors log
  sets : List BitSet

/-- The set at an address. -/
def Memory.setAt (memory : Memory log) (set : Nat) : BitSet :=
  memory.sets.getD set ⟨false, emptyBitVector⟩

/-- `member-vector` -/
def Memory.memberVector (memory : Memory log) (set : Nat) : Nat :=
  (memory.setAt set).memberVector

/-- `member-vector-pad` -/
def Memory.memberVectorPad (memory : Memory log) (set : Nat) : Bool :=
  (memory.setAt set).memberVectorPad

/-- The numbers in a set. -/
def elements (memory : Memory log) (set : Nat) : Set Nat :=
  {n | paddedBit memory.vectors (memory.memberVector set)
    (memory.memberVectorPad set) n = true}

end OpenDylan.Collections.BitSets
