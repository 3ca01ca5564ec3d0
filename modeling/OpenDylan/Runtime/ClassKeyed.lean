import Mathlib.Data.Int.Bitwise
import OpenDylan.Lib.SlotVector

/-!
# Class-keyed discriminators

A class-keyed discriminator maps the unique keys of classes to engine nodes.  It
has one pair of a key and a node, or a table of pairs that is searched from its
start, or a hashed table of them.  Adding a pair may make another discriminator,
with a larger table; the pairs are then added to that one.

The table of the source has a key and a value in successive cells.  Here it is a
vector of pairs, and indexes are those of the cells with keys.  Argument numbers
and signature bits, which are copied and not used, are left out, and so are the
hits that are counted.  Recursion has fuel, and running out of it is `none`.
-/

namespace OpenDylan.Runtime.ClassKeyed

open OpenDylan.Lib.SlotVector

variable {Node : Type}

/-! ## Tables -/

/-- The repeated slot: pairs of a key and a value, where `none` is a pair with
`$ckd-empty` for its key. -/
structure Table (Node : Type) where
  pairs : Nat
  pair : Nat → Option (Int × Node)

/-- A table of some number of cells that are filled with `$ckd-empty`. -/
def Table.empty (tableSize : Nat) : Table Node where
  pairs := tableSize / 2
  pair := fun _ => none

/-- `%ckd-size` -/
def Table.size (table : Table Node) : Nat :=
  2 * table.pairs

/-- Set the pair whose key has an index. -/
def Table.set (table : Table Node) (i : Nat) (key : Int) (value : Node) :
    Table Node :=
  { table with
    pair := fun place =>
      if place = i / 2 then some (key, value) else table.pair place }

/-- The pairs that are not empty, in order. -/
def Table.entries (table : Table Node) : List (Int × Node) :=
  contents table.pair table.pairs

/-! ## Discriminators -/

/-- Which kind of class a discriminator is for, as its engine-node code says,
and the slot `class-keyed-discriminator-default` if it has been set. -/
structure Header (Node : Type) where
  bySingletonClass : Bool
  default : Option Node := none

/-- `<class-keyed-discriminator>`.  The second argument of a hashed one is the
field for the logarithm of its size. -/
inductive Discriminator (Node : Type) where
  | monomorphic (pair : Option (Int × Node))
  | linear (header : Header Node) (table : Table Node)
  | hashed (header : Header Node) (log2Size : Nat) (table : Table Node)

/-- `grounded-class-keyed-discriminator-default`; `absentEngineNode` is the node
`$absent-engine-node`. -/
def groundedDefault (absentEngineNode : Node) :
    Discriminator Node → Option Node
  | .monomorphic _ => some absentEngineNode
  | .linear header _ | .hashed header _ _ =>
    if header.bySingletonClass then header.default else some absentEngineNode

/-- `$linear-discriminator-table-limit` -/
def linearDiscriminatorTableLimit : Nat := 2 * 5

/-- `$linear-discriminator-table-growth-increment` -/
def linearDiscriminatorTableGrowthIncrement : Nat := 2 * 2

/-- The local method `f` of the next function. -/
def log2SizeLoop (storageSize : Nat) : Nat → Nat → Nat
  | 0, i => i + 1
  | fuel + 1, i =>
    if storageSize < 2 ^ i then i + 1
    else log2SizeLoop storageSize fuel (i + 1)

/-- `hashed-class-keyed-discriminator-log2size` -/
def hashedLog2Size (storageSize : Nat) : Nat :=
  log2SizeLoop storageSize storageSize 4

/-- `ckd$s-log2size` -/
def log2SizeWidth : Nat := 5

/-- `make-linear-class-keyed-discriminator` -/
def makeLinear (bySingletonClass : Bool) (tableSize : Nat) :
    Discriminator Node :=
  .linear { bySingletonClass } (Table.empty tableSize)

/-- `make-hashed-class-keyed-discriminator`.  The logarithm is put into a field
of the properties, of which it is loaded later. -/
def makeHashed (bySingletonClass : Bool) (log2Size : Nat) :
    Discriminator Node :=
  .hashed { bySingletonClass } (log2Size % 2 ^ log2SizeWidth)
    (Table.empty (2 ^ log2Size))

/-- `make-initial-class-keyed-discriminator` -/
def makeInitial (bySingletonClass : Bool) (numberOfKeys : Nat) :
    Discriminator Node :=
  let stgsiz := 2 * numberOfKeys
  if ¬ stgsiz < linearDiscriminatorTableLimit then
    makeHashed bySingletonClass (hashedLog2Size stgsiz)
  else
    -- `logand` with -8 clears the lowest three bits.
    makeLinear bySingletonClass ((stgsiz + 3) / 8 * 8)

/-- `make-by-class-discriminator` -/
def makeByClass (numberOfKeys : Nat) : Discriminator Node :=
  if numberOfKeys = 1 then
    .monomorphic none
  else
    makeInitial false numberOfKeys

/-- `grounded-class-keyed-discriminator-default-setter`; a discriminator that is
monomorphic is not for singletons and has no such slot. -/
def setGroundedDefault (value : Option Node) :
    Discriminator Node → Discriminator Node
  | .monomorphic pair => .monomorphic pair
  | .linear header table => .linear { header with default := value } table
  | .hashed header log2Size table =>
    .hashed { header with default := value } log2Size table

/-- `make-by-singleton-class-discriminator` -/
def makeBySingletonClass (numberOfKeys : Nat) (default : Node) :
    Discriminator Node :=
  setGroundedDefault (some default) (makeInitial true numberOfKeys)

/-- `copy-class-keyed-discriminator-attributes` from a discriminator with a
table. -/
def copyAttributes (header : Header Node) (nd : Discriminator Node) :
    Discriminator Node :=
  if header.bySingletonClass then setGroundedDefault header.default nd else nd

/-! ## Probing -/

/-- `%hckd-first-index`, with the mask that `%ckd-mask` computes. -/
def firstIndex (key : Int) (table : Table Node) : Nat :=
  (key.land (table.size - 2)).toNat

/-- `$second-hash-values` -/
def secondHashValues : List Nat :=
  [2, 6, 10, 14, 22, 26, 34, 38, 46, 58, 62, 74, 82, 86, 94, 106]

/-- `$second-hash-mask` -/
def secondHashMask : Int := 15

/-- The step that `%hckd-hash-step` returns. -/
def hashStep (key : Int) (log2Size : Nat) : Nat :=
  secondHashValues.getD ((key >>> log2Size).land secondHashMask).toNat 0

/-- The mask that `%hckd-hash-step` returns. -/
def hashMask (log2Size : Nat) : Int :=
  2 ^ log2Size - 2

/-- `%hckd-next-index` -/
def nextIndex (i step : Nat) (mask : Int) : Nat :=
  (Int.land (i + step) mask).toNat

/-- The loops of lookup and insertion in a hashed table: the first index with
the key or an empty pair, and how many pairs there were before it.  An index
outside the table is an error. -/
def probe (table : Table Node) (key : Int) (step : Nat) (mask : Int) :
    Nat → Nat → Nat → Option (Nat × Nat)
  | 0, _, _ => none
  | fuel + 1, i, nprobes =>
    if i < table.size then
      match table.pair (i / 2) with
      | none => some (i, nprobes)
      | some (otherkey, _) =>
        if otherkey = key then some (i, nprobes)
        else probe table key step mask fuel (nextIndex i step mask)
          (nprobes + 1)
    else
      none

/-- `probe` from the first index, with the step and the mask for a key. -/
def probeFor (fuel : Nat) (table : Table Node) (log2Size : Nat) (key : Int) :
    Option (Nat × Nat) :=
  probe table key (hashStep key log2Size) (hashMask log2Size) fuel
    (firstIndex key table) 0

/-! ## Lookup -/

/-- The index of the first pair of a table that passes a test. -/
def Table.find (table : Table Node) (test : Option (Int × Node) → Bool) :
    Option Nat :=
  ((List.range table.pairs).find? fun place => test (table.pair place)).map
    fun place => 2 * place

/-- `linear-class-key-lookup` -/
def linearLookup (key : Int) (table : Table Node) (default : Node) : Node :=
  match table.find fun pair => pair.any fun entry => entry.1 = key with
  | some i => ((table.pair (i / 2)).map Prod.snd).getD default
  | none => default

/-- `hashed-class-key-lookup` -/
def hashedLookup (fuel : Nat) (key : Int) (log2Size : Nat) (table : Table Node)
    (default : Node) : Option Node :=
  (probeFor fuel table log2Size key).map fun (i, _) =>
    ((table.pair (i / 2)).map Prod.snd).getD default

/-- The part of `ckd-lookup` after the default is known. -/
def ckdLookupDefault (fuel : Nat) (key : Int) (default : Node) :
    Discriminator Node → Option Node
  | .monomorphic none => some default
  | .monomorphic (some (ownKey, next)) =>
    some (if ownKey = key then next else default)
  | .linear _ table => some (linearLookup key table default)
  | .hashed _ log2Size table => hashedLookup fuel key log2Size table default

/-- `ckd-lookup` -/
def ckdLookup (absentEngineNode : Node) (fuel : Nat) (key : Int)
    (d : Discriminator Node) : Option Node :=
  (groundedDefault absentEngineNode d).bind fun default =>
    ckdLookupDefault fuel key default d

/-! ## Insertion -/

/-- Add pairs to a discriminator, one after the other. -/
def addAll (add : Discriminator Node → Int → Node → Option (Discriminator Node))
    (d : Discriminator Node) (pairs : List (Int × Node)) :
    Option (Discriminator Node) :=
  pairs.foldlM (fun d pair => add d pair.1 pair.2) d

section Insertion

-- `ckd-add!`, which is called when a table has grown.
variable (add : Discriminator Node → Int → Node → Option (Discriminator Node))

/-- The new discriminator of `grow-linear-class-keyed-discriminator`. -/
def grownLinear (header : Header Node) (table : Table Node) :
    Discriminator Node :=
  let nstgsiz := table.size + linearDiscriminatorTableGrowthIncrement
  copyAttributes header
    (if ¬ nstgsiz < linearDiscriminatorTableLimit then
      makeHashed header.bySingletonClass (hashedLog2Size nstgsiz)
    else
      makeLinear header.bySingletonClass nstgsiz)

/-- `grow-linear-class-keyed-discriminator`.  It is called when no pair of the
table is empty. -/
def growLinear (header : Header Node) (table : Table Node) :
    Option (Discriminator Node) :=
  addAll add (grownLinear header table) table.entries

/-- `grow-hashed-class-keyed-discriminator` -/
def growHashed (header : Header Node) (log2Size : Nat) (table : Table Node) :
    Option (Discriminator Node) :=
  addAll add
    (copyAttributes header (makeHashed header.bySingletonClass (log2Size + 1)))
    table.entries

/-- `lckd-add!` -/
def lckdAdd (header : Header Node) (table : Table Node) (key : Int)
    (value : Node) : Option (Discriminator Node) :=
  match table.find fun pair => pair.all fun entry => entry.1 = key with
  | some i => some (.linear header (table.set i key value))
  | none => (growLinear add header table).bind fun nd => add nd key value

/-- `mckd-add!` -/
def mckdAdd (pair : Option (Int × Node)) (key : Int) (value : Node) :
    Option (Discriminator Node) :=
  match pair with
  | none => some (.monomorphic (some (key, value)))
  | some (oldKey, next) =>
    if oldKey = key then
      some (.monomorphic (some (key, value)))
    else
      (lckdAdd add { bySingletonClass := false } (Table.empty 2) oldKey
        next).bind fun d => add d key value

/-- The local method `enlarge?` of `hckd-add!`. -/
def isEnlarged (table : Table Node) (nprobes : Nat) : Bool :=
  let siz := table.size
  let cnt := table.entries.length
  let quarterfull := siz / 8
  if cnt ≤ quarterfull then
    false
  else
    let halffull := siz / 4
    if cnt ≤ halffull then
      decide (7 < nprobes)
    else
      let threequarters := quarterfull + halffull
      decide (threequarters ≤ cnt) || decide (4 < nprobes)

/-- `hckd-add!` after its loop has ended at an index. -/
def hckdAddAt (header : Header Node) (log2Size : Nat) (table : Table Node)
    (key : Int) (value : Node) (stop : Nat × Nat) :
    Option (Discriminator Node) :=
  if (table.pair (stop.1 / 2)).isNone && isEnlarged table stop.2 then
    (growHashed add header log2Size table).bind fun nd => add nd key value
  else
    some (.hashed header log2Size (table.set stop.1 key value))

/-- `hckd-add!` -/
def hckdAdd (fuel : Nat) (header : Header Node) (log2Size : Nat)
    (table : Table Node) (key : Int) (value : Node) :
    Option (Discriminator Node) :=
  (probeFor fuel table log2Size key).bind
    (hckdAddAt add header log2Size table key value)

end Insertion

/-- `ckd-add!` -/
def ckdAdd : Nat → Discriminator Node → Int → Node →
    Option (Discriminator Node)
  | 0, _, _, _ => none
  | fuel + 1, .linear header table, key, value =>
    lckdAdd (ckdAdd fuel) header table key value
  | fuel + 1, .monomorphic pair, key, value =>
    mckdAdd (ckdAdd fuel) pair key value
  | fuel + 1, .hashed header log2Size table, key, value =>
    hckdAdd (ckdAdd fuel) fuel header log2Size table key value

/-- A sequence of calls of `ckd-add!`, each for the discriminator that the one
before it returned. -/
def ckdAddAll (fuel : Nat) (d : Discriminator Node)
    (calls : List (Int × Node)) : Option (Discriminator Node) :=
  addAll (ckdAdd fuel) d calls

end OpenDylan.Runtime.ClassKeyed
