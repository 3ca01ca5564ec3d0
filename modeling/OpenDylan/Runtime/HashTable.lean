import OpenDylan.Lib.KeyedMap
import OpenDylan.Lib.Probing
import OpenDylan.Lib.SlotVector

/-!
# Hash tables

The entries of a table are in a vector of slots, which are searched by double
hashing.  The slot of a removed key keeps a marker and is not used again before
a rehash, which either moves the entries within the vector or copies them to
another one.

Objects may move, and their hash codes with them.  A hash state records the
codes that were used; when one of them is no longer valid, the next operation
that misses a key rehashes the vector.

Tables are used here by one thread and are not weak.  A vector that is being
rehashed is marked in its token, which then stays invalid until the end of the
rehash.  An operation that goes on for ever is the result `none`.
-/

namespace OpenDylan.Runtime.HashTable

open OpenDylan.Lib.KeyedMap OpenDylan.Lib.Probing

/-! ## Sizes -/

/-- `ceiling(count * $grow-threshold)`; the threshold is `0.75`. -/
def additionsLimitFor (count : Nat) : Nat :=
  (3 * count + 3) / 4

/-- `ceiling/(desired, $grow-threshold)` -/
def entriesFor (desired : Nat) : Nat :=
  (4 * desired + 2) / 3

/-- `$minimum-growth-amount` -/
def minimumGrowthAmount : Nat :=
  entriesFor 10

/-- `$minimum-entries` -/
def minimumEntries : Nat := 31

/-- `$entry-counts` -/
def entryCounts : List Nat :=
  [2, 3, 5, 7, 11, 17, 23, 29, 37, 47, 59, 79, 101, 127, 163, 211, 269, 337,
    431, 541, 677, 853, 1069, 1361, 1709, 2137, 2677, 3347, 4201, 5261, 6577,
    8231, 10289, 12889, 16127, 20161, 25219, 31531, 39419, 49277, 61603, 77017,
    96281, 120371, 150473, 188107, 235159, 293957, 367453, 459317, 574157,
    717697, 897133, 1121423, 1401791, 1752239, 2190299, 2737937, 3422429,
    4278037, 5347553, 6684443, 8355563, 10444457, 13055587, 16319519, 20399411,
    25499291, 31874149, 39842687, 49803361, 62254207, 77817767, 97272239,
    121590311, 151987889, 189984863, 237481091, 296851369, 371064217,
    463830313]

/-- `$entry-last` -/
def entryLast : Nat :=
  entryCounts.length - 1

/-- The local method `loop` of `search-for-entry-count`. -/
def searchEntryCounts (needed : Nat) : Nat → Nat → Nat → Nat
  | 0, lower, _ => entryCounts.getD lower 0
  | fuel + 1, lower, upper =>
      if lower = upper then
        entryCounts.getD lower 0
      else
        let index := (lower + upper) / 2
        if entryCounts.getD index 0 < needed then
          searchEntryCounts needed fuel (index + 1) upper
        else
          searchEntryCounts needed fuel lower index

/-- `search-for-entry-count` -/
def searchForEntryCount (needed : Nat) : Nat :=
  searchEntryCounts needed entryLast 0 entryLast

/-- `compute-entry-count`; a negative number counts as zero. -/
def computeEntryCount (desired : Int) : Option Nat :=
  let needed := max (entriesFor desired.toNat) minimumEntries
  if needed ≤ entryCounts.getD entryLast 0 then
    some (searchForEntryCount needed)
  else
    none

/-! ## Hash codes -/

/-- The protocol of a table: a test on keys, and the hash codes of keys while
the objects are where they are in a heap.  Keys that pass the test have the same
code.  The code of a key is the same in another heap unless it is reported to
depend on what moved. -/
structure Hashing (Key Heap : Type) extends KeyTest Key where
  hash : Heap → Key → Int
  moved : Heap → Heap → Key → Bool
  consistent (heap : Heap) {first second : Key}
    (isSame : same first second = true) : hash heap first = hash heap second
  moved_self (heap : Heap) (key : Key) : moved heap heap key = false
  hash_unmoved {old new : Heap} {key : Key}
    (unmoved : moved old new key = false) : hash old key = hash new key

/-- `<hash-state>`, as the keys that were hashed and where they were. -/
abbrev HashState (Key Heap : Type) : Type := List (Heap × Key)

/-- `$secondary-strides` -/
def secondaryStrides : List Nat := [5, 7, 11, 13, 17, 19, 23, 29]

/-- `primary-index` -/
def primaryIndex (id : Int) (count : Nat) : Nat :=
  (id % count).toNat

/-- `secondary-stride` -/
def secondaryStride (id : Int) : Nat :=
  secondaryStrides.getD (id % 8).toNat 0

/-! ## Table vectors -/

/-- What a slot of an entry vector holds. -/
inductive Entry (Item : Type) where
  | empty
  | deleted
  | present (item : Item)
deriving DecidableEq

/-- `table-entry-deleted?` -/
def tableEntryDeleted {Item : Type} : Entry Item → Bool
  | .deleted => true
  | _ => false

/-- `<table-vector>` -/
structure TableVector (Key Value Heap : Type) where
  entryCount : Nat
  additionsLimit : Nat
  entryKeys : Nat → Entry Key
  entryValues : Nat → Entry Value
  additions : Nat
  deletions : Nat
  hashState : HashState Key Heap
  rehashing : Bool
  iterationStateReferences : Nat

/-- What a table can signal. -/
inductive TableError where
  | keyMissing
  | desiredSizeExceedsMaximum
  | growSizeFunctionFailed
deriving DecidableEq

/-- `<table>`; the grow size function may fail to return an integer. -/
structure Table (Key Value Heap : Type) where
  tableVector : TableVector Key Value Heap
  initialEntries : Int
  growSizeFunction : Nat → Option Int

section Operations

variable {Key Value Heap : Type}

/-- `present-entry-count` -/
def TableVector.presentEntryCount (tv : TableVector Key Value Heap) : Nat :=
  tv.additions - tv.deletions

/-- `full?` -/
def TableVector.full (tv : TableVector Key Value Heap) : Bool :=
  tv.additions ≥ tv.additionsLimit

/-- `is-stale?` -/
def isStale (hashing : Hashing Key Heap) (heap : Heap)
    (state : HashState Key Heap) : Bool :=
  state.any fun hashed => hashing.moved hashed.1 heap hashed.2

/-- `merge-hash-state!` with the state of a key that is hashed now. -/
def mergeHashState (state : HashState Key Heap) (heap : Heap) (key : Key) :
    HashState Key Heap :=
  (heap, key) :: state

/-- `rehash-token-valid?` of the token of a vector. -/
def TableVector.rehashTokenValid (tv : TableVector Key Value Heap) : Bool :=
  !tv.rehashing

/-- `needs-rehash?` -/
def TableVector.needsRehash (hashing : Hashing Key Heap) (heap : Heap)
    (tv : TableVector Key Value Heap) : Bool :=
  !tv.rehashTokenValid || isStale hashing heap tv.hashState

/-- `in-place-rehashable?`, with `*rehash-table-vectors-in-place?*`. -/
def TableVector.inPlaceRehashable (tv : TableVector Key Value Heap) : Bool :=
  tv.iterationStateReferences = 0

/-- `make-table-vector` -/
def makeTableVector (desired : Int) : Option (TableVector Key Value Heap) :=
  (computeEntryCount desired).map fun count =>
    { entryCount := count
      additionsLimit := additionsLimitFor count
      entryKeys := fun _ => .empty
      entryValues := fun _ => .empty
      additions := 0
      deletions := 0
      hashState := []
      rehashing := false
      iterationStateReferences := 0 }

/-- Write an entry. -/
def TableVector.set (tv : TableVector Key Value Heap) (index : Nat)
    (key : Entry Key) (value : Entry Value) : TableVector Key Value Heap :=
  { tv with
    entryKeys := fun place => if place = index then key else tv.entryKeys place
    entryValues := fun place =>
      if place = index then value else tv.entryValues place }

/-! ## Searching -/

/-- What ends a search for a key. -/
def TableVector.endsSearch (hashing : Hashing Key Heap)
    (tv : TableVector Key Value Heap) (key : Key) (index : Nat) : Bool :=
  match tv.entryKeys index with
  | .empty => true
  | .deleted => false
  | .present tableKey => hashing.same key tableKey

/-- `search`.  After as many slots as there are the search repeats itself. -/
def TableVector.search (hashing : Hashing Key Heap)
    (tv : TableVector Key Value Heap) (key : Key) (id : Int) :
    Option (Nat × Entry Key) :=
  (probe (tv.endsSearch hashing key) tv.entryCount (secondaryStride id)
    tv.entryCount (primaryIndex id tv.entryCount)).map fun index =>
      (index, tv.entryKeys index)

/-- What ends the search for the place of a key that is rehashed. -/
def TableVector.takesRehashed (tv : TableVector Key Value Heap)
    (bits : Nat → Bool) (index : Nat) : Bool :=
  match tv.entryKeys index with
  | .empty => true
  | .deleted => true
  | .present _ => !bits index

/-- `find-rehash-insertion-point` -/
def TableVector.findRehashInsertionPoint (tv : TableVector Key Value Heap)
    (id : Int) (bits : Nat → Bool) : Option Nat :=
  probe (tv.takesRehashed bits) tv.entryCount (secondaryStride id)
    tv.entryCount (primaryIndex id tv.entryCount)

/-! ## Rehashing -/

/-- `clear-table-vector!` -/
def TableVector.clear (tv : TableVector Key Value Heap) :
    TableVector Key Value Heap :=
  { tv with
    deletions := 0
    additions := 0
    entryKeys := fun _ => .empty
    entryValues := fun _ => .empty
    hashState := []
    rehashing := false }

/-- The variables of `rehash-in-place`; the bits tell which slots hold an entry
that was rehashed. -/
structure InPlace (Key Value Heap : Type) where
  tv : TableVector Key Value Heap
  bits : Nat → Bool
  count : Nat
  state : HashState Key Heap

/-- The assignments of `storenext` at an index. -/
def InPlace.put (run : InPlace Key Value Heap) (heap : Heap) (index : Nat)
    (key : Key) (value : Entry Value) : InPlace Key Value Heap where
  tv := run.tv.set index (.present key) value
  bits := fun place => if place = index then true else run.bits place
  count := run.count + 1
  state := mergeHashState run.state heap key

/-- The local method `storenext` of `rehash-in-place`. -/
def storeNext (hashing : Hashing Key Heap) (heap : Heap) :
    Nat → Entry Key → Entry Value → InPlace Key Value Heap →
      Option (InPlace Key Value Heap)
  | fuel + 1, .present key, value, run =>
      match run.tv.findRehashInsertionPoint (hashing.hash heap key)
        run.bits with
      | none => none
      | some index =>
          storeNext hashing heap fuel (run.tv.entryKeys index)
            (run.tv.entryValues index) (run.put heap index key value)
  | 0, .present _, _, _ => none
  | _, .empty, _, run => some run
  | _, .deleted, _, run => some run

/-- The local method `loop` of `rehash-in-place`, from an index down. -/
def rehashInPlaceLoop (hashing : Hashing Key Heap) (heap : Heap) :
    Nat → InPlace Key Value Heap → Option (InPlace Key Value Heap)
  | 0, run => some run
  | index + 1, run =>
      if run.bits index then
        rehashInPlaceLoop hashing heap index run
      else
        match storeNext hashing heap (run.tv.entryCount + 1)
          (run.tv.entryKeys index) (run.tv.entryValues index)
          { run with tv := run.tv.set index .empty .empty } with
        | none => none
        | some run => rehashInPlaceLoop hashing heap index run

/-- `rehash-in-place` -/
def rehashInPlace (hashing : Hashing Key Heap) (heap : Heap)
    (tv : TableVector Key Value Heap) :
    Option (TableVector Key Value Heap) :=
  (rehashInPlaceLoop hashing heap tv.entryCount
    { tv := tv, bits := fun _ => false, count := 0, state := [] }).map
      fun run =>
        { run.tv with
          additions := run.count
          deletions := 0
          hashState := run.state
          rehashing := false }

/-- The local method `loop` of `rehash-into-copy`, from an index down. -/
def copyEntries (hashing : Hashing Key Heap) (heap : Heap)
    (src : TableVector Key Value Heap) :
    Nat → TableVector Key Value Heap → HashState Key Heap → Nat →
      Option (TableVector Key Value Heap)
  | 0, dst, state, count =>
      some { dst with
        additions := count
        hashState := state }
  | index + 1, dst, state, count =>
      match src.entryKeys index with
      | .present key =>
          match dst.search hashing key (hashing.hash heap key) with
          | none => none
          | some (dstIndex, _) =>
              copyEntries hashing heap src index
                (dst.set dstIndex (.present key) (src.entryValues index))
                (mergeHashState state heap key) (count + 1)
      | _ => copyEntries hashing heap src index dst state count

/-- `rehash-into-copy` -/
def rehashIntoCopy (hashing : Hashing Key Heap) (heap : Heap)
    (src dst : TableVector Key Value Heap) :
    Option (TableVector Key Value Heap) :=
  copyEntries hashing heap src src.entryCount dst dst.hashState 0

/-- `rehash-entry-count` -/
def Table.rehashEntryCount (table : Table Key Value Heap) (grow : Bool) :
    Option Int :=
  let present := table.tableVector.presentEntryCount
  if !grow || table.tableVector.additionsLimit > present then
    some (max table.initialEntries present)
  else
    (table.growSizeFunction present).map fun new =>
      max ((present + minimumGrowthAmount : Nat) : Int) new

/-- What an operation returns or signals, and the table it leaves. -/
abbrev Outcome (Result Key Value Heap : Type) : Type :=
  Option (Except TableError Result × Table Key Value Heap)

/-- Go on with the table that an operation leaves, unless it signals. -/
def Outcome.continue {First Second : Type}
    (outcome : Outcome First Key Value Heap)
    (next : Table Key Value Heap → Outcome Second Key Value Heap) :
    Outcome Second Key Value Heap :=
  match outcome with
  | none => none
  | some (.error error, table) => some (.error error, table)
  | some (.ok _, table) => next table

/-- `rehash-table`.  The token of the vector is marked before the size of
another vector is known to be possible. -/
def rehashTable (hashing : Hashing Key Heap) (heap : Heap)
    (table : Table Key Value Heap) (grow : Bool) :
    Outcome Unit Key Value Heap :=
  let marked := { table.tableVector with rehashing := true }
  if !grow && marked.inPlaceRehashable then
    (rehashInPlace hashing heap marked).map fun tv =>
      (.ok (), { table with tableVector := tv })
  else
    match table.rehashEntryCount grow with
    | none =>
        some (.error .growSizeFunctionFailed,
          { table with tableVector := marked })
    | some desired =>
        match makeTableVector desired with
        | none =>
            some (.error .desiredSizeExceedsMaximum,
              { table with tableVector := marked })
        | some dst =>
            (rehashIntoCopy hashing heap marked dst).map fun tv =>
              (.ok (), { table with tableVector := tv })

/-! ## Operations -/

/-- `make` of a table of a number of entries. -/
def makeTable (initialEntries : Int) (growSizeFunction : Nat → Option Int) :
    Option (Table Key Value Heap) :=
  (makeTableVector initialEntries).map fun tv =>
    { tableVector := tv
      initialEntries := initialEntries
      growSizeFunction := growSizeFunction }

/-- `size` -/
def Table.size (table : Table Key Value Heap) : Nat :=
  table.tableVector.presentEntryCount

/-- The results of `gethash` for a key that is not there; an empty entry stands
for no default. -/
def missing (default : Entry Value) : Except TableError (Entry Value) :=
  match default with
  | .empty => .error .keyMissing
  | other => .ok other

/-- `gethash` -/
def gethash (hashing : Hashing Key Heap) (heap : Heap)
    (key : Key) (default : Entry Value) :
    Nat → Table Key Value Heap → Outcome (Entry Value) Key Value Heap
  | 0, _ => none
  | attempts + 1, table =>
      let tv := table.tableVector
      match tv.search hashing key (hashing.hash heap key) with
      | none => none
      | some (_, .empty) =>
          if tv.needsRehash hashing heap then
            (rehashTable hashing heap table false).continue
              (gethash hashing heap key default attempts)
          else
            some (missing default, table)
      | some (index, _) =>
          if tv.rehashTokenValid &&
              !tableEntryDeleted (tv.entryValues index) then
            some (.ok (tv.entryValues index), table)
          else
            gethash hashing heap key default attempts table

/-- `try-to-puthash-old`; a failure changes nothing. -/
def TableVector.tryToPuthashOld (tv : TableVector Key Value Heap)
    (index : Nat) (newValue : Value) : Bool × TableVector Key Value Heap :=
  if tv.rehashTokenValid then
    (true, { tv with
      entryValues := fun place =>
        if place = index then .present newValue else tv.entryValues place })
  else
    (false, tv)

/-- `try-to-puthash-new`; a failure leaves the merged hash state. -/
def TableVector.tryToPuthashNew (hashing : Hashing Key Heap) (heap : Heap)
    (tv : TableVector Key Value Heap) (index : Nat) (key : Key)
    (newValue : Value) : Bool × TableVector Key Value Heap :=
  let tv := { tv with hashState := mergeHashState tv.hashState heap key }
  match tv.entryKeys index with
  | .empty =>
      if !tv.full && tv.rehashTokenValid &&
          !isStale hashing heap tv.hashState then
        (true, { tv.set index (.present key) (.present newValue) with
          additions := tv.additions + 1 })
      else
        (false, tv)
  | _ => (false, tv)

/-- The condition in `puthash`: the value is stored where the key was found, or
a new entry is made. -/
def TableVector.tryToPuthash (hashing : Hashing Key Heap) (heap : Heap)
    (tv : TableVector Key Value Heap) (index : Nat) (foundKey : Entry Key)
    (key : Key) (newValue : Value) : Bool × TableVector Key Value Heap :=
  match foundKey with
  | .empty => tv.tryToPuthashNew hashing heap index key newValue
  | _ => tv.tryToPuthashOld index newValue

/-- `puthash` -/
def puthash (hashing : Hashing Key Heap) (heap : Heap) (newValue : Value)
    (key : Key) :
    Nat → Table Key Value Heap → Outcome Value Key Value Heap
  | 0, _ => none
  | attempts + 1, table =>
      let tv := table.tableVector
      match tv.search hashing key (hashing.hash heap key) with
      | none => none
      | some (index, foundKey) =>
          let (success, tv) :=
            tv.tryToPuthash hashing heap index foundKey key newValue
          let table := { table with tableVector := tv }
          if success then
            some (.ok newValue, table)
          else if tv.needsRehash hashing heap then
            (rehashTable hashing heap table tv.full).continue
              (puthash hashing heap newValue key attempts)
          else if tv.full then
            (rehashTable hashing heap table true).continue
              (puthash hashing heap newValue key attempts)
          else
            puthash hashing heap newValue key attempts table

/-- `try-to-remhash` -/
def TableVector.tryToRemhash (tv : TableVector Key Value Heap)
    (index : Nat) : Bool × TableVector Key Value Heap :=
  match tv.entryKeys index with
  | .deleted => (false, tv)
  | _ =>
      if tv.rehashTokenValid then
        (true, { tv.set index .deleted .deleted with
          deletions := tv.deletions + 1 })
      else
        (false, tv)

/-- The condition in `remove-key!`: an entry that was found is removed. -/
def TableVector.tryToRemoveKey (tv : TableVector Key Value Heap)
    (index : Nat) (foundKey : Entry Key) :
    Bool × TableVector Key Value Heap :=
  match foundKey with
  | .empty => (false, tv)
  | _ => tv.tryToRemhash index

/-- `remove-key!` -/
def removeKey (hashing : Hashing Key Heap) (heap : Heap) (key : Key) :
    Nat → Table Key Value Heap → Outcome Bool Key Value Heap
  | 0, _ => none
  | attempts + 1, table =>
      let tv := table.tableVector
      match tv.search hashing key (hashing.hash heap key) with
      | none => none
      | some (index, foundKey) =>
          let (success, tv) := tv.tryToRemoveKey index foundKey
          let table := { table with tableVector := tv }
          if success then
            some (.ok true, table)
          else if tv.needsRehash hashing heap then
            (rehashTable hashing heap table false).continue
              (removeKey hashing heap key attempts)
          else
            match foundKey with
            | .empty => some (.ok false, table)
            | _ => removeKey hashing heap key attempts table

/-- `remove-all-keys!` -/
def removeAllKeys (table : Table Key Value Heap) :
    Outcome Unit Key Value Heap :=
  let tv := table.tableVector
  if tv.additions = 0 then
    some (.ok (), table)
  else if tv.inPlaceRehashable then
    some (.ok (), { table with tableVector := tv.clear })
  else
    match makeTableVector table.initialEntries with
    | none => some (.error .desiredSizeExceedsMaximum, table)
    | some new => some (.ok (), { table with tableVector := new })

end Operations

end OpenDylan.Runtime.HashTable
