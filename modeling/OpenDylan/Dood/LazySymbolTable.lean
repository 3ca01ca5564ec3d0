import OpenDylan.Lib.KeyedMap
import OpenDylan.Runtime.Symbols

/-!
# Lazily loaded symbol tables

A table that is read from a database takes only its size from there.  The keys
are stored in the order of the symbols, with the values after them; a key that
is looked up is found by bisection, and its value is then kept in memory.  The
keys that a search has come by are remembered.  Before an iteration the rest of
the table is loaded.

The tables here have no source: they were read from a database, not made as a
copy of another table.
-/

namespace OpenDylan.Dood.LazySymbolTable

open Lib.KeyedMap Runtime.Symbols

/-- What stops an operation: a database read past its end or at a word of
another kind, a table that has let go of its database, an index outside a
vector, and a loop that does not end. -/
inductive Stop where
  | outside (index : Nat)
  | wrongWord (index : Nat)
  | noState
  | endless
deriving DecidableEq

/-! ## Databases -/

/-- A word of a database, with the object that reading it gives. -/
inductive Word (Value : Type) where
  | tableClass
  | integer (integer : Nat)
  | key (key : Name)
  | value (value : Value)
deriving DecidableEq

/-- The test of an object table on symbols. -/
def symbolTest : KeyTest Name where
  same first second := decide (first = second)
  refl key := by simp
  symm here := by simpa [eq_comm] using here
  trans here there := by
    rw [decide_eq_true_iff] at here there ⊢
    exact here.trans there

/-- `<dood-lazy-symbol-table>` -/
structure Table (Value : Type) where
  data : List (Name × Value)
  resolved : Bool
  address : Nat
  size : Nat
  loadedKeys : List (Option Name)
  doodState : Option (List (Word Value))

section Tables

variable {Value : Type}

/-- The keys of a table as `walk-slots` sorts them. -/
def sortedKeys (spellings : Spellings) (data : List (Name × Value)) :
    List Name :=
  (data.map Prod.fst).mergeSort fun key other =>
    !symbolLessThan spellings other key

/-- `walk-slots` -/
def walkSlots (spellings : Spellings) (data : List (Name × Value)) :
    List (Word Value) :=
  let keys := sortedKeys spellings data
  [.tableClass, .integer data.length] ++ keys.map Word.key ++
    (keys.filterMap fun key => lookup symbolTest key data).map Word.value

/-- `read-object-using-class-at` -/
def readObjectUsingClassAt (dood : List (Word Value)) (address : Nat) :
    Except Stop (Table Value) :=
  match dood[address + 1]? with
  | some (.integer size) =>
      .ok {
        data := []
        resolved := false
        address := address + 1 + 1
        size := size
        loadedKeys := List.replicate size none
        doodState := some dood }
  | some _ => .error (.wrongWord (address + 1))
  | none => .error (.outside (address + 1))

/-! ## Loading -/

/-- `dood-lazy-table-load-at` -/
def loadAt (table : Table Value) (index : Nat) : Except Stop (Word Value) :=
  match table.doodState with
  | none => .error .noState
  | some dood =>
      match dood[table.address + index]? with
      | none => .error (.outside index)
      | some word => .ok word

/-- `dood-lazy-table-register-key-loaded-at` -/
def Table.registerKeyLoadedAt (table : Table Value) (key : Option Name)
    (index : Nat) : Table Value :=
  { table with loadedKeys := table.loadedKeys.set index key }

/-- `dood-lazy-table-load-key-at` -/
def loadKeyAt (table : Table Value) (index : Nat) :
    Except Stop (Name × Table Value) :=
  match table.loadedKeys[index]? with
  | none => .error (.outside index)
  | some (some key) => .ok (key, table)
  | some none => do
      match ← loadAt table index with
      | .key key => .ok (key, table.registerKeyLoadedAt (some key) index)
      | _ => .error (.wrongWord index)

/-- `dood-lazy-table-load-value-at` -/
def loadValueAt (table : Table Value) (index : Nat) : Except Stop Value := do
  match ← loadAt table (index + table.size) with
  | .value value => .ok value
  | _ => .error (.wrongWord (index + table.size))

/-- The loop of `binary-search` -/
def search (spellings : Spellings) (key : Name) :
    Nat → Int → Int → Table Value → Except Stop (Option Nat × Table Value)
  | 0, _, _, _ => .error .endless
  | fuel + 1, low, high, table => do
      let mid := (low + high) / 2
      if low = mid then
        return (none, table)
      else
        let (try', table) ← loadKeyAt table mid.toNat
        if try' = key then
          return (some mid.toNat, table)
        else if symbolLessThan spellings key try' then
          search spellings key fuel low mid table
        else
          search spellings key fuel mid high table

/-- `dood-lazy-table-binary-search` -/
def binarySearch (spellings : Spellings) (table : Table Value) (key : Name) :
    Except Stop (Option Nat × Table Value) :=
  search spellings key (table.size + 1) (-1) table.size table

/-! ## Operations -/

/-- What the operations answer. -/
inductive Answer (Value : Type) where
  | value (value : Value)
  | notPresent (key : Name)
  | present (answer : Bool)
  | count (size : Nat)
  | entries (entries : List (Name × Value))
  | done
deriving DecidableEq

/-- `dood-lazy-table-data(table)[key] := new-value` -/
def Table.setData (table : Table Value) (key : Name) (newValue : Value) :
    Table Value :=
  { table with data := store symbolTest key newValue table.data }

/-- `defaulted-value` -/
def defaultedValue (key : Name) : Option Value → Answer Value
  | some value => .value value
  | none => .notPresent key

/-- `element` -/
def element (spellings : Spellings) (table : Table Value) (key : Name)
    (default : Option Value) : Except Stop (Answer Value × Table Value) :=
  match lookup symbolTest key table.data with
  | some value => .ok (.value value, table)
  | none =>
      if table.resolved then
        .ok (defaultedValue key default, table)
      else do
        let (index, table) ← binarySearch spellings table key
        match index with
        | some index =>
            let value ← loadValueAt table index
            return (.value value, table.setData key value)
        | none => return (defaultedValue key default, table)

/-- `element-setter` -/
def elementSetter (table : Table Value) (newValue : Value) (key : Name) :
    Table Value :=
  table.setData key newValue

/-- `remove-key!` -/
def removeKey (table : Table Value) (key : Name) :
    Answer Value × Table Value :=
  (.present (lookup symbolTest key table.data).isSome,
    { table with data := erase symbolTest key table.data })

/-- `remove-all-keys!` -/
def removeAllKeys (table : Table Value) : Table Value :=
  { table with data := [] }

/-- The first loop of `dood-lazy-table-resolve` at a slot: a key whose value is
loaded already is forgotten, and a key that was not loaded is.  To look for a
value with the default `$unfound` is to look for it without a default here. -/
def resolveKey (spellings : Spellings) (i : Nat) (table : Table Value) :
    Except Stop (Table Value) :=
  match table.loadedKeys[i]? with
  | none => .error (.outside i)
  | some (some key) => do
      let (answer, table) ← element spellings table key none
      match answer with
      | .notPresent _ => return table
      | _ => return table.registerKeyLoadedAt none i
  | some none => do
      let (key, table) ← loadKeyAt table i
      return table.registerKeyLoadedAt (some key) i

/-- The second loop at a slot: the value of a key that is left. -/
def resolveValue (i : Nat) (table : Table Value) :
    Except Stop (Table Value) :=
  match table.loadedKeys[i]? with
  | none => .error (.outside i)
  | some none => return table
  | some (some key) => do
      let value ← loadValueAt table i
      return table.setData key value

/-- A loop over slots. -/
def forSlots (body : Nat → Table Value → Except Stop (Table Value)) :
    Nat → Nat → Table Value → Except Stop (Table Value)
  | 0, _, table => return table
  | count + 1, i, table => do
      let table ← body i table
      forSlots body count (i + 1) table

/-- `dood-lazy-table-resolve` -/
def resolve (spellings : Spellings) (table : Table Value) :
    Except Stop (Table Value) := do
  let table ← forSlots (resolveKey spellings) table.loadedKeys.length 0 table
  let table ← forSlots resolveValue table.loadedKeys.length 0 table
  return { table with doodState := none, loadedKeys := [] }

/-- `dood-lazy-table-ensure-resolved` -/
def ensureResolved (spellings : Spellings) (table : Table Value) :
    Except Stop (Table Value) :=
  if table.resolved then
    return table
  else do
    let table ← resolve spellings table
    return { table with resolved := true }

/-- An operation on a table. -/
inductive Operation (Value : Type) where
  | element (key : Name) (default : Option Value)
  | elementSetter (newValue : Value) (key : Name)
  | removeKey (key : Name)
  | removeAllKeys
  | size
  | iterate
deriving DecidableEq

/-- One operation; an iteration answers the entries that it comes by. -/
def step (spellings : Spellings) (table : Table Value) :
    Operation Value → Except Stop (Answer Value × Table Value)
  | .element key default => element spellings table key default
  | .elementSetter newValue key =>
      .ok (.value newValue, elementSetter table newValue key)
  | .removeKey key => .ok (removeKey table key)
  | .removeAllKeys => .ok (.done, removeAllKeys table)
  | .size => .ok (.count table.data.length, table)
  | .iterate => do
      let table ← ensureResolved spellings table
      return (.entries table.data, table)

/-- A sequence of operations. -/
def run (spellings : Spellings) :
    List (Operation Value) → Table Value →
      Except Stop (List (Answer Value) × Table Value)
  | [], table => return ([], table)
  | operation :: operations, table => do
      let (answer, table) ← step spellings table operation
      let (answers, table) ← run spellings operations table
      return (answer :: answers, table)

end Tables

end OpenDylan.Dood.LazySymbolTable
