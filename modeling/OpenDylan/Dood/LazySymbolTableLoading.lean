import OpenDylan.Dood.LazySymbolTable
import OpenDylan.Lib.Bisection
import Mathlib.Data.List.Sort

/-!
# Loading keys and values

The stored keys are in order, so that a search finds a key if it is stored.
What it leaves behind are the keys that it came by; with a key, those on the
way to it have been loaded too.
-/

namespace OpenDylan.Dood.LazySymbolTable

open Lib.KeyedMap Lib.Bisection Runtime.Symbols

variable {Value : Type} {spellings : Spellings}
  {map : List (Name × Value)} {table : Table Value}

/-! ## The stored keys -/

theorem sortedKeys_perm (spellings : Spellings) (map : List (Name × Value)) :
    (sortedKeys spellings map).Perm (map.map Prod.fst) :=
  List.mergeSort_perm _ _

theorem length_sortedKeys (spellings : Spellings)
    (map : List (Name × Value)) :
    (sortedKeys spellings map).length = map.length := by
  rw [(sortedKeys_perm spellings map).length_eq, List.length_map]

theorem lookup_isSome_iff {key : Name} :
    (∃ value, lookup symbolTest key map = some value) ↔
      key ∈ map.map Prod.fst := by
  rw [← Option.ne_none_iff_exists', Ne, lookup_eq_none]
  simp [symbolTest, eq_comm]

theorem mem_sortedKeys {key : Name} :
    key ∈ sortedKeys spellings map ↔
      ∃ value, lookup symbolTest key map = some value := by
  rw [lookup_isSome_iff, (sortedKeys_perm spellings map).mem_iff]

theorem sortedKeys_nodup (distinct : Distinct symbolTest map) :
    (sortedKeys spellings map).Nodup := by
  rw [(sortedKeys_perm spellings map).nodup_iff, List.Nodup,
    List.pairwise_map]
  apply List.Pairwise.imp _ distinct
  intro first second apart
  simpa [Apart, symbolTest] using apart

theorem sortedKeys_ordered (spellings : Spellings)
    (map : List (Name × Value)) :
    (sortedKeys spellings map).Pairwise fun key other =>
      symbolLessThan spellings other key = false := by
  have ordered := @List.pairwise_mergeSort Name (fun key other =>
      !symbolLessThan spellings other key) ?_ ?_ (map.map Prod.fst)
  · apply List.Pairwise.imp _ ordered
    intro key other notAbove
    simpa using notAbove
  · intro first second third before after
    simp only [Bool.not_eq_true', Bool.eq_false_iff, Ne,
      symbolLessThan_iff, not_lt] at before after ⊢
    exact before.trans after
  · intro first second
    simp only [Bool.or_eq_true, Bool.not_eq_true', Bool.eq_false_iff, Ne,
      symbolLessThan_iff, not_lt]
    exact le_total first.lowercase second.lowercase

/-- Stored keys are in strict order. -/
theorem sortedKeys_lt (distinct : Distinct symbolTest map) {i j : Nat}
    {first second : Name}
    (atFirst : (sortedKeys spellings map)[i]? = some first)
    (atSecond : (sortedKeys spellings map)[j]? = some second) (lt : i < j) :
    symbolLessThan spellings first second = true := by
  have here := List.getElem?_eq_some_iff.mp atFirst
  have there := List.getElem?_eq_some_iff.mp atSecond
  have notAbove := List.pairwise_iff_getElem.mp
    (sortedKeys_ordered spellings map) i j here.1 there.1 lt
  have nodup : (sortedKeys spellings map).Nodup := sortedKeys_nodup distinct
  have different :=
    List.pairwise_iff_getElem.mp nodup i j here.1 there.1 lt
  rw [here.2, there.2] at notAbove different
  have apart : symbolLessThan spellings first second = true ∨
      symbolLessThan spellings second first = true :=
    symbolLessThan_total different
  cases apart with
  | inl below => exact below
  | inr above => exact absurd above (by simp [notAbove])

/-! ## Keys that were come by -/

/-- Slots after the keys at some positions were loaded. -/
def remembered (keys : List Name) : List Nat → List (Option Name) →
    List (Option Name)
  | [], slots => slots
  | position :: positions, slots =>
      remembered keys positions (slots.set position keys[position]?)

theorem length_remembered (keys : List Name) (positions : List Nat)
    (slots : List (Option Name)) :
    (remembered keys positions slots).length = slots.length := by
  induction positions generalizing slots with
  | nil => rfl
  | cons position positions inductionHypothesis =>
      rw [remembered, inductionHypothesis, List.length_set]

theorem getElem?_remembered {keys : List Name} {positions : List Nat}
    {slots : List (Option Name)} {i : Nat} (inside : i < slots.length) :
    (remembered keys positions slots)[i]? =
      if i ∈ positions then some keys[i]? else slots[i]? := by
  induction positions generalizing slots with
  | nil => simp [remembered]
  | cons position positions inductionHypothesis =>
      rw [remembered, inductionHypothesis (by simpa using inside)]
      by_cases later : i ∈ positions
      · simp [later]
      · by_cases here : position = i
        · subst here
          simp [later, inside]
        · have other : i ≠ position := fun same => here same.symm
          simp [later, here, other]

/-- The table after the keys at some positions were loaded. -/
def Table.remember (keys : List Name) (positions : List Nat)
    (table : Table Value) : Table Value :=
  { table with loadedKeys := remembered keys positions table.loadedKeys }

/-- A table with the keys and the values of a map in its database. -/
structure Loads (spellings : Spellings) (map : List (Name × Value))
    (table : Table Value) : Prop where
  size : table.size = map.length
  count : table.loadedKeys.length = map.length
  loaded : ∀ {i : Nat} {key : Name},
    table.loadedKeys[i]? = some (some key) →
      (sortedKeys spellings map)[i]? = some key
  keyAt : ∀ {i : Nat} {key : Name},
    (sortedKeys spellings map)[i]? = some key →
      loadAt table i = .ok (.key key)
  valueAt : ∀ {i : Nat} {key : Name} {value : Value},
    (sortedKeys spellings map)[i]? = some key →
      lookup symbolTest key map = some value →
        loadAt table (i + table.size) = .ok (.value value)

/-- What the database holds does not depend on what is in memory. -/
theorem Loads.of_slots (loads : Loads spellings map table)
    {data : List (Name × Value)} {slots : List (Option Name)}
    (count : slots.length = map.length)
    (loaded : ∀ {i : Nat} {key : Name}, slots[i]? = some (some key) →
      (sortedKeys spellings map)[i]? = some key) :
    Loads spellings map { table with data := data, loadedKeys := slots } where
  size := loads.size
  count := count
  loaded := loaded
  keyAt := loads.keyAt
  valueAt := loads.valueAt

theorem Loads.setData (loads : Loads spellings map table) (key : Name)
    (value : Value) : Loads spellings map (table.setData key value) :=
  loads.of_slots loads.count loads.loaded

theorem Loads.inside (loads : Loads spellings map table) {i : Nat}
    {key : Name} (stored : (sortedKeys spellings map)[i]? = some key) :
    i < table.loadedKeys.length := by
  rw [loads.count, ← length_sortedKeys spellings map]
  exact (List.getElem?_eq_some_iff.mp stored).1

theorem Loads.stored (loads : Loads spellings map table) {i : Nat}
    (inside : i < table.loadedKeys.length) :
    ∃ key, (sortedKeys spellings map)[i]? = some key := by
  rw [loads.count, ← length_sortedKeys spellings map] at inside
  exact ⟨_, List.getElem?_eq_getElem inside⟩

theorem Loads.remember (loads : Loads spellings map table)
    (positions : List Nat) :
    Loads spellings map
      (table.remember (sortedKeys spellings map) positions) := by
  apply loads.of_slots
  · rw [length_remembered, loads.count]
  · intro i key slot
    have inside : i < table.loadedKeys.length := by
      rw [← length_remembered (sortedKeys spellings map) positions]
      exact (List.getElem?_eq_some_iff.mp slot).1
    rw [getElem?_remembered inside] at slot
    by_cases member : i ∈ positions
    · simpa [member] using slot
    · rw [if_neg member] at slot
      exact loads.loaded slot

theorem Loads.register (loads : Loads spellings map table) {i : Nat}
    {slot : Option Name}
    (stored : ∀ key, slot = some key →
      (sortedKeys spellings map)[i]? = some key) :
    Loads spellings map (table.registerKeyLoadedAt slot i) := by
  apply loads.of_slots
  · rw [List.length_set, loads.count]
  · intro j key atSlot
    rw [List.getElem?_set] at atSlot
    by_cases here : i = j
    · subst here
      rw [if_pos rfl] at atSlot
      split at atSlot
      case isTrue => exact stored key (by simpa using atSlot)
      case isFalse => cases atSlot
    · rw [if_neg here] at atSlot
      exact loads.loaded atSlot

/-! ## The search -/

theorem Loads.loadKeyAt (loads : Loads spellings map table) {i : Nat}
    {key : Name} (stored : (sortedKeys spellings map)[i]? = some key) :
    loadKeyAt table i =
      .ok (key, table.remember (sortedKeys spellings map) [i]) := by
  have inside := loads.inside stored
  unfold LazySymbolTable.loadKeyAt Table.remember
  rw [remembered, remembered, stored]
  cases slot : table.loadedKeys[i]? with
  | none =>
      rw [List.getElem?_eq_none_iff] at slot
      omega
  | some content =>
      cases content with
      | none =>
          simp only [loads.keyAt stored]
          rfl
      | some other =>
          have same : some other = some key := by
            rw [← loads.loaded slot, stored]
          rw [same] at slot
          have kept : table.loadedKeys.set i (some key) =
              table.loadedKeys := by
            apply List.ext_getElem?
            intro j
            rw [List.getElem?_set]
            by_cases here : i = j
            · subst here
              rw [if_pos rfl, if_pos inside, slot]
            · rw [if_neg here]
          simp only [kept]
          rw [Option.some.inj same]

theorem Loads.loadValueAt (loads : Loads spellings map table) {i : Nat}
    {key : Name} {value : Value}
    (stored : (sortedKeys spellings map)[i]? = some key)
    (mapped : lookup symbolTest key map = some value) :
    loadValueAt table i = .ok value := by
  unfold LazySymbolTable.loadValueAt
  rw [loads.valueAt stored mapped]
  rfl

/-- The side of a stored key on which a key lies. -/
def keySide (spellings : Spellings) (keys : List Name) (key : Name)
    (position : Nat) : Ordering :=
  match keys[position]? with
  | none => .gt
  | some try' =>
      if try' = key then .eq
      else if symbolLessThan spellings key try' then .lt
      else .gt

theorem Loads.search (loads : Loads spellings map table) {key : Name}
    {fuel : Nat} {low high : Int} (bounds : Bounds low high)
    (below : high ≤ map.length) (enough : high - low ≤ fuel) :
    search spellings key fuel low high table =
      let result :=
        bisect (keySide spellings (sortedKeys spellings map) key) fuel low high
      .ok (result.2,
        table.remember (sortedKeys spellings map) result.1) := by
  induction fuel generalizing low high table with
  | zero =>
      have apart := bounds.apart
      omega
  | succ fuel inductionHypothesis =>
      have start := bounds.start
      unfold LazySymbolTable.search bisect
      by_cases stop : low = (low + high) / 2
      · simp only [← stop, if_true]
        rfl
      · have middle := bounds.middle stop
        have between := middle_bounds bounds.apart stop
        simp only [stop, if_false]
        have inside : ((low + high) / 2).toNat < table.loadedKeys.length := by
          rw [loads.count]
          omega
        have stored := loads.stored inside
        cases stored with
        | intro try' stored =>
            have next := loads.remember [((low + high) / 2).toNat]
            rw [loads.loadKeyAt stored]
            simp only [keySide, stored]
            show (if try' = key then _ else if _ then _ else _) = _
            by_cases found : try' = key
            · simp only [found, if_true]
              rfl
            · simp only [found, if_false]
              by_cases before : symbolLessThan spellings key try' = true
              · simp only [before, if_true]
                rw [inductionHypothesis next middle.2.1 (by omega) (by omega)]
                rfl
              · simp only [before]
                rw [inductionHypothesis next middle.2.2 below (by omega)]
                rfl

/-- The positions that the search for a stored key looks at. -/
def path (count position : Nat) : List Nat :=
  (bisect (towards position) (count + 1) (-1) count).1

theorem searchBounds (count : Nat) : Bounds (-1) (count : Int) :=
  ⟨le_refl (-1), by omega⟩

theorem lt_of_mem_path {count position other : Nat}
    (member : other ∈ path count position) : other < count := by
  have between := between_of_mem (searchBounds count) member
  omega

/-- The positions that a search for a key looks at. -/
def visited (spellings : Spellings) (map : List (Name × Value)) (key : Name) :
    List Nat :=
  (bisect (keySide spellings (sortedKeys spellings map) key)
    (map.length + 1) (-1) map.length).1

theorem lt_of_mem_visited {key : Name} {position : Nat}
    (member : position ∈ visited spellings map key) :
    position < map.length := by
  have between := between_of_mem (searchBounds map.length) member
  omega

theorem path_subset_visited {key : Name} {position : Nat}
    (member : position ∈ visited spellings map key) :
    path map.length position ⊆ visited spellings map key :=
  towards_subset (searchBounds map.length) member

theorem keySide_stored (distinct : Distinct symbolTest map) {i : Nat}
    {key : Name} (stored : (sortedKeys spellings map)[i]? = some key)
    {position : Nat} (inside : position < map.length) :
    keySide spellings (sortedKeys spellings map) key position =
      towards i position := by
  rw [← length_sortedKeys spellings map] at inside
  have atPosition := List.getElem?_eq_getElem inside
  unfold keySide towards
  rw [atPosition]
  rcases Nat.lt_trichotomy i position with before | here | after
  · have below := sortedKeys_lt distinct stored atPosition before
    have other : (sortedKeys spellings map)[position] ≠ key := by
      intro same
      rw [same, symbolLessThan_irrefl] at below
      cases below
    rw [Nat.compare_eq_lt.mpr before]
    simp [other, below]
  · subst here
    rw [atPosition] at stored
    simp [Option.some.inj stored]
  · have above := sortedKeys_lt distinct atPosition stored after
    have other : (sortedKeys spellings map)[position] ≠ key := by
      intro same
      rw [same, symbolLessThan_irrefl] at above
      cases above
    have notBelow : ¬symbolLessThan spellings key
        (sortedKeys spellings map)[position] = true := by
      intro below
      have loop := symbolLessThan_trans above below
      rw [symbolLessThan_irrefl] at loop
      cases loop
    rw [Nat.compare_eq_gt.mpr after]
    simp [other, notBelow]

theorem bisect_stored (distinct : Distinct symbolTest map) {i : Nat}
    {key : Name} (stored : (sortedKeys spellings map)[i]? = some key) :
    bisect (keySide spellings (sortedKeys spellings map) key)
        (map.length + 1) (-1) map.length =
      (path map.length i, some i) := by
  have inside := (List.getElem?_eq_some_iff.mp stored).1
  rw [length_sortedKeys] at inside
  have same : bisect (keySide spellings (sortedKeys spellings map) key)
      (map.length + 1) (-1) map.length =
        bisect (towards i) (map.length + 1) (-1) map.length :=
    bisect_congr (searchBounds map.length) (fun position _ below =>
      keySide_stored distinct stored (Int.ofNat_lt.mp below))
  rw [same]
  have found :
      (bisect (towards i) (map.length + 1) (-1) map.length).2 = some i :=
    found_of_side (searchBounds map.length) (fun _ _ _ => rfl)
      (by omega) (by omega) (by omega)
  exact Prod.ext rfl found

/-- A search for a stored key finds it. -/
theorem Loads.binarySearch_stored (loads : Loads spellings map table)
    (distinct : Distinct symbolTest map) {i : Nat} {key : Name}
    (stored : (sortedKeys spellings map)[i]? = some key) :
    binarySearch spellings table key =
      .ok (some i, table.remember (sortedKeys spellings map)
        (path map.length i)) := by
  unfold binarySearch
  rw [loads.size, loads.search (searchBounds map.length) (le_refl _)
    (by omega)]
  simp only [bisect_stored distinct stored]

/-- A search for a key that is not stored finds nothing. -/
theorem Loads.binarySearch_absent (loads : Loads spellings map table)
    {key : Name} (absent : lookup symbolTest key map = none) :
    binarySearch spellings table key =
      .ok (none, table.remember (sortedKeys spellings map)
        (visited spellings map key)) := by
  have nothing : (bisect (keySide spellings (sortedKeys spellings map) key)
      (map.length + 1) (-1) map.length).2 = none := by
    rw [Option.eq_none_iff_forall_ne_some]
    intro position found
    have here := side_of_found found
    unfold keySide at here
    cases stored : (sortedKeys spellings map)[position]? with
    | none => simp [stored] at here
    | some try' =>
        by_cases same : try' = key
        · subst same
          have present := mem_sortedKeys.mp (List.mem_of_getElem? stored)
          rw [absent] at present
          simp at present
        · by_cases before : symbolLessThan spellings key try' = true
          · simp [stored, same, before] at here
          · simp [stored, same, before] at here
  unfold binarySearch
  rw [loads.size, loads.search (searchBounds map.length) (le_refl _)
    (by omega)]
  simp only [nothing]
  rfl

/-! ## Elements -/

theorem element_inMemory {key : Name} {default : Option Value}
    {value : Value} (mapped : lookup symbolTest key table.data = some value) :
    element spellings table key default = .ok (.value value, table) := by
  unfold element
  rw [mapped]

theorem element_resolved {key : Name} {default : Option Value}
    (absent : lookup symbolTest key table.data = none)
    (resolved : table.resolved = true) :
    element spellings table key default =
      .ok (defaultedValue key default, table) := by
  unfold element
  simp only [absent, resolved, if_true]

theorem Loads.element_stored (loads : Loads spellings map table)
    (distinct : Distinct symbolTest map) {i : Nat} {key : Name}
    {default : Option Value} {value : Value}
    (unresolved : table.resolved = false)
    (notInMemory : lookup symbolTest key table.data = none)
    (stored : (sortedKeys spellings map)[i]? = some key)
    (mapped : lookup symbolTest key map = some value) :
    element spellings table key default =
      .ok (.value value,
        (table.remember (sortedKeys spellings map)
          (path map.length i)).setData key value) := by
  have next := loads.remember (path map.length i)
  unfold element
  simp only [notInMemory, unresolved]
  rw [loads.binarySearch_stored distinct stored]
  show (LazySymbolTable.loadValueAt _ i >>= _) = _
  rw [next.loadValueAt stored mapped]
  rfl

theorem Loads.element_absent (loads : Loads spellings map table) {key : Name}
    {default : Option Value} (unresolved : table.resolved = false)
    (notInMemory : lookup symbolTest key table.data = none)
    (absent : lookup symbolTest key map = none) :
    element spellings table key default =
      .ok (defaultedValue key default,
        table.remember (sortedKeys spellings map)
          (visited spellings map key)) := by
  unfold element
  simp only [notInMemory, unresolved]
  rw [loads.binarySearch_absent absent]
  rfl

end OpenDylan.Dood.LazySymbolTable
