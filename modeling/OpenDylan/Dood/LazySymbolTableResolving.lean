import OpenDylan.Dood.LazySymbolTableLoading

/-!
# Loading the rest of a table

The first pass over the slots forgets the keys whose values are in memory and
loads the others, the second loads the values of the keys that are left.  A key
that the first pass has forgotten comes back when the search for a later one
comes by it, and the second pass then stores over its value.
-/

namespace OpenDylan.Dood.LazySymbolTable

open Lib.KeyedMap Lib.Bisection Runtime.Symbols

variable {Value : Type} {spellings : Spellings}
  {map : List (Name × Value)} {start table : Table Value}

theorem same_iff {first second : Name} :
    symbolTest.same first second = true ↔ first = second :=
  decide_eq_true_iff

theorem lookup_stored {key wanted : Name} {value : Value}
    {data : List (Name × Value)} :
    lookup symbolTest wanted (store symbolTest key value data) =
      if wanted = key then some value else lookup symbolTest wanted data := by
  rw [lookup_store]
  simp only [same_iff]

/-! ## Tables that are not resolved -/

/-- A table that still loads from its database. -/
structure Unresolved (spellings : Spellings) (map : List (Name × Value))
    (table : Table Value) : Prop extends Loads spellings map table where
  distinct : Distinct symbolTest table.data
  unresolved : table.resolved = false
  closed : ∀ {i : Nat} {key : Name},
    table.loadedKeys[i]? = some (some key) →
      ∀ j ∈ path map.length i,
        ∃ other, table.loadedKeys[j]? = some (some other)

/-- No search of the first pass comes by a key again whose value in memory is
not the stored one. -/
def Kept (spellings : Spellings) (map : List (Name × Value))
    (table : Table Value) : Prop :=
  ∀ (j : Nat) (key : Name) (value stored : Value),
    (sortedKeys spellings map)[j]? = some key →
      lookup symbolTest key table.data = some value →
        lookup symbolTest key map = some stored → value ≠ stored →
          (∃ other, table.loadedKeys[j]? = some (some other)) ∧
            ∀ (i : Nat) (other : Name), j < i →
              table.loadedKeys[i]? = some (some other) →
                lookup symbolTest other table.data = none →
                  j ∉ path map.length i

theorem getElem?_remember {keys : List Name} {positions : List Nat} {i : Nat}
    (inside : i < table.loadedKeys.length) :
    (table.remember keys positions).loadedKeys[i]? =
      if i ∈ positions then some keys[i]? else table.loadedKeys[i]? :=
  getElem?_remembered inside

theorem getElem?_register {slot : Option Name} {i j : Nat}
    (inside : i < table.loadedKeys.length) :
    (table.registerKeyLoadedAt slot i).loadedKeys[j]? =
      if i = j then some slot else table.loadedKeys[j]? := by
  unfold Table.registerKeyLoadedAt
  rw [List.getElem?_set]
  simp only [inside, if_true]

/-- What was come by in a search that comes by the whole path to everything it
comes by stays closed. -/
theorem Unresolved.remember (table : Unresolved spellings map start)
    {positions : List Nat} (inside : ∀ i ∈ positions, i < map.length)
    (whole : ∀ i ∈ positions, path map.length i ⊆ positions) :
    Unresolved spellings map
      (start.remember (sortedKeys spellings map) positions) where
  toLoads := table.toLoads.remember positions
  distinct := table.distinct
  unresolved := table.unresolved
  closed := by
    have filled : ∀ j ∈ positions, ∃ other,
        (start.remember (sortedKeys spellings map) positions).loadedKeys[j]? =
          some (some other) := by
      intro j member
      have within : j < start.loadedKeys.length := by
        rw [table.count]
        exact inside j member
      rw [getElem?_remember within, if_pos member]
      cases table.toLoads.stored within with
      | intro other stored => exact ⟨other, by rw [stored]⟩
    intro i key slot j onPath
    have within : i < start.loadedKeys.length := by
      rw [← length_remembered (sortedKeys spellings map) positions]
      exact (List.getElem?_eq_some_iff.mp slot).1
    rw [getElem?_remember within] at slot
    by_cases member : i ∈ positions
    · exact filled j (whole i member onPath)
    · rw [if_neg member] at slot
      by_cases comeBy : j ∈ positions
      · exact filled j comeBy
      · have before := table.closed slot j onPath
        have withinJ : j < start.loadedKeys.length := by
          rw [table.count]
          exact lt_of_mem_path onPath
        rw [getElem?_remember withinJ, if_neg comeBy]
        exact before

theorem Unresolved.setData (table : Unresolved spellings map start)
    (key : Name) (value : Value) :
    Unresolved spellings map (start.setData key value) where
  toLoads := table.toLoads.setData key value
  distinct := table.distinct.store key value
  unresolved := table.unresolved
  closed := table.closed

theorem path_whole (i : Nat) :
    ∀ j ∈ path map.length i,
      path map.length j ⊆ path map.length i :=
  fun _ member => towards_subset (searchBounds map.length) member

/-! ## The first pass -/

/-- The table after the first pass over the slots before an index. -/
structure Progress (spellings : Spellings) (map : List (Name × Value))
    (start : Table Value) (i : Nat) (table : Table Value) : Prop extends
    Loads spellings map table where
  distinct : Distinct symbolTest table.data
  unresolved : table.resolved = false
  later : ∀ j, i ≤ j → table.loadedKeys[j]? = start.loadedKeys[j]?
  kept : ∀ {key : Name} {value : Value},
    lookup symbolTest key start.data = some value →
      lookup symbolTest key table.data = some value
  added : ∀ {key : Name} {value : Value},
    lookup symbolTest key start.data = none →
      lookup symbolTest key table.data = some value →
        lookup symbolTest key map = some value
  cleared : ∀ {j : Nat} {key : Name}, j < i →
    (sortedKeys spellings map)[j]? = some key →
      table.loadedKeys[j]? = some none →
        ∃ value, lookup symbolTest key table.data = some value
  filled : ∀ {j : Nat} {key : Name}, j < i →
    table.loadedKeys[j]? = some (some key) →
      start.loadedKeys[j]? = some none ∨
        ∃ (i' : Nat) (other : Name), j < i' ∧
          start.loadedKeys[i']? = some (some other) ∧
            lookup symbolTest other start.data = none ∧
              j ∈ path map.length i'

theorem Unresolved.progress (unresolved : Unresolved spellings map start) :
    Progress spellings map start 0 start where
  toLoads := unresolved.toLoads
  distinct := unresolved.distinct
  unresolved := unresolved.unresolved
  later _ _ := rfl
  kept found := found
  added absent found := by
    rw [absent] at found
    cases found
  cleared before := absurd before (Nat.not_lt_zero _)
  filled before := absurd before (Nat.not_lt_zero _)

/-- A loaded key with its value in memory is forgotten. -/
theorem Progress.forget {i : Nat} {key : Name} {value : Value}
    (progress : Progress spellings map start i table)
    (stored : (sortedKeys spellings map)[i]? = some key)
    (mapped : lookup symbolTest key table.data = some value) :
    Progress spellings map start (i + 1)
      (table.registerKeyLoadedAt none i) := by
  have inside := progress.inside stored
  constructor
  case toLoads => exact progress.toLoads.register (by simp)
  case distinct => exact progress.distinct
  case unresolved => exact progress.unresolved
  case later =>
      intro j after
      rw [getElem?_register inside, if_neg (by omega)]
      exact progress.later j (by omega)
  case kept => exact progress.kept
  case added => exact progress.added
  case cleared =>
      intro j other before atPosition slot
      rw [getElem?_register inside] at slot
      by_cases here : i = j
      · subst here
        rw [stored] at atPosition
        cases atPosition
        exact ⟨value, mapped⟩
      · rw [if_neg here] at slot
        exact progress.cleared (by omega) atPosition slot
  case filled =>
      intro j other before slot
      rw [getElem?_register inside] at slot
      by_cases here : i = j
      · rw [if_pos here] at slot
        cases slot
      · rw [if_neg here] at slot
        exact progress.filled (by omega) slot

/-- A loaded key whose value is not in memory is looked up. -/
theorem Progress.lookUp {i : Nat} {key : Name} {value : Value}
    (unresolved : Unresolved spellings map start)
    (progress : Progress spellings map start i table)
    (stored : (sortedKeys spellings map)[i]? = some key)
    (mapped : lookup symbolTest key map = some value)
    (slot : start.loadedKeys[i]? = some (some key))
    (notInMemory : lookup symbolTest key table.data = none) :
    Progress spellings map start (i + 1)
      (((table.remember (sortedKeys spellings map)
        (path map.length i)).setData key value).registerKeyLoadedAt none
          i) := by
  have inside := progress.inside stored
  have loads := (progress.toLoads.remember (path map.length i)).setData key
    value
  have insideNext : i < ((table.remember (sortedKeys spellings map)
      (path map.length i)).setData key value).loadedKeys.length := by
    rw [loads.count, ← progress.count]
    exact inside
  have notAtStart : lookup symbolTest key start.data = none := by
    rw [Option.eq_none_iff_forall_ne_some]
    intro other found
    rw [progress.kept found] at notInMemory
    cases notInMemory
  constructor
  case toLoads => exact loads.register (by simp)
  case distinct => exact progress.distinct.store key value
  case unresolved => exact progress.unresolved
  case later =>
      intro j after
      rw [getElem?_register insideNext, if_neg (by omega)]
      show (table.remember _ _).loadedKeys[j]? = _
      by_cases within : j < table.loadedKeys.length
      · rw [getElem?_remember within]
        by_cases comeBy : j ∈ path map.length i
        · rw [if_pos comeBy]
          cases unresolved.closed slot j comeBy with
          | intro other atStart =>
              rw [atStart, unresolved.loaded atStart]
        · rw [if_neg comeBy]
          exact progress.later j (by omega)
      · have outside : map.length ≤ j := by
          rw [← progress.count]
          omega
        rw [List.getElem?_eq_none, List.getElem?_eq_none]
        · rw [unresolved.count]
          exact outside
        · rw [(progress.toLoads.remember _).count]
          exact outside
  case kept =>
      intro wanted item found
      show lookup symbolTest wanted (store symbolTest key value _) = _
      rw [lookup_stored, if_neg]
      · exact progress.kept found
      · intro same
        rw [same, notAtStart] at found
        cases found
  case added =>
      intro wanted item absent found
      change lookup symbolTest wanted (store symbolTest key value _) = _
        at found
      rw [lookup_stored] at found
      by_cases same : wanted = key
      · rw [if_pos same] at found
        rw [same, mapped, found]
      · rw [if_neg same] at found
        exact progress.added absent found
  case cleared =>
      intro j other before atPosition atSlot
      show ∃ item, lookup symbolTest other (store symbolTest key value _) =
        some item
      rw [lookup_stored]
      by_cases same : other = key
      · exact ⟨value, by rw [if_pos same]⟩
      · rw [if_neg same]
        have different : i ≠ j := by
          intro here
          rw [← here, stored] at atPosition
          exact same (Option.some.inj atPosition).symm
        rw [getElem?_register insideNext, if_neg different] at atSlot
        change (table.remember _ _).loadedKeys[j]? = _ at atSlot
        rw [getElem?_remember (by omega)] at atSlot
        by_cases comeBy : j ∈ path map.length i
        · rw [if_pos comeBy, atPosition] at atSlot
          cases atSlot
        · rw [if_neg comeBy] at atSlot
          exact progress.cleared (by omega) atPosition atSlot
  case filled =>
      intro j other before atSlot
      rw [getElem?_register insideNext] at atSlot
      by_cases here : i = j
      · rw [if_pos here] at atSlot
        cases atSlot
      · rw [if_neg here] at atSlot
        change (table.remember _ _).loadedKeys[j]? = _ at atSlot
        rw [getElem?_remember (by omega)] at atSlot
        by_cases comeBy : j ∈ path map.length i
        · exact Or.inr ⟨i, key, by omega, slot, notAtStart, comeBy⟩
        · rw [if_neg comeBy] at atSlot
          exact progress.filled (by omega) atSlot

/-- A key that was not loaded is. -/
theorem Progress.fill {i : Nat} {key : Name}
    (progress : Progress spellings map start i table)
    (stored : (sortedKeys spellings map)[i]? = some key)
    (slot : start.loadedKeys[i]? = some none) :
    Progress spellings map start (i + 1)
      (table.registerKeyLoadedAt (some key) i) := by
  have inside := progress.inside stored
  constructor
  case toLoads =>
      apply progress.toLoads.register
      intro other same
      rw [stored, same]
  case distinct => exact progress.distinct
  case unresolved => exact progress.unresolved
  case later =>
      intro j after
      rw [getElem?_register inside, if_neg (by omega)]
      exact progress.later j (by omega)
  case kept => exact progress.kept
  case added => exact progress.added
  case cleared =>
      intro j other before atPosition atSlot
      rw [getElem?_register inside] at atSlot
      by_cases here : i = j
      · rw [if_pos here] at atSlot
        cases atSlot
      · rw [if_neg here] at atSlot
        exact progress.cleared (by omega) atPosition atSlot
  case filled =>
      intro j other before atSlot
      rw [getElem?_register inside] at atSlot
      by_cases here : i = j
      · subst here
        exact Or.inl slot
      · rw [if_neg here] at atSlot
        exact progress.filled (by omega) atSlot

theorem mapped_of_stored {i : Nat} {key : Name}
    (stored : (sortedKeys spellings map)[i]? = some key) :
    ∃ value, lookup symbolTest key map = some value :=
  mem_sortedKeys.mp (List.mem_of_getElem? stored)

/-- One slot of the first pass. -/
theorem Progress.step {i : Nat} (distinct : Distinct symbolTest map)
    (unresolved : Unresolved spellings map start)
    (progress : Progress spellings map start i table)
    (inside : i < map.length) :
    ∃ next, resolveKey spellings i table = .ok next ∧
      Progress spellings map start (i + 1) next := by
  have within : i < table.loadedKeys.length := by
    rw [progress.count]
    exact inside
  have same := progress.later i (le_refl i)
  obtain ⟨key, stored⟩ := progress.toLoads.stored within
  obtain ⟨value, mapped⟩ := mapped_of_stored stored
  unfold resolveKey
  cases slot : start.loadedKeys[i]? with
  | none =>
      rw [slot, List.getElem?_eq_none_iff] at same
      omega
  | some content =>
      rw [slot] at same
      rw [same]
      cases content with
      | none =>
          simp only [progress.toLoads.loadKeyAt stored]
          refine ⟨_, rfl, ?_⟩
          have filled := progress.fill stored slot
          have again : (table.remember (sortedKeys spellings map)
              [i]).registerKeyLoadedAt (some key) i =
                table.registerKeyLoadedAt (some key) i := by
            unfold Table.remember Table.registerKeyLoadedAt
            simp only [remembered, List.set_set]
          rw [again]
          exact filled
      | some other =>
          have isKey : other = key := by
            have atSlot := unresolved.loaded slot
            rw [stored] at atSlot
            exact (Option.some.inj atSlot).symm
          subst isKey
          cases inMemory : lookup symbolTest other table.data with
          | some item =>
              simp only [element_inMemory inMemory]
              exact ⟨_, rfl, progress.forget stored inMemory⟩
          | none =>
              simp only [progress.toLoads.element_stored distinct
                progress.unresolved inMemory stored mapped]
              exact ⟨_, rfl,
                progress.lookUp unresolved stored mapped slot inMemory⟩

/-- The first pass over the slots that are left. -/
theorem Progress.pass {i count : Nat} (distinct : Distinct symbolTest map)
    (unresolved : Unresolved spellings map start)
    (progress : Progress spellings map start i table)
    (left : i + count = map.length) :
    ∃ next, forSlots (resolveKey spellings) count i table = .ok next ∧
      Progress spellings map start map.length next := by
  induction count generalizing i table with
  | zero =>
      rw [Nat.add_zero] at left
      subst left
      exact ⟨table, rfl, progress⟩
  | succ count inductionHypothesis =>
      obtain ⟨next, stepped, progress⟩ :=
        progress.step distinct unresolved (by omega)
      obtain ⟨last, passed, done⟩ :=
        inductionHypothesis progress (by omega)
      refine ⟨last, ?_, done⟩
      unfold forSlots
      rw [stepped]
      exact passed

/-! ## The second pass -/

/-- The second pass over the slots that are left stores the values of the keys
in them. -/
theorem Loads.pass (loads : Loads spellings map table)
    (memory : Distinct symbolTest table.data) {i count : Nat}
    (left : i + count = map.length) :
    ∃ data, forSlots resolveValue count i table =
        .ok { table with data := data } ∧
      Distinct symbolTest data ∧
        ∀ wanted, lookup symbolTest wanted data = lookup symbolTest wanted
            map ∧ (∃ j, i ≤ j ∧
              table.loadedKeys[j]? = some (some wanted)) ∨
          lookup symbolTest wanted data =
              lookup symbolTest wanted table.data ∧
            ∀ j, i ≤ j → table.loadedKeys[j]? ≠ some (some wanted) := by
  induction count generalizing i table with
  | zero =>
      refine ⟨table.data, rfl, memory, fun wanted => Or.inr ⟨rfl, ?_⟩⟩
      intro j after slot
      have outside := (List.getElem?_eq_some_iff.mp slot).1
      rw [loads.count] at outside
      omega
  | succ count inductionHypothesis =>
      have within : i < table.loadedKeys.length := by
        rw [loads.count]
        omega
      obtain ⟨key, stored⟩ := loads.stored within
      obtain ⟨value, mapped⟩ := mapped_of_stored stored
      unfold forSlots resolveValue
      cases slot : table.loadedKeys[i]? with
      | none =>
          rw [List.getElem?_eq_none_iff] at slot
          omega
      | some content =>
          cases content with
          | none =>
              obtain ⟨data, passed, apart, values⟩ :=
                inductionHypothesis (i := i + 1) loads memory (by omega)
              refine ⟨data, passed, apart, fun wanted => ?_⟩
              cases values wanted with
              | inl left =>
                  obtain ⟨same, j, after, atSlot⟩ := left
                  exact Or.inl ⟨same, j, by omega, atSlot⟩
              | inr left =>
                  refine Or.inr ⟨left.1, fun j after => ?_⟩
                  by_cases here : i = j
                  · subst here
                    rw [slot]
                    simp
                  · exact left.2 j (by omega)
          | some other =>
              have isKey : other = key := by
                have atSlot := loads.loaded slot
                rw [stored] at atSlot
                exact (Option.some.inj atSlot).symm
              subst isKey
              obtain ⟨data, passed, apart, values⟩ :=
                inductionHypothesis (i := i + 1) (loads.setData other value)
                  (memory.store other value) (by omega)
              refine ⟨data, ?_, apart, fun wanted => ?_⟩
              · simp only [loads.loadValueAt stored mapped]
                exact passed
              · cases values wanted with
                | inl left =>
                    obtain ⟨same, j, after, atSlot⟩ := left
                    exact Or.inl ⟨same, j, by omega, atSlot⟩
                | inr left =>
                    have mappedTo := left.1
                    change lookup symbolTest wanted data =
                      lookup symbolTest wanted
                        (store symbolTest other value table.data) at mappedTo
                    rw [lookup_stored] at mappedTo
                    by_cases same : wanted = other
                    · subst same
                      rw [if_pos rfl, ← mapped] at mappedTo
                      exact Or.inl ⟨mappedTo, i, le_refl i, slot⟩
                    · rw [if_neg same] at mappedTo
                      refine Or.inr ⟨mappedTo, fun j after => ?_⟩
                      by_cases here : i = j
                      · subst here
                        rw [slot]
                        intro equal
                        exact same (Option.some.inj
                          (Option.some.inj equal)).symm
                      · exact left.2 j (by omega)

/-! ## Resolving -/

/-- A table that is resolved when no value in memory is stored over has in
memory what was there and the rest of what is stored. -/
theorem Unresolved.resolve (unresolved : Unresolved spellings map table)
    (distinct : Distinct symbolTest map)
    (kept : Kept spellings map table) :
    ∃ next, resolve spellings table = .ok next ∧
      next.resolved = false ∧ Distinct symbolTest next.data ∧
        ∀ key, lookup symbolTest key next.data =
          (lookup symbolTest key table.data).or
            (lookup symbolTest key map) := by
  obtain ⟨first, passed, progress⟩ :=
    unresolved.progress.pass distinct unresolved (Nat.zero_add map.length)
  obtain ⟨data, filled, apart, values⟩ :=
    progress.toLoads.pass progress.distinct (Nat.zero_add map.length)
  refine ⟨{ first with data := data, doodState := none, loadedKeys := [] },
    ?_, progress.unresolved, apart, ?_⟩
  · unfold LazySymbolTable.resolve
    rw [unresolved.count, passed]
    show (forSlots resolveValue first.loadedKeys.length 0 first >>= _) = _
    rw [progress.count, filled]
    rfl
  · intro key
    show lookup symbolTest key data = _
    cases values key with
    | inl left =>
        obtain ⟨same, j, _, slot⟩ := left
        have stored := progress.loaded slot
        have inside := (List.getElem?_eq_some_iff.mp slot).1
        rw [progress.count] at inside
        obtain ⟨value, mapped⟩ := mapped_of_stored stored
        rw [same, mapped]
        cases inMemory : lookup symbolTest key table.data with
        | none => rfl
        | some item =>
            by_cases isValue : item = value
            · rw [isValue]
              rfl
            · have safe := kept j key item value stored inMemory mapped isValue
              obtain ⟨other, atStart⟩ := safe.1
              cases progress.filled inside slot with
              | inl unloaded =>
                  rw [atStart] at unloaded
                  cases unloaded
              | inr comeBy =>
                  obtain ⟨i, other, after, loaded, absent, onPath⟩ := comeBy
                  exact absurd onPath (safe.2 i other after loaded absent)
    | inr left =>
        rw [left.1]
        cases inMemory : lookup symbolTest key table.data with
        | some item => exact progress.kept inMemory
        | none =>
            rw [Option.none_or]
            cases present : lookup symbolTest key first.data with
            | some item => exact (progress.added inMemory present).symm
            | none =>
                symm
                rw [Option.eq_none_iff_forall_ne_some]
                intro value mapped
                have member : key ∈ sortedKeys spellings map :=
                  mem_sortedKeys.mpr ⟨value, mapped⟩
                obtain ⟨j, stored⟩ := List.mem_iff_getElem?.mp member
                have within := progress.inside stored
                cases slot : first.loadedKeys[j]? with
                | none =>
                    rw [List.getElem?_eq_none_iff] at slot
                    omega
                | some content =>
                    cases content with
                    | none =>
                        rw [progress.count] at within
                        have found := progress.cleared within stored slot
                        rw [present] at found
                        simp at found
                    | some other =>
                        have same := progress.loaded slot
                        rw [stored] at same
                        rw [← Option.some.inj same] at slot
                        exact left.2 j (Nat.zero_le j) slot

end OpenDylan.Dood.LazySymbolTable
