import OpenDylan.Dood.LazySymbolTableResolving

/-!
# Lazily loaded tables and ordinary tables

A lazily loaded table stands for an ordinary one: what is in memory, over what
is stored as long as the table is not resolved.  Operations that see only what
is in memory, and an iteration that stores over it, answer what an ordinary
table answers under a condition on the state that they are applied to.
-/

namespace OpenDylan.Dood.LazySymbolTable

open Lib.KeyedMap Runtime.Symbols

variable {Value : Type} {spellings : Spellings}
  {map ordinary : List (Name × Value)} {table : Table Value}

/-! ## Ordinary tables -/

/-- One operation on an ordinary table. -/
def ordinaryStep (ordinary : List (Name × Value)) :
    Operation Value → Answer Value × List (Name × Value)
  | .element key default =>
      (match lookup symbolTest key ordinary with
        | some value => .value value
        | none => defaultedValue key default, ordinary)
  | .elementSetter newValue key =>
      (.value newValue, store symbolTest key newValue ordinary)
  | .removeKey key =>
      (.present (lookup symbolTest key ordinary).isSome,
        erase symbolTest key ordinary)
  | .removeAllKeys => (.done, [])
  | .size => (.count ordinary.length, ordinary)
  | .iterate => (.entries ordinary, ordinary)

/-- A sequence of operations on an ordinary table. -/
def ordinaryRun : List (Operation Value) → List (Name × Value) →
    List (Answer Value) × List (Name × Value)
  | [], ordinary => ([], ordinary)
  | operation :: operations, ordinary =>
      let first := ordinaryStep ordinary operation
      let rest := ordinaryRun operations first.2
      (first.1 :: rest.1, rest.2)

/-- Answers are the same, those of an iteration up to order. -/
def Agrees : Answer Value → Answer Value → Prop
  | .entries first, .entries second => first.Perm second
  | first, second => first = second

/-- The answers to a sequence of operations are those of an ordinary table. -/
def AsOrdinary (spellings : Spellings) (map : List (Name × Value))
    (table : Table Value) (operations : List (Operation Value)) : Prop :=
  ∃ answers last, run spellings operations table = .ok (answers, last) ∧
    List.Forall₂ Agrees answers (ordinaryRun operations map).1

/-- The ordinary table that a table stands for. -/
structure Represents (spellings : Spellings) (map : List (Name × Value))
    (table : Table Value) (ordinary : List (Name × Value)) : Prop where
  memory : Distinct symbolTest table.data
  distinct : Distinct symbolTest ordinary
  state :
    table.resolved = true ∧
        (∀ key, lookup symbolTest key ordinary =
          lookup symbolTest key table.data) ∨
      Unresolved spellings map table ∧
        ∀ key, lookup symbolTest key ordinary =
          (lookup symbolTest key table.data).or (lookup symbolTest key map)

/-- Before an operation, the table is resolved, or what the operation does not
see or stores over makes no difference to it. -/
def Allowed (spellings : Spellings) (map : List (Name × Value))
    (table : Table Value) : Operation Value → Prop
  | .element _ _ => True
  | .elementSetter _ _ => True
  | .removeKey key =>
      table.resolved = true ∨ lookup symbolTest key map = none
  | .removeAllKeys => table.resolved = true ∨ map = []
  | .size => table.resolved = true ∨
      ∀ key ∈ map.map Prod.fst,
        (lookup symbolTest key table.data).isSome = true
  | .iterate => table.resolved = true ∨ Kept spellings map table

/-- Every operation of a sequence is allowed in the state before it. -/
def AllowedRun (spellings : Spellings) (map : List (Name × Value)) :
    Table Value → List (Operation Value) → Prop
  | _, [] => True
  | table, operation :: operations =>
      Allowed spellings map table operation ∧
        ∀ answer next, step spellings table operation = .ok (answer, next) →
          AllowedRun spellings map next operations

/-! ## Single operations -/

/-- An operation answers as on the ordinary table. -/
def StepAgrees (spellings : Spellings) (map : List (Name × Value))
    (table : Table Value) (ordinary : List (Name × Value))
    (operation : Operation Value) : Prop :=
  ∃ answer next, step spellings table operation = .ok (answer, next) ∧
    Agrees answer (ordinaryStep ordinary operation).1 ∧
      Represents spellings map next (ordinaryStep ordinary operation).2

theorem Agrees.refl (answer : Answer Value) : Agrees answer answer := by
  cases answer with
  | entries entries => exact List.Perm.refl entries
  | value => rfl
  | notPresent => rfl
  | present => rfl
  | count => rfl
  | done => rfl

theorem perm_of_represented
    (memory : Distinct symbolTest table.data)
    (distinct : Distinct symbolTest ordinary)
    (same : ∀ key, lookup symbolTest key ordinary =
      lookup symbolTest key table.data) :
    table.data.Perm ordinary := by
  apply perm_of_lookup _ memory distinct
  · intro key
    exact (same key).symm
  · intro first second here
    exact same_iff.mp here

theorem lookup_eq_of_isNone {key : Name} :
    key ∉ map.map Prod.fst ↔ lookup symbolTest key map = none := by
  rw [← lookup_isSome_iff, ← Option.ne_none_iff_exists', not_not]

/-- Keeping what is in memory, a table that has loaded more stands for the
same. -/
theorem Represents.element (distinct : Distinct symbolTest map)
    (represents : Represents spellings map table ordinary) (key : Name)
    (default : Option Value) :
    StepAgrees spellings map table ordinary (.element key default) := by
  simp only [StepAgrees, step, ordinaryStep]
  cases represents.state with
  | inl resolved =>
      rw [resolved.2 key]
      cases inMemory : lookup symbolTest key table.data with
      | some value =>
          exact ⟨_, _, element_inMemory inMemory, Agrees.refl _, represents⟩
      | none =>
          exact ⟨_, _, element_resolved inMemory resolved.1, Agrees.refl _,
            represents⟩
  | inr unresolved =>
      have loads := unresolved.1
      rw [unresolved.2 key]
      cases inMemory : lookup symbolTest key table.data with
      | some value =>
          exact ⟨_, _, element_inMemory inMemory, Agrees.refl _, represents⟩
      | none =>
          cases mapped : lookup symbolTest key map with
          | none =>
              refine ⟨_, _, loads.toLoads.element_absent loads.unresolved
                inMemory mapped, Agrees.refl _, ?_⟩
              constructor
              case memory => exact represents.memory
              case distinct => exact represents.distinct
              case state =>
                  apply Or.inr
                  constructor
                  · apply loads.remember
                    · intro i member
                      exact lt_of_mem_visited member
                    · intro i member
                      exact path_subset_visited member
                  · exact unresolved.2
          | some value =>
              have member : key ∈ sortedKeys spellings map :=
                mem_sortedKeys.mpr ⟨value, mapped⟩
              obtain ⟨i, stored⟩ := List.mem_iff_getElem?.mp member
              refine ⟨_, _, loads.toLoads.element_stored distinct
                loads.unresolved inMemory stored mapped, Agrees.refl _, ?_⟩
              constructor
              case memory => exact represents.memory.store key value
              case distinct => exact represents.distinct
              case state =>
                  apply Or.inr
                  constructor
                  · apply Unresolved.setData
                    apply loads.remember
                    · intro j onPath
                      exact lt_of_mem_path onPath
                    · exact path_whole i
                  · intro wanted
                    show _ = (lookup symbolTest wanted
                      (store symbolTest key value table.data)).or _
                    rw [lookup_stored, unresolved.2 wanted]
                    by_cases same : wanted = key
                    · rw [if_pos same, same, inMemory, mapped]
                      rfl
                    · rw [if_neg same]

theorem Represents.elementSetter
    (represents : Represents spellings map table ordinary) (newValue : Value)
    (key : Name) :
    StepAgrees spellings map table ordinary
      (.elementSetter newValue key) := by
  refine ⟨_, _, rfl, rfl, ?_⟩
  constructor
  case memory => exact represents.memory.store key newValue
  case distinct => exact represents.distinct.store key newValue
  case state =>
      show _ ∧ (∀ wanted, lookup symbolTest wanted
        (store symbolTest key newValue ordinary) = lookup symbolTest wanted
          (store symbolTest key newValue table.data)) ∨
        _ ∧ ∀ wanted, lookup symbolTest wanted
          (store symbolTest key newValue ordinary) = (lookup symbolTest wanted
            (store symbolTest key newValue table.data)).or _
      cases represents.state with
      | inl resolved =>
          apply Or.inl
          constructor
          · exact resolved.1
          · intro wanted
            rw [lookup_stored, lookup_stored, resolved.2]
      | inr unresolved =>
          apply Or.inr
          constructor
          · exact unresolved.1.setData key newValue
          · intro wanted
            rw [lookup_stored, lookup_stored, unresolved.2]
            split
            · rfl
            · rfl

theorem Represents.removeKey
    (represents : Represents spellings map table ordinary) (key : Name)
    (allowed : Allowed spellings map table (.removeKey key)) :
    StepAgrees spellings map table ordinary (.removeKey key) := by
  have erased : ∀ data : List (Name × Value), ∀ wanted,
      lookup symbolTest wanted (erase symbolTest key data) =
        if wanted = key then none else lookup symbolTest wanted data := by
    intro data wanted
    rw [lookup_erase]
    simp only [same_iff]
  cases represents.state with
  | inl resolved =>
      refine ⟨_, _, rfl, ?_, ?_⟩
      · show Answer.present _ = Answer.present _
        rw [resolved.2]
      · constructor
        case memory => exact represents.memory.erase key
        case distinct => exact represents.distinct.erase key
        case state =>
            apply Or.inl
            constructor
            · exact resolved.1
            · intro wanted
              show lookup symbolTest wanted (erase symbolTest key ordinary) =
                lookup symbolTest wanted (erase symbolTest key table.data)
              rw [erased, erased, resolved.2]
  | inr unresolved =>
      have notStored : lookup symbolTest key map = none := by
        cases allowed with
        | inl resolved =>
            rw [unresolved.1.unresolved] at resolved
            cases resolved
        | inr notStored => exact notStored
      refine ⟨_, _, rfl, ?_, ?_⟩
      · show Answer.present _ = Answer.present _
        rw [unresolved.2, notStored, Option.or_none]
      · constructor
        case memory => exact represents.memory.erase key
        case distinct => exact represents.distinct.erase key
        case state =>
            apply Or.inr
            constructor
            · constructor
              case toLoads =>
                  exact unresolved.1.toLoads.of_slots unresolved.1.count
                    unresolved.1.loaded
              case distinct => exact represents.memory.erase key
              case unresolved => exact unresolved.1.unresolved
              case closed => exact unresolved.1.closed
            · intro wanted
              show lookup symbolTest wanted (erase symbolTest key ordinary) =
                (lookup symbolTest wanted
                  (erase symbolTest key table.data)).or _
              rw [erased, erased, unresolved.2]
              by_cases same : wanted = key
              · rw [if_pos same, if_pos same, same, notStored]
                rfl
              · rw [if_neg same, if_neg same]

theorem Represents.removeAllKeys
    (represents : Represents spellings map table ordinary)
    (allowed : Allowed spellings map table .removeAllKeys) :
    StepAgrees spellings map table ordinary .removeAllKeys := by
  refine ⟨_, _, rfl, rfl, ?_⟩
  constructor
  case memory => exact List.Pairwise.nil
  case distinct => exact List.Pairwise.nil
  case state =>
      cases represents.state with
      | inl resolved =>
          exact Or.inl ⟨resolved.1, fun _ => rfl⟩
      | inr unresolved =>
          have nothing : map = [] := by
            cases allowed with
            | inl resolved =>
                rw [unresolved.1.unresolved] at resolved
                cases resolved
            | inr nothing => exact nothing
          apply Or.inr
          constructor
          · constructor
            case toLoads =>
                exact unresolved.1.toLoads.of_slots unresolved.1.count
                  unresolved.1.loaded
            case distinct => exact List.Pairwise.nil
            case unresolved => exact unresolved.1.unresolved
            case closed => exact unresolved.1.closed
          · intro wanted
            rw [nothing]
            rfl

theorem Represents.size
    (represents : Represents spellings map table ordinary)
    (allowed : Allowed spellings map table .size) :
    StepAgrees spellings map table ordinary .size := by
  have same : ∀ key, lookup symbolTest key ordinary =
      lookup symbolTest key table.data := by
    intro key
    cases represents.state with
    | inl resolved => exact resolved.2 key
    | inr unresolved =>
        rw [unresolved.2]
        cases inMemory : lookup symbolTest key table.data with
        | some value => rfl
        | none =>
            rw [Option.none_or, ← lookup_eq_of_isNone]
            intro member
            cases allowed with
            | inl resolved =>
                rw [unresolved.1.unresolved] at resolved
                cases resolved
            | inr loaded =>
                have present := loaded key member
                rw [inMemory] at present
                cases present
  refine ⟨_, _, rfl, ?_, represents⟩
  show Answer.count _ = Answer.count _
  rw [(perm_of_represented represents.memory represents.distinct
    same).length_eq]

theorem Represents.iterate (distinct : Distinct symbolTest map)
    (represents : Represents spellings map table ordinary)
    (allowed : Allowed spellings map table .iterate) :
    StepAgrees spellings map table ordinary .iterate := by
  simp only [StepAgrees, step, ordinaryStep, ensureResolved]
  cases represents.state with
  | inl resolved =>
      simp only [resolved.1, if_true]
      exact ⟨_, _, rfl, perm_of_represented represents.memory
        represents.distinct resolved.2, represents⟩
  | inr unresolved =>
      have kept : Kept spellings map table := by
        cases allowed with
        | inl resolved =>
            rw [unresolved.1.unresolved] at resolved
            cases resolved
        | inr kept => exact kept
      obtain ⟨next, resolved, _, memory, values⟩ :=
        unresolved.1.resolve distinct kept
      simp only [unresolved.1.unresolved, resolved]
      have same : ∀ key, lookup symbolTest key ordinary =
          lookup symbolTest key next.data := by
        intro key
        rw [values, unresolved.2]
      refine ⟨_, _, rfl, ?_, ?_⟩
      · exact perm_of_represented memory represents.distinct same
      · constructor
        case memory => exact memory
        case distinct => exact represents.distinct
        case state => exact Or.inl ⟨rfl, same⟩

/-- An operation that is allowed answers as on the ordinary table. -/
theorem Represents.step (distinct : Distinct symbolTest map)
    (represents : Represents spellings map table ordinary)
    (operation : Operation Value)
    (allowed : Allowed spellings map table operation) :
    StepAgrees spellings map table ordinary operation := by
  cases operation with
  | element key default => exact represents.element distinct key default
  | elementSetter newValue key => exact represents.elementSetter newValue key
  | removeKey key => exact represents.removeKey key allowed
  | removeAllKeys => exact represents.removeAllKeys allowed
  | size => exact represents.size allowed
  | iterate => exact represents.iterate distinct allowed

/-! ## Runs -/

theorem Represents.run (distinct : Distinct symbolTest map)
    (represents : Represents spellings map table ordinary)
    (operations : List (Operation Value))
    (allowed : AllowedRun spellings map table operations) :
    ∃ answers last, run spellings operations table = .ok (answers, last) ∧
      List.Forall₂ Agrees answers (ordinaryRun operations ordinary).1 ∧
        Represents spellings map last
          (ordinaryRun operations ordinary).2 := by
  induction operations generalizing table ordinary with
  | nil => exact ⟨[], table, rfl, List.Forall₂.nil, represents⟩
  | cons operation operations inductionHypothesis =>
      obtain ⟨answer, next, stepped, agrees, represents⟩ :=
        represents.step distinct operation allowed.1
      obtain ⟨answers, last, ran, same, represents⟩ :=
        inductionHypothesis represents (allowed.2 answer next stepped)
      refine ⟨answer :: answers, last, ?_, List.Forall₂.cons agrees same,
        represents⟩
      unfold LazySymbolTable.run
      rw [stepped]
      show (LazySymbolTable.run spellings operations next >>= _) = _
      rw [ran]
      rfl

/-! ## Tables read from a database -/

theorem getElem?_values {keys : List Name} {i : Nat} {key : Name}
    {value : Value}
    (present : ∀ key ∈ keys, ∃ value, lookup symbolTest key map = some value)
    (stored : keys[i]? = some key)
    (mapped : lookup symbolTest key map = some value) :
    (keys.filterMap fun key => lookup symbolTest key map)[i]? =
      some value := by
  induction keys generalizing i with
  | nil => cases stored
  | cons first rest inductionHypothesis =>
      obtain ⟨item, found⟩ := present first List.mem_cons_self
      simp only [List.filterMap_cons, found]
      cases i with
      | zero =>
          rw [List.getElem?_cons_zero] at stored ⊢
          rw [Option.some.inj stored, mapped] at found
          exact found.symm
      | succ i =>
          rw [List.getElem?_cons_succ] at stored ⊢
          apply inductionHypothesis _ stored
          intro other member
          exact present other (List.mem_cons_of_mem first member)

theorem getElem?_written {dood : List (Word Value)} {address : Nat}
    (written : walkSlots spellings map <+: dood.drop address) {i : Nat}
    {word : Word Value} (slot : (walkSlots spellings map)[i]? = some word) :
    dood[address + i]? = some word := by
  obtain ⟨rest, whole⟩ := written
  rw [← List.getElem?_drop, ← whole]
  rw [List.getElem?_append_left (List.getElem?_eq_some_iff.mp slot).1]
  exact slot

/-- The table that is read where a map was written. -/
theorem readObject_represents (distinct : Distinct symbolTest map)
    {dood : List (Word Value)} {address : Nat}
    (written : walkSlots spellings map <+: dood.drop address) :
    ∃ table, readObjectUsingClassAt dood address = .ok table ∧
      Represents spellings map table map := by
  have sizeWord : dood[address + 1]? = some (.integer map.length) :=
    getElem?_written written rfl
  have keyWord : ∀ {i : Nat} {key : Name},
      (sortedKeys spellings map)[i]? = some key →
        (walkSlots spellings map)[2 + i]? = some (.key key) := by
    intro i key stored
    unfold walkSlots
    rw [List.append_assoc, List.getElem?_append_right (by simp),
      List.getElem?_append_left]
    · simp [stored]
    · have inside := (List.getElem?_eq_some_iff.mp stored).1
      simpa using inside
  have valueWord : ∀ {i : Nat} {key : Name} {value : Value},
      (sortedKeys spellings map)[i]? = some key →
        lookup symbolTest key map = some value →
          (walkSlots spellings map)[2 + (i + map.length)]? =
            some (.value value) := by
    intro i key value stored mapped
    have values := getElem?_values (fun _ member => mem_sortedKeys.mp member)
      stored mapped
    unfold walkSlots
    rw [List.getElem?_append_right (by
      simp only [List.length_append, List.length_map, length_sortedKeys,
        List.length_cons, List.length_nil]
      omega)]
    simp only [List.length_append, List.length_map, length_sortedKeys,
      List.length_cons, List.length_nil]
    have index : 2 + (i + map.length) - (0 + 1 + 1 + map.length) = i := by
      omega
    rw [index, List.getElem?_map, values]
    rfl
  unfold readObjectUsingClassAt
  rw [sizeWord]
  refine ⟨_, rfl, List.Pairwise.nil, distinct, Or.inr ⟨?_, fun _ => rfl⟩⟩
  have unloaded : ∀ {i : Nat} {key : Name},
      (List.replicate map.length (none : Option Name))[i]? ≠
        some (some key) := by
    intro i key slot
    rw [List.getElem?_replicate] at slot
    split at slot
    · cases slot
    · cases slot
  constructor
  case toLoads =>
      constructor
      case size => rfl
      case count => exact List.length_replicate
      case loaded => exact fun slot => absurd slot unloaded
      case keyAt =>
          intro i key stored
          unfold loadAt
          have word := getElem?_written written (keyWord stored)
          rw [← Nat.add_assoc] at word
          simp only [Nat.add_assoc, Nat.reduceAdd] at word ⊢
          rw [word]
      case valueAt =>
          intro i key value stored mapped
          unfold loadAt
          have word := getElem?_written written (valueWord stored mapped)
          simp only [Nat.add_assoc, Nat.reduceAdd] at word ⊢
          rw [word]
  case distinct => exact List.Pairwise.nil
  case unresolved => rfl
  case closed => exact fun slot => absurd slot unloaded

/-- A table that is read where a map was written answers what an ordinary table
with the map answers, in every run of allowed operations. -/
theorem answers_as_ordinary (spellings : Spellings)
    (map : List (Name × Value)) (distinct : Distinct symbolTest map)
    (dood : List (Word Value)) (address : Nat)
    (written : walkSlots spellings map <+: dood.drop address)
    (operations : List (Operation Value)) :
    ∃ table, readObjectUsingClassAt dood address = .ok table ∧
      (AllowedRun spellings map table operations →
        AsOrdinary spellings map table operations) := by
  obtain ⟨table, read, represents⟩ := readObject_represents distinct written
  refine ⟨table, read, fun allowed => ?_⟩
  obtain ⟨answers, last, ran, same, _⟩ :=
    represents.run distinct operations allowed
  exact ⟨answers, last, ran, same⟩

/-- A symbol that was interned in lower case. -/
def lowercaseSpellings : Spellings where
  asString name := name.lowercase
  spelled name := Name.ext_lowercase name.isLowercase

/-- A map with one key. -/
def oneEntry : List (Name × Nat) := [(asSymbol ['a'], 1)]

theorem sortedKeys_oneEntry :
    sortedKeys lowercaseSpellings oneEntry = [asSymbol ['a']] :=
  List.mergeSort_singleton _

theorem walkSlots_oneEntry :
    walkSlots lowercaseSpellings oneEntry =
      [.tableClass, .integer 1, .key (asSymbol ['a']), .value 1] := by
  unfold walkSlots
  rw [sortedKeys_oneEntry]
  rfl

/-- What `read-object-using-class-at` makes of it. -/
def oneEntryTable : Table Nat where
  data := []
  resolved := false
  address := 2
  size := 1
  loadedKeys := [none]
  doodState :=
    some [.tableClass, .integer 1, .key (asSymbol ['a']), .value 1]

theorem AllowedRun.cons {operation : Operation Value}
    {operations : List (Operation Value)} {answer : Answer Value}
    {next : Table Value} (allowed : Allowed spellings map table operation)
    (stepped : LazySymbolTable.step spellings table operation =
      .ok (answer, next))
    (rest : AllowedRun spellings map next operations) :
    AllowedRun spellings map table (operation :: operations) := by
  constructor
  · exact allowed
  · intro other after same
    rw [stepped] at same
    cases same
    exact rest

/-- Nothing comes after the only slot. -/
theorem kept_of_loaded {table : Table Nat} {key : Name}
    (loaded : table.loadedKeys = [some key]) :
    Kept lowercaseSpellings oneEntry table := by
  intro j other value stored atPosition _ _ _
  rw [sortedKeys_oneEntry] at atPosition
  cases j with
  | zero =>
      rw [loaded]
      refine ⟨⟨key, rfl⟩, fun i _ after slot => ?_⟩
      cases i with
      | zero => omega
      | succ i => cases slot
  | succ j => cases atPosition

/-- A key that is looked up first keeps the value that it is then given. -/
theorem answers_as_ordinary_oneEntry :
    AsOrdinary lowercaseSpellings oneEntry oneEntryTable
      [.element (asSymbol ['a']) none, .elementSetter 2 (asSymbol ['a']),
        .iterate, .removeKey (asSymbol ['a']), .size] := by
  obtain ⟨table, read, answers⟩ := answers_as_ordinary lowercaseSpellings
    oneEntry (List.pairwise_singleton _ _) (walkSlots lowercaseSpellings
      oneEntry) 0 (List.prefix_refl _) [.element (asSymbol ['a']) none,
        .elementSetter 2 (asSymbol ['a']), .iterate,
        .removeKey (asSymbol ['a']), .size]
  rw [walkSlots_oneEntry] at read
  have isTable : table = oneEntryTable := (Except.ok.inj read).symm
  rw [isTable] at answers
  apply answers
  apply AllowedRun.cons ?_ rfl
  · apply AllowedRun.cons ?_ rfl
    · apply AllowedRun.cons ?_ rfl
      · apply AllowedRun.cons ?_ rfl
        · exact AllowedRun.cons (Or.inl rfl) rfl trivial
        · exact Or.inl rfl
      · exact Or.inr (kept_of_loaded rfl)
    · trivial
  · trivial

theorem not_asOrdinary {operations : List (Operation Value)}
    {answers : List (Answer Value)} {last : Table Value}
    (ran : LazySymbolTable.run spellings operations table =
      .ok (answers, last))
    (differ : ¬List.Forall₂ Agrees answers (ordinaryRun operations map).1) :
    ¬AsOrdinary spellings map table operations := by
  rintro ⟨others, after, again, same⟩
  rw [ran] at again
  cases again
  exact differ same

/-- Values that are set before their keys are loaded are stored over, removed
keys come back, and keys that are not loaded are not counted. -/
theorem not_as_ordinary :
    readObjectUsingClassAt (walkSlots lowercaseSpellings oneEntry) 0 =
        .ok oneEntryTable ∧
      ¬AsOrdinary lowercaseSpellings oneEntry oneEntryTable
        [.elementSetter 2 (asSymbol ['a']), .iterate,
          .element (asSymbol ['a']) none] ∧
      ¬AsOrdinary lowercaseSpellings oneEntry oneEntryTable
        [.element (asSymbol ['a']) none, .removeKey (asSymbol ['a']),
          .element (asSymbol ['a']) (some 0)] ∧
      ¬AsOrdinary lowercaseSpellings oneEntry oneEntryTable [.size] := by
  refine ⟨?_, ?_, ?_, ?_⟩
  · rw [walkSlots_oneEntry]
    rfl
  · apply not_asOrdinary rfl
    intro same
    cases same with
    | cons _ rest =>
        cases rest with
        | cons _ rest =>
            cases rest with
            | cons last _ => cases last
  · apply not_asOrdinary rfl
    intro same
    cases same with
    | cons _ rest =>
        cases rest with
        | cons _ rest =>
            cases rest with
            | cons last _ => cases last
  · apply not_asOrdinary rfl
    intro same
    cases same with
    | cons only _ => cases only

end OpenDylan.Dood.LazySymbolTable
