import OpenDylan.Compiler.NamespaceImports

/-!
# Histories of lookups

Namespaces are made, and names are looked up in them, in any order.  A name
that is not locally defined is looked up as the import that was recorded for
it, whatever was looked up before, if the first candidate for the name is also
the last one for the exported name and the one to which the clauses lead.
-/

namespace OpenDylan.Compiler.Namespaces

open Runtime.Symbols NameFilters Lib.KeyedMap

/-! ## Agreement -/

section Agreement

variable (spellings : Spellings) (offers : Offers) (space : Space)
  (name : Name)

/-- The last candidate for an exported name, if there is one, is the first
candidate for the name. -/
def Space.ReexportsFirst : Prop :=
  lookup nameTest name (space.reexported spellings offers).reverse = none ∨
    lookup nameTest name (space.reexported spellings offers).reverse =
      lookup nameTest name (space.broughtIn spellings offers)

instance : Decidable (space.ReexportsFirst spellings offers name) :=
  inferInstanceAs (Decidable (_ ∨ _))

/-- The clauses lead from a name to the first candidate for it. -/
def Space.LeadsToFirst : Prop :=
  space.leadsTo spellings offers name =
    lookup nameTest name (space.broughtIn spellings offers)

instance : Decidable (space.LeadsToFirst spellings offers name) :=
  inferInstanceAs (Decidable (_ = _))

end Agreement

/-! ## Events -/

/-- What happens to namespaces. -/
inductive Event where
  | makeNamespace (definition : Definition)
  | lookupName (index : Nat) (name : Name) (supplied exported : Bool)

section Events

variable (spellings : Spellings) (order : Order)

/-- An event answers if it is a lookup. -/
def step (world : World) : Event → Option (Option Answer × World)
  | .makeNamespace definition => do
      let world ← world.makeNamespace spellings order definition
      pure (none, world)
  | .lookupName index name supplied exported => do
      let (answer, caches) ← lookupName spellings order world.spaces index
        name supplied exported world.caches
      pure (some answer, { world with caches := caches })

/-- What is recorded for a name: its import, but for a client only if a clause
exports it again. -/
def Space.recorded (offers : Offers) (space : Space) (name : Name)
    (exported : Bool) : Option Binding :=
  if exported ∧
      lookup nameTest name (space.reexported spellings offers) = none then
    none
  else
    lookup nameTest name space.imports

/-- The answer that an event is to give, if it is a lookup of a name that is
not locally defined. -/
def Event.expected (world : World) : Event → Option Answer
  | .makeNamespace _ => none
  | .lookupName index name supplied exported => do
      let space ← world.spaces[index]?
      match space.nameDefinition name with
      | some _ => none
      | none => some (Answer.of supplied (space.recorded spellings
          (allOffers spellings order world.spaces) name exported))

/-- The candidates for the name that is looked up agree. -/
def Event.Agrees (world : World) : Event → Prop
  | .makeNamespace _ => True
  | .lookupName index name _ exported =>
      match world.spaces[index]? with
      | none => True
      | some space =>
          space.nameDefinition name ≠ none ∨
            space.ReexportsFirst spellings
              (allOffers spellings order world.spaces) name ∧
            (exported = true ∨ space.LeadsToFirst spellings
              (allOffers spellings order world.spaces) name)

/-- The namespaces in which names are looked up have been made. -/
def InRange : Nat → List Event → Prop
  | _, [] => True
  | count, .makeNamespace _ :: events => InRange (count + 1) events
  | count, .lookupName index _ _ _ :: events =>
      index < count ∧ InRange count events

/-- All events of a history agree. -/
def AllAgree (world : World) : List Event → Prop
  | [] => True
  | event :: events =>
      event.Agrees spellings order world ∧
        match step spellings order world event with
        | none => True
        | some (_, later) => AllAgree later events

/-- The events of a history answer what they are to answer. -/
def AnswersRecorded (world : World) : List Event → Prop
  | [] => True
  | event :: events =>
      match step spellings order world event with
      | none => False
      | some (answer, later) =>
          (event.expected spellings order world = none ∨
            answer = event.expected spellings order world) ∧
          AnswersRecorded later events

instance (world : World) (event : Event) :
    Decidable (event.Agrees spellings order world) := by
  unfold Event.Agrees
  split
  · exact inferInstance
  · split
    · exact inferInstance
    · exact inferInstance

instance decidableInRange :
    (count : Nat) → (events : List Event) → Decidable (InRange count events)
  | _, [] => inferInstanceAs (Decidable True)
  | count, .makeNamespace _ :: events => decidableInRange (count + 1) events
  | count, .lookupName _ _ _ _ :: events =>
      @instDecidableAnd _ _ _ (decidableInRange count events)

instance decidableAllAgree : (world : World) → (events : List Event) →
    Decidable (AllAgree spellings order world events)
  | _, [] => inferInstanceAs (Decidable True)
  | world, event :: events =>
      @instDecidableAnd _ _ inferInstance
        (match step spellings order world event with
        | none => inferInstanceAs (Decidable True)
        | some (_, later) => decidableAllAgree later events)

instance decidableAnswersRecorded : (world : World) →
    (events : List Event) →
      Decidable (AnswersRecorded spellings order world events)
  | _, [] => inferInstanceAs (Decidable True)
  | world, event :: events => by
      unfold AnswersRecorded
      cases step spellings order world event with
      | none => exact inferInstanceAs (Decidable False)
      | some outcome =>
          exact @instDecidableAnd _ _ inferInstance
            (decidableAnswersRecorded outcome.2 events)

end Events

/-! ## Answers -/

variable {spellings : Spellings} {order : Order} {offers : Offers}
  {space : Space} {name : Name}

/-- In whichever way a name is found, it is the import. -/
theorem Found.eq_imports {value : Option Binding}
    (found : Found spellings offers space name value)
    (imports : lookup nameTest name space.imports =
      lookup nameTest name (space.broughtIn spellings offers))
    (reexports : space.ReexportsFirst spellings offers name)
    (leads : space.LeadsToFirst spellings offers name) :
    value = lookup nameTest name space.imports := by
  cases found with
  | reexported binding last =>
      rw [imports, ← last]
      cases reexports with
      | inl absent =>
          rw [last] at absent
          cases absent
      | inr first => exact first
  | imported => rfl
  | demanded =>
      rw [imports]
      exact leads

theorem lookup_reverse_eq_none {entries : Table} :
    lookup nameTest name entries.reverse = none ↔
      lookup nameTest name entries = none := by
  simp only [lookup_eq_none, List.mem_reverse]

theorem recorded_exported
    (imports : lookup nameTest name space.imports =
      lookup nameTest name (space.broughtIn spellings offers))
    (reexports : space.ReexportsFirst spellings offers name) :
    lookup nameTest name (space.reexported spellings offers).reverse =
      space.recorded spellings offers name true := by
  rw [Space.recorded]
  split
  case isTrue absent => exact lookup_reverse_eq_none.mpr absent.2
  case isFalse present =>
      rw [imports]
      cases reexports with
      | inl absent =>
          exact absurd ⟨rfl, lookup_reverse_eq_none.mp absent⟩ present
      | inr first => exact first

/-- A lookup of a name that is locally defined keeps the caches valid. -/
theorem lookupName_defined {spaces : List Space} {caches : Caches}
    {index : Nat} (wellFormed : WellFormed spellings order spaces)
    (valid : Valid spellings order spaces caches)
    (found : spaces[index]? = some space) {binding : Binding}
    (defined : space.nameDefinition name = some binding)
    (supplied exported : Bool) :
    ∃ answer later, lookupName spellings order spaces index name supplied
        exported caches = some (answer, later) ∧
      Valid spellings order spaces later := by
  rw [lookupName, found]
  simp only [Option.bind_eq_bind, Option.bind_some, defined]
  cases exported with
  | false => exact ⟨_, caches, rfl, valid⟩
  | true =>
      obtain ⟨later, isLater, after⟩ :=
        lookupExportedName_eq wellFormed valid found name
      rw [if_pos rfl, isLater]
      exact ⟨_, later, rfl, after⟩

/-- A step keeps the world sound, and answers what is recorded. -/
theorem World.Sound.step {world : World}
    (sound : world.Sound spellings order) {event : Event}
    {events : List Event} {count : Nat}
    (isCount : world.spaces.length = count)
    (range : InRange count (event :: events))
    (agrees : event.Agrees spellings order world) :
    ∃ answer later, step spellings order world event =
        some (answer, later) ∧ later.Sound spellings order ∧
      InRange later.spaces.length events ∧
      (event.expected spellings order world = none ∨
        answer = event.expected spellings order world) := by
  cases event with
  | makeNamespace definition =>
      obtain ⟨later, made, after, longer⟩ := sound.makeNamespace definition
      refine ⟨none, later, ?_, after, ?_, Or.inl rfl⟩
      · rw [Namespaces.step, made]
        rfl
      · rw [longer, isCount]
        exact range
  | lookupName index name supplied exported =>
      have known : index < world.spaces.length := by
        rw [isCount]
        exact range.1
      have found := List.getElem?_eq_getElem known
      generalize world.spaces[index] = space at found
      have imports := sound.wellFormed.imports space
        (List.mem_of_getElem? found) name
      rw [Event.Agrees, found] at agrees
      simp only [Namespaces.step, Event.expected, found, Option.bind_eq_bind,
        Option.bind_some]
      cases defined : space.nameDefinition name with
      | some binding =>
          obtain ⟨answer, caches, answered, after⟩ :=
            lookupName_defined sound.wellFormed sound.valid found defined
              supplied exported
          rw [answered]
          exact ⟨_, _, rfl, ⟨sound.wellFormed, after⟩,
            isCount.symm ▸ range.2, Or.inl rfl⟩
      | none =>
          have consistent := agrees.resolve_left (not_not_intro defined)
          cases exported with
          | true =>
              obtain ⟨caches, answered, after⟩ := lookupName_exported
                sound.wellFormed sound.valid found defined supplied
              rw [answered, recorded_exported imports consistent.1]
              exact ⟨_, _, rfl, ⟨sound.wellFormed, after⟩,
                isCount.symm ▸ range.2, Or.inr rfl⟩
          | false =>
              obtain ⟨value, caches, answered, way, after⟩ :=
                lookupName_found sound.wellFormed sound.valid found defined
                  supplied
              have leads :=
                consistent.2.resolve_left Bool.false_ne_true
              rw [answered, way.eq_imports imports consistent.1 leads]
              exact ⟨_, _, rfl, ⟨sound.wellFormed, after⟩,
                isCount.symm ▸ range.2, Or.inr rfl⟩

/-- A history whose events agree answers what is recorded. -/
theorem World.Sound.answersRecorded {world : World}
    (sound : world.Sound spellings order) (events : List Event)
    (range : InRange world.spaces.length events)
    (agree : AllAgree spellings order world events) :
    AnswersRecorded spellings order world events := by
  induction events generalizing world with
  | nil => trivial
  | cons event events inductionHypothesis =>
      obtain ⟨answer, later, stepped, after, laterRange, recorded⟩ :=
        sound.step rfl range agree.1
      have laterAgree := agree.2
      rw [stepped] at laterAgree
      rw [AnswersRecorded, stepped]
      exact ⟨recorded, inductionHypothesis after laterRange laterAgree⟩

/-- In every history of namespaces in which each lookup is of a name that is
locally defined or whose candidates agree, the names that are not locally
defined are looked up as what is recorded for them. -/
theorem lookups_as_recorded (spellings : Spellings) (order : Order)
    (events : List Event) (range : InRange 0 events)
    (agree : AllAgree spellings order .empty events) :
    AnswersRecorded spellings order .empty events :=
  World.Sound.empty.answersRecorded events range agree

/-! ## Histories that matter -/

/-- Sets and tables whose elements come in the order in which they are
listed. -/
def listedOrder : Order where
  names set := set
  entries table := table
  names_perm := List.Perm.refl
  entries_perm := List.Perm.refl

/-- `export x` -/
def exporter : Definition where
  exportClauses := [[asSymbol "x".toList]]

/-- `use first, export: all` -/
def reexporter : Definition where
  useClauses := [(0, { exportSpec := none })]

/-- `use first, export: all; use second, export: all` -/
def clashingReexporter : Definition where
  useClauses := [(0, { exportSpec := none }), (1, { exportSpec := none })]

/-- A name is looked up before and after another one is looked up for a
client. -/
theorem lookups_as_recorded_reexport :
    AnswersRecorded capitalSpellings listedOrder .empty
      [.makeNamespace exporter, .makeNamespace reexporter,
        .lookupName 1 (asSymbol "x".toList) false false,
        .lookupName 1 (asSymbol "y".toList) true true,
        .lookupName 1 (asSymbol "x".toList) false false] := by
  apply lookups_as_recorded
  · decide
  · decide

/-- Of two bindings that are exported again under one name, the first is
looked up until a client has looked up a name, and the second afterwards. -/
def clash : List Event :=
  [.makeNamespace exporter, .makeNamespace exporter,
    .makeNamespace clashingReexporter,
    .lookupName 2 (asSymbol "x".toList) false false,
    .lookupName 2 (asSymbol "y".toList) true true,
    .lookupName 2 (asSymbol "x".toList) false false]

/-- A name that is imported with a prefix is not found. -/
def prefixedName : List Event :=
  [.makeNamespace { exportClauses := [[asSymbol "bar".toList]] },
    .makeNamespace { useClauses := [(0, prefixOptions)] },
    .lookupName 1 (asSymbol "foo-bar".toList) false false]

/-- Not every history answers what is recorded. -/
theorem not_as_recorded :
    InRange 0 clash ∧ InRange 0 prefixedName ∧
      ¬AnswersRecorded capitalSpellings listedOrder .empty clash ∧
      ¬AnswersRecorded capitalSpellings listedOrder .empty prefixedName := by
  decide

end OpenDylan.Compiler.Namespaces
