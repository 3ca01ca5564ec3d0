import OpenDylan.Runtime.MethodTableUpdates
import OpenDylan.Runtime.SealedDomains

/-!
# Methods outside sealed domains

In every state that is reached by additions every method is disjoint from every
domain or comes from a library that is visible from that of the domain.  The one
addition that can break this is a replacement that keeps the old method and
records it for the library of the new one.
-/

namespace OpenDylan.Runtime.SealedDomains

open OpenDylan.Lib.Reachability OpenDylan.Runtime.Types
open OpenDylan.Runtime.TypeTerms OpenDylan.Runtime.MethodTable
open OpenDylan.Runtime.SubtypeOrder OpenDylan.Runtime.Disjointness

/-! ## Visible libraries -/

section Libraries

variable {Library : Type} {graph : LibraryGraph Library}
  {known : AllUsedLibraries Library}

/-- A library is another one, or is used by it directly or indirectly. -/
def LibraryGraph.Visible (graph : LibraryGraph Library)
    (isThisVisible fromThis : Library) : Prop :=
  Relation.ReflTransGen (fun user used => used ∈ graph.usedLibraries user)
    fromThis isThisVisible

theorem LibraryGraph.Visible.eq_of_none {isThisVisible fromThis : Library}
    (visible : graph.Visible isThisVisible fromThis)
    (none : graph.usedLibraries fromThis = []) : isThisVisible = fromThis := by
  rcases Relation.ReflTransGen.cases_head visible with same | ⟨used, isUsed, -⟩
  · exact same.symm
  · rw [none] at isUsed
    cases isUsed

/-- What is known was computed. -/
def LibraryGraph.KnownSound (graph : LibraryGraph Library)
    (known : AllUsedLibraries Library) : Prop :=
  ∀ library, known library ≠ [] → ∀ other,
    other ∈ known library ↔ graph.Visible other library

variable [DecidableEq Library]

theorem LibraryGraph.mem_computeAllUsedLibraries
    (graph : LibraryGraph Library) (isThisVisible fromThis : Library) :
    isThisVisible ∈ graph.computeAllUsedLibraries
        (graph.usedLibraries fromThis) [fromThis] ↔
      graph.Visible isThisVisible fromThis := by
  apply mem_visit_iff graph.complete
  exact List.length_filter_le _ graph.libraries

theorem libraryVisibleFrom_iff (sound : graph.KnownSound known)
    (isThisVisible fromThis : Library) :
    (graph.libraryVisibleFrom isThisVisible fromThis known).1 = true ↔
      graph.Visible isThisVisible fromThis := by
  rw [LibraryGraph.libraryVisibleFrom]
  split_ifs with same isKnown none
  · rw [same]
    simp [LibraryGraph.Visible, Relation.ReflTransGen.refl]
  · rw [decide_eq_true_eq]
    apply sound fromThis
    rintro empty
    exact isKnown (by rw [empty, List.length_nil])
  · simp only [false_iff]
    intro visible
    exact same (visible.eq_of_none (List.length_eq_zero_iff.mp none))
  · rw [decide_eq_true_eq]
    exact graph.mem_computeAllUsedLibraries isThisVisible fromThis

theorem libraryVisibleFrom_sound (sound : graph.KnownSound known)
    (isThisVisible fromThis : Library) :
    graph.KnownSound
      (graph.libraryVisibleFrom isThisVisible fromThis known).2 := by
  rw [LibraryGraph.libraryVisibleFrom]
  split_ifs
  · exact sound
  · exact sound
  · exact sound
  · intro library isKnown other
    simp only at isKnown ⊢
    by_cases same : library = fromThis
    · subst same
      rw [Function.update_self]
      exact graph.mem_computeAllUsedLibraries other library
    · rw [Function.update_of_ne same] at isKnown ⊢
      exact sound library isKnown other

end Libraries

/-! ## The table -/

section Table

variable {wordSize : Nat} {Class Object Library : Type}

/-- The library that a method is recorded for. -/
def methodLibrary (gf : GenericFunction wordSize Class Object Library)
    (i : Nat) : Library :=
  (gf.methodLibraries[i]?).getD gf.incrementalGfLibrary

theorem mem_recorded {gf : GenericFunction wordSize Class Object Library}
    {entry : Method wordSize Class Object × Library} :
    entry ∈ recorded gf ↔
      ∃ i m, gf.methods[i]? = some m ∧ entry = (m, methodLibrary gf i) := by
  have library : ∀ i, i < gf.methods.length →
      (gf.methodLibraries ++ List.replicate
        (gf.methods.length - gf.methodLibraries.length)
        gf.incrementalGfLibrary)[i]? = some (methodLibrary gf i) := by
    intro i inside
    rw [methodLibrary]
    by_cases stored : i < gf.methodLibraries.length
    · rw [List.getElem?_append_left stored, List.getElem?_eq_getElem stored,
        Option.getD_some]
    · rw [List.getElem?_append_right (by omega), List.getElem?_replicate,
        if_pos (by omega), List.getElem?_eq_none (by omega), Option.getD_none]
  rw [recorded, List.mem_iff_getElem?]
  constructor
  · rintro ⟨i, there⟩
    rw [List.getElem?_zip_eq_some] at there
    have inside := (List.getElem?_eq_some_iff.mp there.1).1
    rw [library i inside, Option.some_inj] at there
    exact ⟨i, entry.1, there.1, Prod.ext rfl there.2.symm⟩
  · rintro ⟨i, m, there, rfl⟩
    have inside := (List.getElem?_eq_some_iff.mp there).1
    exact ⟨i, List.getElem?_zip_eq_some.mpr ⟨there, library i inside⟩⟩

theorem isSealed_replaceMethod [DecidableEq Library]
    {gf : GenericFunction wordSize Class Object Library}
    (m : Method wordSize Class Object) (lib : Library) (idx : Nat) :
    (replaceMethod gf m lib idx).isSealed = gf.isSealed := by
  simp only [replaceMethod]
  split_ifs <;> rfl

end Table

section Additions

variable {wordSize : Nat} {Class Object Library : Type}
  {program : Program wordSize Class Object Library}
  {known : AllUsedLibraries Library}
  {state : State wordSize Class Object Library}

variable [DecidableEq Class] [DecidableEq Object]

/-! ## Sound states and the two checks -/

/-- A method, recorded for a library, stays out of a domain or may know it. -/
def Program.Respects (program : Program wordSize Class Object Library)
    (d : Domain wordSize Class Object Library)
    (entry : Method wordSize Class Object × Library) : Prop :=
  domainDisjoint program.graph program.classes d.types
      entry.1.specializers = some true ∨
    program.libraries.Visible entry.2 d.library

/-- What is right about a generic function with its domains. -/
structure State.Sound (program : Program wordSize Class Object Library)
    (state : State wordSize Class Object Library) : Prop where
  isOpen : state.gf.isSealed = false
  bounded : state.gf.methodLibraries.length ≤ state.gf.methods.length
  known : program.libraries.KnownSound state.known
  respects : ∀ d ∈ state.domains, ∀ entry ∈ recorded state.gf,
    program.Respects d entry

theorem newState_sound (program : Program wordSize Class Object Library)
    (library : Library) :
    (newState library : State wordSize Class Object Library).Sound program where
  isOpen := rfl
  bounded := Nat.le_refl 0
  known _ isKnown := absurd rfl isKnown
  respects d member := by cases member

/-- A sound state stays sound when more is known of libraries. -/
theorem State.Sound.with_known (sound : state.Sound program)
    (next : program.libraries.KnownSound known) :
    State.Sound program { state with known := known } :=
  ⟨sound.isOpen, sound.bounded, next, sound.respects⟩

variable [DecidableEq Library]

theorem conflicts_spec (sound : program.libraries.KnownSound known)
    (d : Domain wordSize Class Object Library)
    (m : Method wordSize Class Object) (lib : Library) :
    ((program.conflicts d m lib known).1 = some false ↔
      program.Respects d (m, lib)) ∧
    program.libraries.KnownSound (program.conflicts d m lib known).2 := by
  have visibleIff := libraryVisibleFrom_iff sound lib d.library
  have next := libraryVisibleFrom_sound sound lib d.library
  rw [Program.conflicts, Program.Respects, ← visibleIff]
  generalize program.libraries.libraryVisibleFrom lib d.library known = result
    at next
  rcases result with ⟨visible, known⟩
  cases visible with
  | true => simpa using next
  | false =>
      refine ⟨?_, next⟩
      cases domainDisjoint program.graph program.classes d.types
        m.specializers with
      | none => simp
      | some answer => cases answer <;> simp

theorem domainConflict_spec (sound : program.libraries.KnownSound known)
    (m : Method wordSize Class Object) (lib : Library)
    (domains : List (Domain wordSize Class Object Library)) :
    ((program.domainConflict m lib domains known).1 = some false ↔
      ∀ d ∈ domains, program.Respects d (m, lib)) ∧
    program.libraries.KnownSound
      (program.domainConflict m lib domains known).2 := by
  induction domains generalizing known with
  | nil => simpa [Program.domainConflict] using sound
  | cons d domains ih =>
      have test := conflicts_spec sound d m lib
      rw [Program.domainConflict]
      generalize program.conflicts d m lib known = result at test
      rcases result with ⟨_ | answer, known⟩
      · refine ⟨?_, test.2⟩
        simp only [List.forall_mem_cons, ← test.1, reduceCtorEq, false_and]
      · cases answer with
        | true =>
            refine ⟨?_, test.2⟩
            simp only [List.forall_mem_cons, ← test.1, Option.some_inj,
              Bool.true_eq_false, false_and]
        | false =>
            simp only [List.forall_mem_cons, ← test.1, true_and]
            exact ih test.2

theorem conflictingMethods_spec
    {gf : GenericFunction wordSize Class Object Library}
    {d : Domain wordSize Class Object Library}
    (sound : program.libraries.KnownSound known)
    (methods : List (Method wordSize Class Object)) (i : Nat)
    (meths : List (Method wordSize Class Object)) :
    ((program.conflictingMethods gf d methods i meths known).1 = some [] ↔
      meths = [] ∧ ∀ j m, methods[j]? = some m →
        program.Respects d (m, methodLibrary gf (i + j))) ∧
    program.libraries.KnownSound
      (program.conflictingMethods gf d methods i meths known).2 := by
  induction methods generalizing i meths known with
  | nil => simpa [Program.conflictingMethods] using sound
  | cons m methods ih =>
      have test := conflicts_spec sound d m (methodLibrary gf i)
      have split : (∀ j other, (m :: methods)[j]? = some other →
          program.Respects d (other, methodLibrary gf (i + j))) ↔
          program.Respects d (m, methodLibrary gf i) ∧
            ∀ j other, methods[j]? = some other →
              program.Respects d (other, methodLibrary gf (i + 1 + j)) := by
        constructor
        · intro all
          refine ⟨all 0 m rfl, fun j other there => ?_⟩
          rw [Nat.add_right_comm]
          exact all (j + 1) other there
        · rintro ⟨first, others⟩ j other there
          cases j with
          | zero =>
              cases there
              exact first
          | succ j =>
              have rest := others j other there
              rw [Nat.add_right_comm] at rest
              exact rest
      rw [Program.conflictingMethods, split]
      simp only [methodLibrary] at test
      generalize program.conflicts d m
        (gf.methodLibraries[i]?.getD gf.incrementalGfLibrary) known = result
        at test
      rcases result with ⟨_ | answer, known⟩
      · refine ⟨?_, test.2⟩
        simp only [reduceCtorEq, false_iff] at test ⊢
        exact fun all => test.1 all.2.1
      · cases answer with
        | true =>
            have rest := ih test.2 (i + 1) (m :: meths)
            refine ⟨?_, rest.2⟩
            rw [rest.1]
            simp only [reduceCtorEq, false_and, false_iff, Option.some_inj,
              Bool.true_eq_false] at test ⊢
            exact fun all => test.1 all.2.1
        | false =>
            have rest := ih test.2 (i + 1) meths
            refine ⟨?_, rest.2⟩
            rw [rest.1, methodLibrary, ← test.1]
            simp only [true_and]

/-! ## Allowed additions -/

/-- Where a replacement keeps the old method, which it then records for the
library of the new one, the old method is disjoint from the domains that the new
one is disjoint from. -/
def Program.Allowed (program : Program wordSize Class Object Library)
    (state : State wordSize Class Object Library) :
    Addition wordSize Class Object Library → Prop
  | .method m lib _ _ =>
      ∀ old idx, locateMethod program.graph.toUniverse m.specializers
          state.gf.methods 0 = some (some (old, idx)) →
        forgets state.gf old m lib idx = true → ∀ d ∈ state.domains,
          domainDisjoint program.graph program.classes d.types m.specializers =
            some true →
          domainDisjoint program.graph program.classes d.types
            old.specializers = some true
  | .domains _ => True

/-- Every addition of a run is allowed where it happens. -/
def Program.AllowedRun (program : Program wordSize Class Object Library)
    (state : State wordSize Class Object Library) :
    List (Addition wordSize Class Object Library) → Prop
  | [] => True
  | addition :: additions =>
      program.Allowed state addition ∧
        program.AllowedRun (program.step state addition) additions

/-! ## Adding a method -/

/-- In the forgetful branch the library of the old method changes. -/
theorem recorded_replaceMethod_of_forgets
    {gf : GenericFunction wordSize Class Object Library}
    (bounded : gf.methodLibraries.length ≤ gf.methods.length)
    {before after : List (Method wordSize Class Object × Library)}
    {old : Method wordSize Class Object × Library}
    {m : Method wordSize Class Object} {lib : Library} {idx : Nat}
    (position : At gf before old after idx)
    (forgotten : forgets gf old.1 m lib idx = true)
    {entry : Method wordSize Class Object × Library}
    (member : entry ∈ recorded (replaceMethod gf m lib idx)) :
    entry ∈ recorded gf ∨ entry = (old.1, lib) := by
  have names := recorded_map_fst bounded
  have same := methods_replaceMethod_of_forgets forgotten
  rw [mem_recorded] at member ⊢
  obtain ⟨i, other, there, rfl⟩ := member
  rw [same] at there
  have forgotten' := forgotten
  simp only [forgets, Bool.and_eq_true, decide_eq_true_eq] at forgotten'
  obtain ⟨⟨index, foreign⟩, -⟩ := forgotten'
  have libraries : (replaceMethod gf m lib idx).methodLibraries =
      gf.methodLibraries ++ [lib] := by
    simp [replaceMethod, index, foreign]
  have own : (replaceMethod gf m lib idx).incrementalGfLibrary =
      gf.incrementalGfLibrary := by
    simp [replaceMethod, index, foreign]
  by_cases here : i = idx
  · right
    rw [position.entries] at names
    rw [← names, here, ← position.index, List.map_append, List.map_cons,
      List.getElem?_append_right (by simp), List.length_map, Nat.sub_self,
      List.getElem?_cons_zero, Option.some_inj] at there
    rw [methodLibrary, libraries, here, index,
      List.getElem?_append_right (Nat.le_refl _), Nat.sub_self, there]
    rfl
  · left
    refine ⟨i, other, there, ?_⟩
    rw [methodLibrary, methodLibrary, libraries, own]
    by_cases stored : i < gf.methodLibraries.length
    · rw [List.getElem?_append_left stored]
    · have past : gf.methodLibraries.length < i := by omega
      rw [List.getElem?_eq_none (by simp; omega),
        List.getElem?_eq_none (by omega)]

/-- A method that respects all domains is added to a sound state. -/
theorem State.Sound.addMethodInternal (sound : state.Sound program)
    {m : Method wordSize Class Object} {lib : Library} {checks : Checks}
    {typeComplete congruent : Bool}
    (allowed : program.Allowed state (.method m lib typeComplete congruent))
    (outside : ∀ d ∈ state.domains, program.Respects d (m, lib)) :
    State.Sound program
      { state with
        gf := MethodTable.step program.graph.toUniverse state.gf
          (.addMethod m lib checks) } := by
  by_cases accepted : accepts program.graph.toUniverse state.gf m lib checks =
      true
  · rcases step_addMethod_of_accepts accepted with
      ⟨-, next⟩ | ⟨old, idx, found, next⟩
    · have reads := reads_addMethodAndLibrary sound.bounded m lib
      rw [next]
      refine ⟨sound.isOpen, reads.bounded, sound.known, ?_⟩
      intro d isDomain entry member
      rcases List.mem_cons.mp (reads.perm.subset member) with rfl | member
      · exact outside d isDomain
      · exact sound.respects d isDomain entry member
    · obtain ⟨front, back, shape, index, -⟩ := locateMethod_spec _ found
      obtain ⟨before, library, after, position, -, -⟩ :=
        exists_at sound.bounded shape
      rw [Nat.zero_add] at index
      subst index
      rw [next]
      by_cases forgotten : forgets state.gf old m lib front.length = true
      · refine ⟨?_, bounded_replaceMethod_of_forgets sound.bounded position
          forgotten, sound.known, ?_⟩
        · rw [← sound.isOpen]
          exact isSealed_replaceMethod m lib front.length
        · intro d isDomain entry member
          rcases recorded_replaceMethod_of_forgets sound.bounded position
            forgotten member with member | rfl
          · exact sound.respects d isDomain entry member
          · exact (outside d isDomain).imp
              (allowed old front.length found forgotten d isDomain) id
      · rw [Bool.not_eq_true] at forgotten
        have reads := reads_replaceMethod sound.bounded position forgotten
        refine ⟨?_, reads.bounded, sound.known, ?_⟩
        · rw [← sound.isOpen]
          exact isSealed_replaceMethod m lib front.length
        · intro d isDomain entry member
          rcases List.mem_cons.mp (reads.perm.subset member) with rfl | member
          · exact outside d isDomain
          · apply sound.respects d isDomain
            rw [position.entries]
            rcases List.mem_append.mp member with early | late
            · exact List.mem_append_left _ early
            · exact List.mem_append_right _ (List.mem_cons_of_mem _ late)
  · rw [Bool.not_eq_true] at accepted
    rw [step_addMethod_of_not_accepts accepted]
    exact sound

theorem addMethod_sound (sound : state.Sound program)
    {m : Method wordSize Class Object} {lib : Library}
    {typeComplete congruent : Bool}
    (allowed : program.Allowed state (.method m lib typeComplete congruent)) :
    (program.addMethod m lib typeComplete congruent state).2.Sound program := by
  have check := domainConflict_spec sound.known m lib state.domains
  rw [Program.addMethod, sound.isOpen]
  simp only [Bool.false_eq_true, if_false]
  generalize program.domainConflict m lib state.domains state.known = result
    at check
  rcases result with ⟨_ | conflict, known⟩
  · exact sound.with_known check.2
  · have next : ∀ checks : Checks, checks.domainConflictError = conflict →
        checks.checkSealing = true →
        State.Sound program
          { state with
            gf := MethodTable.step program.graph.toUniverse state.gf
              (.addMethod m lib checks) } := by
      intro checks isConflict checked
      cases conflict with
      | false => exact sound.addMethodInternal allowed (check.1.mp rfl)
      | true =>
          have refused : accepts program.graph.toUniverse state.gf m lib checks =
              false := by
            simp [accepts, methodNotFrobbable, sound.isOpen, isConflict, checked]
          rw [step_addMethod_of_not_accepts refused]
          exact sound
    have stepped := next
      { checkSealing := true, domainConflictError := conflict
        typeComplete := typeComplete, congruent := congruent } rfl rfl
    simp only
    rw [MethodTable.step] at stepped
    cases added : MethodTable.addMethodInternal program.graph.toUniverse
      state.gf m lib
      { checkSealing := true, domainConflictError := conflict
        typeComplete := typeComplete, congruent := congruent } with
    | none => exact sound.with_known check.2
    | some gf =>
        rw [added, Option.getD_some] at stepped
        exact stepped.with_known check.2

/-- A method that does not respect a domain is refused, and nothing changes. -/
theorem addMethod_refused (sound : state.Sound program)
    {m : Method wordSize Class Object} {lib : Library}
    {d : Domain wordSize Class Object Library} (isDomain : d ∈ state.domains)
    (breaks : ¬program.Respects d (m, lib)) (typeComplete congruent : Bool) :
    (program.addMethod m lib typeComplete congruent state).1.isError = true ∧
      (program.addMethod m lib typeComplete congruent state).2.gf = state.gf ∧
      (program.addMethod m lib typeComplete congruent state).2.domains =
        state.domains := by
  have check := domainConflict_spec sound.known m lib state.domains
  rw [Program.addMethod, sound.isOpen]
  simp only [Bool.false_eq_true, if_false]
  generalize program.domainConflict m lib state.domains state.known = result
    at check
  rcases result with ⟨_ | conflict, known⟩
  · exact ⟨rfl, rfl, rfl⟩
  · cases conflict with
    | false => exact absurd (check.1.mp rfl d isDomain) breaks
    | true =>
        simp [MethodTable.addMethodInternal, methodNotFrobbable, sound.isOpen,
          Outcome.isError]

/-! ## Adding domains -/

theorem mem_addDomainUnconditionally {world : Universe wordSize Class Object}
    {domains later : List (Domain wordSize Class Object Library)}
    {d : Domain wordSize Class Object Library}
    (added : addDomainUnconditionally world domains d = some later)
    {other : Domain wordSize Class Object Library} (member : other ∈ later) :
    other = d ∨ other ∈ domains := by
  rw [addDomainUnconditionally] at added
  split at added
  · cases added
  · cases added
    exact (List.mem_or_eq_of_mem_set member).symm
  · cases added
    rw [List.mem_append, List.mem_singleton] at member
    exact member.symm

theorem conflictingMethods_nil_iff (sound : state.Sound program)
    (d : Domain wordSize Class Object Library) :
    (program.conflictingMethods state.gf d state.gf.methods 0 []
        state.known).1 = some [] ↔
      ∀ entry ∈ recorded state.gf, program.Respects d entry := by
  rw [(conflictingMethods_spec sound.known state.gf.methods 0 []).1]
  simp only [Nat.zero_add, true_and]
  constructor
  · intro all entry member
    obtain ⟨i, m, there, rfl⟩ := mem_recorded.mp member
    exact all i m there
  · intro all i m there
    exact all _ (mem_recorded.mpr ⟨i, m, there, rfl⟩)

theorem addDomain_sound (sound : state.Sound program)
    (d : Domain wordSize Class Object Library) (typeComplete : Bool) :
    (program.addDomain d typeComplete state).2.Sound program := by
  have check := conflictingMethods_nil_iff sound d
  have next := (@conflictingMethods_spec wordSize Class Object Library program
    state.known _ _ _ state.gf d sound.known state.gf.methods 0 []).2
  rw [Program.addDomain, sound.isOpen]
  simp only [Bool.false_eq_true, if_false]
  cases typeComplete with
  | false => exact sound
  | true =>
      simp only [if_true]
      generalize program.conflictingMethods state.gf d state.gf.methods 0 []
        state.known = result at check next
      rcases result with ⟨_ | meths, known⟩
      · exact sound.with_known next
      · cases meths with
        | cons m meths => exact sound.with_known next
        | nil =>
            simp only
            split
            · exact sound.with_known next
            · next later added =>
                refine ⟨sound.isOpen, sound.bounded, next, ?_⟩
                intro other member entry isEntry
                rcases mem_addDomainUnconditionally added member with
                  rfl | member
                · exact check.mp rfl entry isEntry
                · exact sound.respects other member entry isEntry

/-- A domain that a method does not respect is refused, and nothing changes. -/
theorem addDomain_refused (sound : state.Sound program)
    {d : Domain wordSize Class Object Library}
    {entry : Method wordSize Class Object × Library}
    (member : entry ∈ recorded state.gf)
    (breaks : ¬program.Respects d entry) :
    (program.addDomain d true state).1.isError = true ∧
      (program.addDomain d true state).2.gf = state.gf ∧
      (program.addDomain d true state).2.domains = state.domains := by
  have check := conflictingMethods_nil_iff sound d
  rw [Program.addDomain, sound.isOpen]
  simp only [Bool.false_eq_true, if_false, if_true]
  generalize program.conflictingMethods state.gf d state.gf.methods 0 []
    state.known = result at check
  rcases result with ⟨_ | meths, known⟩
  · exact ⟨rfl, rfl, rfl⟩
  · cases meths with
    | cons m meths => exact ⟨rfl, rfl, rfl⟩
    | nil => exact absurd (check.mp rfl entry member) breaks

theorem addDomainsInternal_sound
    (domains : List (Domain wordSize Class Object Library × Bool))
    (lossage : List (Domain wordSize Class Object Library))
    {state : State wordSize Class Object Library}
    (sound : state.Sound program) :
    (program.addDomainsInternal domains lossage state).2.Sound program := by
  induction domains generalizing lossage state with
  | nil => exact sound
  | cons domain domains ih =>
      have next := addDomain_sound sound domain.1 domain.2
      rw [Program.addDomainsInternal]
      generalize program.addDomain domain.1 domain.2 state = result at next
      rcases result with ⟨outcome, later⟩
      cases outcome with
      | done => exact ih lossage next
      | refused => exact ih (domain.1 :: lossage) next
      | postponed => exact ih lossage next
      | failed => exact next

/-! ## Runs -/

theorem groundedDisjointTypes_eq (graph : ClassGraph wordSize Class Object)
    (classes : ClassState Class) (type1 type2 : DylanType wordSize Class Object) :
    groundedDisjointTypes graph classes type1 type2 =
      graph.disjointTypes classes (.ofDylanType type1)
        (.ofDylanType type2) := by
  cases type1 <;> cases type2 <;>
    simp [groundedDisjointTypes, RuntimeType.ofDylanType,
      ClassGraph.disjointTypes]

theorem exists_of_domainDisjoint {graph : ClassGraph wordSize Class Object}
    {classes : ClassState Class}
    {types1 types2 : List (DylanType wordSize Class Object)}
    (disjoint : domainDisjoint graph classes types1 types2 = some true) :
    ∃ pair ∈ types1.zip types2, graph.disjointTypes classes
      (.ofDylanType pair.1) (.ofDylanType pair.2) = some true := by
  induction types1 generalizing types2 with
  | nil => simp [domainDisjoint] at disjoint
  | cons type1 types1 ih =>
      cases types2 with
      | nil => simp [domainDisjoint] at disjoint
      | cons type2 types2 =>
          rw [domainDisjoint, groundedDisjointTypes_eq] at disjoint
          cases answer : graph.disjointTypes classes (.ofDylanType type1)
            (.ofDylanType type2) with
          | none => simp [answer, eitherOf] at disjoint
          | some here =>
              cases here with
              | true => exact ⟨(type1, type2), List.mem_cons_self, answer⟩
              | false =>
                  rw [answer] at disjoint
                  obtain ⟨pair, member, apart⟩ := ih disjoint
                  exact ⟨pair, List.mem_cons_of_mem _ member, apart⟩

theorem step_sound (sound : state.Sound program)
    {addition : Addition wordSize Class Object Library}
    (allowed : program.Allowed state addition) :
    (program.step state addition).Sound program := by
  cases addition with
  | method m lib typeComplete congruent => exact addMethod_sound sound allowed
  | domains domains => exact addDomainsInternal_sound domains [] sound

theorem run_sound (additions : List (Addition wordSize Class Object Library))
    {state : State wordSize Class Object Library} (sound : state.Sound program)
    (allowed : program.AllowedRun state additions) :
    (program.run state additions).Sound program := by
  induction additions generalizing state with
  | nil => exact sound
  | cons addition additions ih =>
      exact ih (step_sound sound allowed.1) allowed.2

/-- After every run of allowed additions visibility is the closure of the used
libraries, every recorded method is disjoint from every recorded domain in some
position or comes from a library that the domain knows, and an addition of a
method or a domain that would break this signals an error and changes neither
methods nor domains. -/
theorem sealed_domains_respected
    (program : Program wordSize Class Object Library) (library : Library)
    (additions : List (Addition wordSize Class Object Library))
    (allowed : program.AllowedRun (newState library) additions)
    (state : State wordSize Class Object Library)
    (reached : program.run (newState library) additions = state) :
    (∀ isThisVisible fromThis,
      (program.libraries.libraryVisibleFrom isThisVisible fromThis
          state.known).1 = true ↔
        Relation.ReflTransGen
          (fun user used => used ∈ program.libraries.usedLibraries user)
          fromThis isThisVisible) ∧
    (∀ d ∈ state.domains, ∀ entry ∈ recorded state.gf,
      (∃ pair ∈ d.types.zip entry.1.specializers,
        program.graph.disjointTypes program.classes (.ofDylanType pair.1)
          (.ofDylanType pair.2) = some true) ∨
      program.libraries.Visible entry.2 d.library) ∧
    (∀ m lib typeComplete congruent,
      (∃ d ∈ state.domains, ¬program.Respects d (m, lib)) →
        (program.addMethod m lib typeComplete congruent state).1.isError =
            true ∧
          (program.addMethod m lib typeComplete congruent state).2.gf =
            state.gf ∧
          (program.addMethod m lib typeComplete congruent state).2.domains =
            state.domains) ∧
    ∀ d, (∃ entry ∈ recorded state.gf, ¬program.Respects d entry) →
      (program.addDomain d true state).1.isError = true ∧
        (program.addDomain d true state).2.gf = state.gf ∧
        (program.addDomain d true state).2.domains = state.domains := by
  have sound := run_sound additions (newState_sound program library) allowed
  rw [reached] at sound
  refine ⟨libraryVisibleFrom_iff sound.known, ?_, ?_, ?_⟩
  · intro d isDomain entry member
    exact (sound.respects d isDomain entry member).imp exists_of_domainDisjoint
      id
  · rintro m lib typeComplete congruent ⟨d, isDomain, breaks⟩
    exact addMethod_refused sound isDomain breaks typeComplete congruent
  · rintro d ⟨entry, member, breaks⟩
    exact addDomain_refused sound member breaks

end Additions

/-! ## Three libraries -/

/-- `<object>`, `<class>` and others, with these classes as objects. -/
def metaGraph : ClassGraph 64 (Fin 4) (Fin 4) :=
  { classUniverse with
    isPrimary := fun _ => false
    head := by decide
    ordered := by decide
    integers := by decide }

/-- The library of the generic function, which the two others use. -/
def threeLibraries : LibraryGraph (Fin 3) where
  libraries := [0, 1, 2]
  complete := by decide
  usedLibraries library := if library = 0 then [] else [0]

def threeLibrariesProgram : Program 64 (Fin 4) (Fin 4) (Fin 3) where
  graph := metaGraph
  classes := { classes := [3, 2, 1, 0], knownJoint := fun _ => [] }
  libraries := threeLibraries

/-- A method on the type-union of `<class>` and `subclass(<class>)`. -/
def unionMethod (identity : Nat) : Method 64 (Fin 4) (Fin 4) :=
  { identity := identity, specializers := [.union (.class 1) (.subclass 1)] }

/-- A method on `subclass(<class>)`. -/
def subclassMethod : Method 64 (Fin 4) (Fin 4) :=
  { identity := 2, specializers := [.subclass 1] }

/-- The domain over the class `<object>`, from a library. -/
def objectDomain : Domain 64 (Fin 4) (Fin 4) (Fin 3) :=
  .standalone 2 [.singleton 0]

/-- The generic function with a method on the union, from its own library, and
the domain. -/
def stateWith (identity : Nat) (methodLibraries : List (Fin 3)) :
    State 64 (Fin 4) (Fin 4) (Fin 3) :=
  { gf :=
      { makeGenericFunction 0 false with
        methods := [unionMethod identity]
        methodLibraries := methodLibraries }
    domains := [objectDomain]
    known := Function.update (fun _ => []) 2 [0, 2] }

theorem not_disjoint_unionMethod (identity : Nat) :
    domainDisjoint metaGraph threeLibrariesProgram.classes objectDomain.types
      (unionMethod identity).specializers = some false := by
  simp [objectDomain, Domain.types, unionMethod, domainDisjoint,
    groundedDisjointTypes, RuntimeType.ofDylanType, ClassGraph.disjointTypes,
    ClassGraph.disjointTypes1, ClassGraph.hasInstances, metaGraph,
    classUniverse, Universe.isSubclass, CollectionUniverse.classOf, bothOf,
    eitherOf]

theorem disjoint_subclassMethod :
    domainDisjoint metaGraph threeLibrariesProgram.classes objectDomain.types
      subclassMethod.specializers = some true := by
  simp [objectDomain, Domain.types, subclassMethod, domainDisjoint,
    groundedDisjointTypes, RuntimeType.ofDylanType, ClassGraph.disjointTypes,
    ClassGraph.disjointTypes1, ClassGraph.disjointByDefault, metaGraph,
    classUniverse, Universe.isSubclass, CollectionUniverse.classValue, bothOf,
    eitherOf, CollectionUniverse.subtype, CollectionUniverse.isInstance]

theorem not_visible : ¬threeLibraries.Visible 1 2 := by
  have sound : threeLibraries.KnownSound fun _ => [] :=
    fun _ isKnown => absurd rfl isKnown
  rw [← libraryVisibleFrom_iff sound]
  decide

/-- A method on the union from the third library is refused. -/
theorem sealed_domains_respected_refuses :
    (threeLibrariesProgram.addMethod (unionMethod 1) 1 true true
        (stateWith 0 [0])).1.isError = true ∧
      (threeLibrariesProgram.addMethod (unionMethod 1) 1 true true
        (stateWith 0 [0])).2.gf = (stateWith 0 [0]).gf ∧
      (threeLibrariesProgram.addMethod (unionMethod 1) 1 true true
        (stateWith 0 [0])).2.domains = [objectDomain] := by
  apply (sealed_domains_respected threeLibrariesProgram 0
    [.method (unionMethod 0) 0 true true, .domains [(objectDomain, true)]]
    _ (stateWith 0 [0]) rfl).2.2.1
  · refine ⟨objectDomain, List.mem_singleton_self _, ?_⟩
    rintro (disjoint | visible)
    · have answer : some false = some true :=
        (not_disjoint_unionMethod 1).symm.trans disjoint
      cases answer
    · exact not_visible visible
  · refine ⟨?_, trivial, trivial⟩
    rintro old idx found
    cases found

theorem conflicts_subclassMethod (known : AllUsedLibraries (Fin 3))
    (isKnown : known 2 = [0, 2]) :
    threeLibrariesProgram.conflicts objectDomain subclassMethod 1 known =
      (some false, known) := by
  have visible : threeLibraries.libraryVisibleFrom 1 2 known =
      (false, known) := by
    simp [LibraryGraph.libraryVisibleFrom, isKnown]
  have disjoint := disjoint_subclassMethod
  simp only [threeLibrariesProgram] at disjoint
  simp only [Program.conflicts, threeLibrariesProgram]
  rw [show objectDomain.library = 2 from rfl, visible]
  simp only [disjoint, Option.map_some, Bool.not_true]

/-- A method from the third library has the same specializer as the one on the
union, but is disjoint from the domain; it leaves the old method in the table
with the third library. -/
theorem sealed_domains_respected_fails :
    threeLibrariesProgram.run (newState 0)
        [.method (unionMethod 0) 0 true true,
          .method (unionMethod 1) 0 true true,
          .domains [(objectDomain, true)],
          .method subclassMethod 1 true true] = stateWith 1 [1] ∧
      (unionMethod 1, 1) ∈ recorded (stateWith 1 [1]).gf ∧
      domainDisjoint metaGraph threeLibrariesProgram.classes
        objectDomain.types (unionMethod 1).specializers = some false ∧
      ¬threeLibraries.Visible 1 objectDomain.library := by
  refine ⟨?_, List.mem_singleton_self _, not_disjoint_unionMethod 1,
    not_visible⟩
  have reached : threeLibrariesProgram.run (newState 0)
      [.method (unionMethod 0) 0 true true,
        .method (unionMethod 1) 0 true true,
        .domains [(objectDomain, true)]] = stateWith 1 [] := rfl
  calc
    _ = threeLibrariesProgram.step (stateWith 1 [])
          (.method subclassMethod 1 true true) := by
      rw [← reached]
      rfl
    _ = stateWith 1 [1] := by
      have open_ : (stateWith 1 []).gf.isSealed = false := rfl
      have domains : (stateWith 1 []).domains = [objectDomain] := rfl
      simp only [Program.step, Program.addMethod, open_, domains,
        Program.domainConflict, Bool.false_eq_true, if_false,
        conflicts_subclassMethod (stateWith 1 []).known rfl]
      rfl

end OpenDylan.Runtime.SealedDomains
