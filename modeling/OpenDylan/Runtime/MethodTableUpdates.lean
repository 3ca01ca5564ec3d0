import OpenDylan.Runtime.MethodTableInvariant

/-!
# Method-table updates along runs

One step keeps the table in agreement with the specification exactly when it
is `aligned`; from this every run of aligned steps does.
-/

namespace OpenDylan.Runtime.MethodTable

open OpenDylan.Runtime.Types

variable {wordSize : Nat} {Class Object Library : Type}

/-! ## Entries of the table -/

/-- The located method as an entry of the table. -/
theorem exists_at {g : GenericFunction wordSize Class Object Library}
    (bounded : g.methodLibraries.length ≤ g.methods.length)
    {front back : List (Method wordSize Class Object)}
    {old : Method wordSize Class Object}
    (shape : g.methods = front ++ old :: back) :
    ∃ before library after,
      At g before (old, library) after front.length ∧
        before.map Prod.fst = front ∧ after.map Prod.fst = back := by
  have names := recorded_map_fst bounded
  rw [shape] at names
  obtain ⟨before, rest, entries, first, second⟩ :=
    List.map_eq_append_iff.mp names
  obtain ⟨entry, after, rfl, head, tail⟩ := List.map_eq_cons_iff.mp second
  refine ⟨before, entry.2, after, ⟨?_, ?_⟩, first, tail⟩
  · rw [entries, ← head]
  · rw [← first, List.length_map]

theorem countP_recorded {g : GenericFunction wordSize Class Object Library}
    (bounded : g.methodLibraries.length ≤ g.methods.length)
    (test : Method wordSize Class Object → Bool) :
    (recorded g).countP (fun entry => test entry.1) =
      g.methods.countP test := by
  rw [← recorded_map_fst bounded, List.countP_map]
  rfl

@[simp]
theorem recorded_finalizeGenericFunction
    (g : GenericFunction wordSize Class Object Library) :
    recorded (finalizeGenericFunction g) = recorded g :=
  rfl

theorem removeMethodInternal_cases
    [DecidableEq Library] (g : GenericFunction wordSize Class Object Library)
    (test : Method wordSize Class Object → Bool) (lib : Library)
    (checks : Checks) :
    removeMethodInternal g test lib checks = (none, g) ∨
    ∃ front m back, g.methods = front ++ m :: back ∧
      removeMethodInternal g test lib checks =
        (some m, withoutMethodAt g front.length) := by
  simp only [removeMethodInternal]
  split
  · exact Or.inl rfl
  · rcases removeMethodAt_spec test g g.methods 0 with
      unchanged | ⟨front, m, back, shape, result⟩
    · exact Or.inl unchanged
    · refine Or.inr ⟨front, m, back, shape, ?_⟩
      simpa only [Nat.zero_add] using result

theorem Reads.specializers_perm
    {g : GenericFunction wordSize Class Object Library}
    {live : List (Method wordSize Class Object × Library)}
    (reads : Reads g live) :
    (g.methods.map Method.specializers).Perm
      (live.map (fun entry => entry.1.specializers)) := by
  rw [← recorded_map_fst reads.bounded, List.map_map]
  exact reads.perm.map _

section Caches

variable [DecidableEq Class] [DecidableEq Object]

/-! ## The caches -/

theorem allReset_finalizeGenericFunction
    (g : GenericFunction wordSize Class Object Library) :
    allReset (finalizeGenericFunction g) = true := by
  simp only [allReset, finalizeGenericFunction, decacheGf, decide_true,
    Bool.true_and, List.all_map, List.all_eq_true, Function.comp_apply]
  intro user _
  cases user <;> simp

theorem enginesWithin_of_allReset
    {g : GenericFunction wordSize Class Object Library}
    (reset : allReset g = true) : EnginesWithin g := by
  simp only [allReset, Bool.and_eq_true, decide_eq_true_eq,
    List.all_eq_true, Bool.or_eq_true] at reset
  constructor
  · simp [reset.1, Engine.methods]
  · intro engine member
    rcases reset.2 _ member with unused | absent
    · exact absurd unused (by simp)
    · cases absent
      simp [Engine.methods]

/-! ## Replaced entries -/

/-- The specification of an addition has one entry for its specializers. -/
theorem countP_added (world : Universe wordSize Class Object)
    (live : List (Method wordSize Class Object × Library))
    (m : Method wordSize Class Object) (lib : Library) :
    (live.filter (fun entry => !replaces world m entry.1) ++
      [(m, lib)]).countP (fun entry => replaces world m entry.1) = 1 := by
  have none : (live.filter (fun entry => !replaces world m entry.1)).countP
      (fun entry => replaces world m entry.1) = 0 := by
    rw [List.countP_eq_zero]
    intro entry member
    have kept := (List.mem_filter.mp member).2
    simpa using kept
  rw [List.countP_append, none]
  simp

/-- Removing every replaced entry leaves the entries around the only one. -/
theorem filter_replaces_perm {world : Universe wordSize Class Object}
    {g : GenericFunction wordSize Class Object Library}
    {live before after : List (Method wordSize Class Object × Library)}
    {old : Method wordSize Class Object × Library} {idx : Nat}
    {m : Method wordSize Class Object}
    (reads : Reads g live) (position : At g before old after idx)
    (found : replaces world m old.1 = true)
    (alone : ∀ entry ∈ before ++ after, replaces world m entry.1 = false) :
    (live.filter (fun entry => !replaces world m entry.1)).Perm
      (before ++ after) := by
  have filtered : (recorded g).filter
      (fun entry => !replaces world m entry.1) = before ++ after := by
    rw [position.entries, List.filter_append, List.filter_cons]
    simp only [found, Bool.not_true, Bool.false_eq_true, if_false]
    rw [← List.filter_append, List.filter_eq_self]
    intro entry member
    simp [alone entry member]
  rw [← filtered]
  exact (reads.perm.filter _).symm

theorem alone_of_countP_le_one {world : Universe wordSize Class Object}
    {g : GenericFunction wordSize Class Object Library}
    {before after : List (Method wordSize Class Object × Library)}
    {old : Method wordSize Class Object × Library} {idx : Nat}
    {m : Method wordSize Class Object}
    (bounded : g.methodLibraries.length ≤ g.methods.length)
    (position : At g before old after idx)
    (found : replaces world m old.1 = true) :
    g.methods.countP (replaces world m) ≤ 1 ↔
      ∀ entry ∈ before ++ after, replaces world m entry.1 = false := by
  have count := countP_recorded bounded (replaces world m)
  rw [position.entries, List.countP_append, List.countP_cons] at count
  simp only [found, if_true] at count
  have zero : (before ++ after).countP
      (fun entry => replaces world m entry.1) = 0 ↔
        ∀ entry ∈ before ++ after, replaces world m entry.1 = false := by
    rw [List.countP_eq_zero]
    simp
  rw [← zero, List.countP_append]
  omega

theorem filter_removed_perm
    {g : GenericFunction wordSize Class Object Library}
    {live before after : List (Method wordSize Class Object × Library)}
    {m : Method wordSize Class Object} {library : Library} {idx : Nat}
    (reads : Reads g live) (distinct : g.methods.Nodup)
    (position : At g before (m, library) after idx) :
    (before ++ after).Perm (live.filter (fun entry => entry.1 ≠ m)) := by
  have names := recorded_map_fst reads.bounded
  rw [← names, position.entries, List.map_append, List.map_cons,
    List.nodup_middle, List.nodup_cons, ← List.map_append] at distinct
  have filtered : (recorded g).filter (fun entry => entry.1 ≠ m) =
      before ++ after := by
    rw [position.entries, List.filter_append, List.filter_cons]
    simp only [ne_eq, not_true_eq_false, decide_false, Bool.false_eq_true,
      if_false]
    rw [← List.filter_append, List.filter_eq_self]
    intro entry member
    have other : entry.1 ≠ m := by
      intro same
      exact distinct.1 (List.mem_map.mpr ⟨entry, member, same⟩)
    simpa using other
  rw [← filtered]
  exact reads.perm.filter _

theorem invariant_makeGenericFunction (library : Library) (isSealed : Bool) :
    Invariant (makeGenericFunction library isSealed :
      GenericFunction wordSize Class Object Library) [] := by
  refine ⟨⟨?_, ?_⟩, ?_, enginesWithin_of_allReset ?_⟩
  · simp [makeGenericFunction]
  · simp [makeGenericFunction, recorded]
  · simp [makeGenericFunction]
  · simp [makeGenericFunction, allReset]

end Caches

variable [DecidableEq Class] [DecidableEq Object] [DecidableEq Library]

/-! ## Adding a method -/

theorem step_addMethod_of_not_accepts
    {world : Universe wordSize Class Object}
    {g : GenericFunction wordSize Class Object Library}
    {m : Method wordSize Class Object} {lib : Library} {checks : Checks}
    (refused : accepts world g m lib checks = false) :
    step world g (.addMethod m lib checks) = g := by
  simp only [step, addMethodInternal]
  split
  · rfl
  · split
    · rfl
    · split
      · rfl
      · rename_i open_ complete congruent
        simp only [Bool.not_eq_true, Bool.not_eq_false'] at *
        have failed : locateMethod world m.specializers g.methods 0 =
            none := by
          simpa [accepts, open_, complete, congruent] using refused
        simp [addMethodInternalInternal, failed]

theorem step_addMethod_of_accepts
    {world : Universe wordSize Class Object}
    {g : GenericFunction wordSize Class Object Library}
    {m : Method wordSize Class Object} {lib : Library} {checks : Checks}
    (accepted : accepts world g m lib checks = true) :
    (locateMethod world m.specializers g.methods 0 = some none ∧
      step world g (.addMethod m lib checks) =
        finalizeGenericFunction (addMethodAndLibrary g m lib)) ∨
    ∃ old idx,
      locateMethod world m.specializers g.methods 0 = some (some (old, idx)) ∧
        step world g (.addMethod m lib checks) =
          finalizeGenericFunction (replaceMethod g m lib idx) := by
  simp only [accepts, Bool.and_eq_true, Bool.not_eq_true'] at accepted
  obtain ⟨⟨⟨open_, complete⟩, congruent⟩, located⟩ := accepted
  obtain ⟨result, found⟩ := Option.isSome_iff_exists.mp located
  have reduced : step world g (.addMethod m lib checks) =
      (addMethodInternalInternal world g m lib).getD g := by
    simp [step, addMethodInternal, open_, complete, congruent]
  cases result with
  | none =>
      refine Or.inl ⟨found, ?_⟩
      rw [reduced]
      simp [addMethodInternalInternal, found]
  | some result =>
      obtain ⟨old, idx⟩ := result
      refine Or.inr ⟨old, idx, found, ?_⟩
      rw [reduced]
      simp [addMethodInternalInternal, found]

/-- A replacement is correct exactly when it has one method to replace and
does not forget the new one. -/
theorem perm_replaceMethod_iff {world : Universe wordSize Class Object}
    {g : GenericFunction wordSize Class Object Library}
    {live before after : List (Method wordSize Class Object × Library)}
    {old : Method wordSize Class Object × Library} {idx : Nat}
    {m : Method wordSize Class Object} {lib : Library}
    (reads : Reads g live) (position : At g before old after idx)
    (found : replaces world m old.1 = true) :
    (recorded (replaceMethod g m lib idx)).Perm
        (live.filter (fun entry => !replaces world m entry.1) ++ [(m, lib)]) ↔
      g.methods.countP (replaces world m) ≤ 1 ∧
        forgets g old.1 m lib idx = false := by
  constructor
  · intro perm
    have one := perm.countP_eq (fun entry => replaces world m entry.1)
    rw [countP_added] at one
    by_cases forgotten : forgets g old.1 m lib idx = true
    · -- The methods are unchanged, yet the new method is among them.
      exfalso
      have bounded := bounded_replaceMethod_of_forgets reads.bounded position
        forgotten
      have same := methods_replaceMethod_of_forgets forgotten
      rw [countP_recorded bounded, same,
        ← countP_recorded reads.bounded] at one
      have alone := (alone_of_countP_le_one reads.bounded position found).mp
        (by rw [← countP_recorded reads.bounded]; omega)
      have stored : m ∈ g.methods := by
        have entry := perm.symm.subset
          (List.mem_append_right _ (List.mem_singleton_self (m, lib)))
        rw [← same, ← recorded_map_fst bounded]
        exact List.mem_map_of_mem entry
      rw [← recorded_map_fst reads.bounded, position.entries] at stored
      obtain ⟨entry, member, name⟩ := List.mem_map.mp stored
      have differs : old.1 ≠ m := by
        simp only [forgets, Bool.and_eq_true, decide_eq_true_eq]
          at forgotten
        exact forgotten.2
      rcases List.mem_append.mp member with early | late
      · have never := alone entry (List.mem_append_left _ early)
        rw [name] at never
        simp at never
      · rcases List.mem_cons.mp late with rfl | late
        · exact differs name
        · have never := alone entry (List.mem_append_right _ late)
          rw [name] at never
          simp at never
    · have remembered : forgets g old.1 m lib idx = false := by
        simpa using forgotten
      have next := reads_replaceMethod reads.bounded position remembered
      refine ⟨?_, remembered⟩
      have counted := next.perm.countP_eq
        (fun entry => replaces world m entry.1)
      rw [one, List.countP_cons] at counted
      simp only [replaces_self, if_true] at counted
      rw [alone_of_countP_le_one reads.bounded position found]
      have none : (before ++ after).countP
          (fun entry => replaces world m entry.1) = 0 := by omega
      intro entry member
      simpa using List.countP_eq_zero.mp none entry member
  · rintro ⟨unique, remembered⟩
    have alone := (alone_of_countP_le_one reads.bounded position found).mp
      unique
    have next := reads_replaceMethod reads.bounded position remembered
    have kept := filter_replaces_perm reads position found alone
    have moved := (List.perm_append_singleton (m, lib) (before ++ after)).symm
    exact (next.perm.trans moved).trans (kept.symm.append_right _)

theorem stepCorrect_addMethod {world : Universe wordSize Class Object}
    {g : GenericFunction wordSize Class Object Library}
    {live : List (Method wordSize Class Object × Library)}
    (reads : Reads g live) (m : Method wordSize Class Object) (lib : Library)
    (checks : Checks) :
    StepCorrect world g live (.addMethod m lib checks) ↔
      aligned world g (.addMethod m lib checks) = true := by
  by_cases accepted : accepts world g m lib checks = true
  · have reset : allReset (step world g (.addMethod m lib checks)) = true := by
      rcases step_addMethod_of_accepts accepted with
        ⟨-, next⟩ | ⟨old, idx, -, next⟩
      · rw [next, allReset_finalizeGenericFunction]
      · rw [next, allReset_finalizeGenericFunction]
    simp only [StepCorrect, reset, implies_true, and_true, historyStep,
      accepted, if_true, aligned, Bool.not_true, Bool.false_or]
    rcases step_addMethod_of_accepts accepted with
      ⟨missing, next⟩ | ⟨old, idx, found, next⟩
    · have different : ∀ entry ∈ recorded g,
          replaces world m entry.1 = false := by
        intro entry member
        have listed : entry.1 ∈ g.methods := by
          rw [← recorded_map_fst reads.bounded]
          exact List.mem_map_of_mem member
        simp [replaces, locateMethod_none world missing entry.1 listed]
      have none : g.methods.countP (replaces world m) = 0 := by
        rw [← countP_recorded reads.bounded, List.countP_eq_zero]
        intro entry member
        simp [different entry member]
      have kept : live.filter (fun entry => !replaces world m entry.1) =
          live := by
        rw [List.filter_eq_self]
        intro entry member
        simp [different entry (reads.perm.symm.subset member)]
      rw [next, recorded_finalizeGenericFunction, kept]
      have added := (reads_addMethodAndLibrary reads.bounded m lib).perm
      have moved := (List.perm_append_singleton (m, lib) live).symm
      simp only [missing, none, Nat.zero_le, decide_true, Bool.and_self,
        iff_true]
      exact (added.trans (reads.perm.cons _)).trans moved
    · obtain ⟨front, back, shape, index, same⟩ :=
        locateMethod_spec world found
      obtain ⟨before, library, after, position, -, -⟩ :=
        exists_at reads.bounded shape
      rw [Nat.zero_add] at index
      subst index
      rw [next, recorded_finalizeGenericFunction, found,
        perm_replaceMethod_iff reads position (by simp [replaces, same])]
      simp
  · have refused : accepts world g m lib checks = false := by
      simpa using accepted
    simp [StepCorrect, step_addMethod_of_not_accepts refused, historyStep,
      aligned, refused, reads.perm]

/-! ## Removing a method -/

theorem stepCorrect_removeMethod {world : Universe wordSize Class Object}
    {g : GenericFunction wordSize Class Object Library}
    {live : List (Method wordSize Class Object × Library)}
    (reads : Reads g live) (distinct : g.methods.Nodup)
    (test : Method wordSize Class Object → Bool) (lib : Library)
    (checks : Checks) :
    StepCorrect world g live (.removeMethod test lib checks) ↔
      aligned world g (.removeMethod test lib checks) = true := by
  simp only [StepCorrect, step, historyStep, aligned]
  rcases removeMethodInternal_cases g test lib checks with
    unchanged | ⟨front, m, back, shape, result⟩
  · simp [unchanged, reads.perm]
  · obtain ⟨before, library, after, position, -, -⟩ :=
      exists_at reads.bounded shape
    have removed := reads_removed reads.bounded position
    have perm := removed.perm.trans
      (filter_removed_perm reads distinct position)
    rw [result]
    simp only [perm, true_and, reduceCtorEq, decide_false, Bool.false_or]
    -- Nothing is decached, so the caches are as reset as they were.
    have altered : recorded (withoutMethodAt g front.length) ≠
        recorded g := by
      intro same
      have size := removed.perm.length_eq
      rw [same, position.entries] at size
      simp at size
    constructor
    · exact fun reset => reset altered
    · exact fun reset _ => reset

/-! ## Steps and runs -/

theorem stepCorrect_iff {world : Universe wordSize Class Object}
    {g : GenericFunction wordSize Class Object Library}
    {live : List (Method wordSize Class Object × Library)}
    (invariant : Invariant g live)
    (event : Event wordSize Class Object Library) :
    StepCorrect world g live event ↔ aligned world g event = true := by
  cases event with
  | addMethod m lib checks =>
      exact stepCorrect_addMethod invariant.reads m lib checks
  | removeMethod test lib checks =>
      exact stepCorrect_removeMethod invariant.reads
        (List.Nodup.of_map _ invariant.distinct) test lib checks
  | trackCallSite =>
      have same : recorded (step world g .trackCallSite) = recorded g := rfl
      simp [StepCorrect, same, historyStep, aligned, invariant.reads.perm]
  | missedDispatch site selected =>
      have same : recorded (step world g (.missedDispatch site selected)) =
          recorded g := by
        cases site <;> rfl
      simp [StepCorrect, same, historyStep, aligned, invariant.reads.perm]

theorem bounded_step {world : Universe wordSize Class Object}
    {g : GenericFunction wordSize Class Object Library}
    (bounded : g.methodLibraries.length ≤ g.methods.length)
    {event : Event wordSize Class Object Library}
    (condition : aligned world g event = true) :
    (step world g event).methodLibraries.length ≤
      (step world g event).methods.length := by
  cases event with
  | addMethod m lib checks =>
      by_cases accepted : accepts world g m lib checks = true
      · rcases step_addMethod_of_accepts accepted with
          ⟨-, next⟩ | ⟨old, idx, found, next⟩
        · rw [next]
          exact (reads_addMethodAndLibrary bounded m lib).bounded
        · obtain ⟨front, back, shape, index, -⟩ :=
            locateMethod_spec world found
          obtain ⟨before, library, after, position, -, -⟩ :=
            exists_at bounded shape
          rw [Nat.zero_add] at index
          subst index
          have remembered : forgets g old m lib front.length = false := by
            simp only [aligned, accepted, found, Bool.not_true,
              Bool.false_or, Bool.and_eq_true, Bool.not_eq_true']
              at condition
            exact condition.2
          rw [next]
          exact (reads_replaceMethod bounded position remembered).bounded
      · have refused : accepts world g m lib checks = false := by
          simpa using accepted
        rw [step_addMethod_of_not_accepts refused]
        exact bounded
  | removeMethod test lib checks =>
      simp only [step]
      rcases removeMethodInternal_cases g test lib checks with
        unchanged | ⟨front, m, back, shape, result⟩
      · rw [unchanged]
        exact bounded
      · obtain ⟨before, library, after, position, -, -⟩ :=
          exists_at bounded shape
        rw [result]
        exact (reads_removed bounded position).bounded
  | trackCallSite => exact bounded
  | missedDispatch site selected =>
      cases site with
      | generic => exact bounded
      | callSite index => exact bounded

/-- The specification never lists one specializer tuple twice. -/
theorem historyStep_nodup {world : Universe wordSize Class Object}
    {g : GenericFunction wordSize Class Object Library}
    {live : List (Method wordSize Class Object × Library)}
    (distinct : (live.map (fun entry => entry.1.specializers)).Nodup)
    (event : Event wordSize Class Object Library) :
    ((historyStep world g live event).map
      (fun entry => entry.1.specializers)).Nodup := by
  have filtered : ∀ test : Method wordSize Class Object × Library → Bool,
      ((live.filter test).map (fun entry => entry.1.specializers)).Nodup :=
    fun test => distinct.sublist (List.filter_sublist.map _)
  cases event with
  | addMethod m lib checks =>
      simp only [historyStep]
      split
      · rw [List.map_append, List.map_singleton, List.nodup_append]
        refine ⟨filtered _, List.nodup_singleton _, ?_⟩
        intro spec kept last added same
        obtain ⟨entry, member, rfl⟩ := List.mem_map.mp kept
        rw [List.mem_singleton.mp added] at same
        have unreplaced := (List.mem_filter.mp member).2
        rw [replaces_of_specializers_eq world same] at unreplaced
        exact absurd unreplaced (by simp)
      · exact distinct
  | removeMethod test lib checks =>
      simp only [historyStep]
      split
      · exact filtered _
      · exact distinct
  | trackCallSite => exact distinct
  | missedDispatch site selected => exact distinct

theorem enginesWithin_missedDispatch {world : Universe wordSize Class Object}
    {g : GenericFunction wordSize Class Object Library}
    (engines : EnginesWithin g) (site : Site)
    (selected : List (Method wordSize Class Object)) :
    EnginesWithin (step world g (.missedDispatch site selected)) := by
  have chosen : ∀ m ∈ selected.filter (· ∈ g.methods), m ∈ g.methods := by
    intro m member
    simpa using (List.mem_filter.mp member).2
  cases site with
  | generic =>
      refine ⟨?_, engines.cacheUsers⟩
      intro m member
      rcases List.mem_append.mp member with cached | new
      · exact engines.discriminator m cached
      · exact chosen m new
  | callSite index =>
      refine ⟨engines.discriminator, ?_⟩
      intro engine listed m member
      obtain ⟨position, inside, user⟩ := List.mem_iff_getElem.mp listed
      simp only [step, List.getElem_modify] at user
      split at user
      · obtain ⟨before, stored, rfl⟩ := Option.map_eq_some_iff.mp user
        rcases List.mem_append.mp member with cached | new
        · refine engines.cacheUsers before ?_ m cached
          rw [← stored]
          exact List.getElem_mem _
        · exact chosen m new
      · refine engines.cacheUsers engine ?_ m member
        rw [← user]
        exact List.getElem_mem _

theorem enginesWithin_step {world : Universe wordSize Class Object}
    {g : GenericFunction wordSize Class Object Library}
    (engines : EnginesWithin g) {event : Event wordSize Class Object Library}
    (condition : aligned world g event = true) :
    EnginesWithin (step world g event) := by
  cases event with
  | addMethod m lib checks =>
      by_cases accepted : accepts world g m lib checks = true
      · apply enginesWithin_of_allReset
        rcases step_addMethod_of_accepts accepted with
          ⟨-, next⟩ | ⟨old, idx, -, next⟩
        · rw [next, allReset_finalizeGenericFunction]
        · rw [next, allReset_finalizeGenericFunction]
      · have refused : accepts world g m lib checks = false := by
          simpa using accepted
        rw [step_addMethod_of_not_accepts refused]
        exact engines
  | removeMethod test lib checks =>
      simp only [step]
      rcases removeMethodInternal_cases g test lib checks with
        unchanged | ⟨front, m, back, -, result⟩
      · rw [unchanged]
        exact engines
      · have reset : allReset g = true := by
          simpa [aligned, result] using condition
        rw [result]
        exact enginesWithin_of_allReset reset
  | trackCallSite =>
      refine ⟨engines.discriminator, ?_⟩
      intro engine listed
      rcases List.mem_append.mp listed with old | new
      · exact engines.cacheUsers engine old
      · simp only [List.mem_singleton, Option.some.injEq] at new
        simp [new, Engine.methods]
  | missedDispatch site selected =>
      exact enginesWithin_missedDispatch engines site selected

theorem invariant_step {world : Universe wordSize Class Object}
    {g : GenericFunction wordSize Class Object Library}
    {live : List (Method wordSize Class Object × Library)}
    (invariant : Invariant g live)
    {event : Event wordSize Class Object Library}
    (condition : aligned world g event = true) :
    Invariant (step world g event) (historyStep world g live event) := by
  have reads : Reads (step world g event)
      (historyStep world g live event) :=
    ⟨bounded_step invariant.reads.bounded condition,
      ((stepCorrect_iff invariant event).mpr condition).1⟩
  refine ⟨reads, ?_, enginesWithin_step invariant.engines condition⟩
  have distinct := invariant.reads.specializers_perm.nodup_iff.mp
    invariant.distinct
  exact reads.specializers_perm.nodup_iff.mpr
    (historyStep_nodup distinct event)

theorem invariant_run {world : Universe wordSize Class Object}
    {g : GenericFunction wordSize Class Object Library}
    {live : List (Method wordSize Class Object × Library)}
    (invariant : Invariant g live)
    (events : List (Event wordSize Class Object Library))
    (condition : alignedRun world g events = true) :
    Invariant (run world g events) (history world g live events) := by
  induction events generalizing g live with
  | nil => exact invariant
  | cons event events ih =>
      simp only [alignedRun, Bool.and_eq_true] at condition
      exact ih (invariant_step invariant condition.1) condition.2

/--
After a run of aligned events the table lists exactly the methods added and
not since replaced or removed, each with the library it was added from, at
most one for a tuple of specializers, and no cached engine reaches a method
outside the table.  The next event keeps this up, and leaves the caches reset
if it alters the table, exactly when it is aligned too.
-/
theorem methodTable_agrees_of_aligned
    (world : Universe wordSize Class Object) (library : Library)
    (isSealed : Bool) (events : List (Event wordSize Class Object Library))
    (condition : alignedRun world (makeGenericFunction library isSealed)
      events = true) :
    (recorded (run world (makeGenericFunction library isSealed) events)).Perm
        (history world (makeGenericFunction library isSealed) [] events) ∧
      ((run world (makeGenericFunction library isSealed) events).methods.map
        Method.specializers).Nodup ∧
      EnginesWithin (run world (makeGenericFunction library isSealed) events) ∧
      ∀ event,
        StepCorrect world
            (run world (makeGenericFunction library isSealed) events)
            (history world (makeGenericFunction library isSealed) [] events)
            event ↔
          aligned world
            (run world (makeGenericFunction library isSealed) events)
            event = true := by
  have invariant := invariant_run
    (invariant_makeGenericFunction library isSealed) events condition
  exact ⟨invariant.reads.perm, invariant.distinct, invariant.engines,
    stepCorrect_iff invariant⟩

/-- Checks that let every change through. -/
def passing : Checks :=
  { checkSealing := true
    domainConflictError := false
    typeComplete := true
    congruent := true }

/-- Library 0 owns the generic function; library 1 adds a method, a call
caches it, library 0 replaces it, and the new method is removed. -/
theorem methodTable_agrees_replaced_then_removed :
    alignedRun bareUniverse (makeGenericFunction 0 false)
        [.addMethod ⟨0, [.class 0]⟩ 1 passing,
          .missedDispatch .generic [⟨0, [.class 0]⟩],
          .addMethod ⟨1, [.class 0]⟩ 0 passing,
          .removeMethod (fun m => m.identity == 1) 0 passing] = true ∧
      (recorded (run bareUniverse (makeGenericFunction 0 false)
        [.addMethod ⟨0, [.class 0]⟩ 1 passing,
          .missedDispatch .generic [⟨0, [.class 0]⟩],
          .addMethod ⟨1, [.class 0]⟩ 0 passing,
          .removeMethod (fun m => m.identity == 1) 0 passing])).Perm
        (history bareUniverse (makeGenericFunction 0 false) []
          [.addMethod ⟨0, [.class 0]⟩ 1 passing,
            .missedDispatch .generic [⟨0, [.class 0]⟩],
            .addMethod ⟨1, [.class 0]⟩ 0 passing,
            .removeMethod (fun m => m.identity == 1) 0 passing]) := by
  have condition : alignedRun bareUniverse (makeGenericFunction 0 false)
      [.addMethod ⟨0, [.class 0]⟩ 1 passing,
        .missedDispatch .generic [⟨0, [.class 0]⟩],
        .addMethod ⟨1, [.class 0]⟩ 0 passing,
        .removeMethod (fun m => m.identity == 1) 0 passing] = true := by
    decide
  exact ⟨condition,
    (methodTable_agrees_of_aligned bareUniverse 0 false _ condition).1⟩

/-- A replacement from a foreign library is forgotten, two methods with one
tuple of specializers are listed, and a removed method stays cached. -/
theorem methodTable_disagrees :
    ¬(recorded (run bareUniverse (makeGenericFunction 0 false)
        [.addMethod ⟨0, [.class 0]⟩ 1 passing,
          .addMethod ⟨1, [.class 0]⟩ 0 passing,
          .addMethod ⟨2, [.class 0]⟩ 1 passing])).Perm
        (history bareUniverse (makeGenericFunction 0 false) []
          [.addMethod ⟨0, [.class 0]⟩ 1 passing,
            .addMethod ⟨1, [.class 0]⟩ 0 passing,
            .addMethod ⟨2, [.class 0]⟩ 1 passing]) ∧
      ¬((run bareUniverse (makeGenericFunction 0 false)
        [.addMethod ⟨0, [.class 0]⟩ 1 passing,
          .addMethod ⟨1, [.union (.class 1) (.class 0)]⟩ 1 passing,
          .addMethod ⟨2, [.class 0]⟩ 1 passing]).methods.map
            Method.specializers).Nodup ∧
      ¬EnginesWithin (run bareUniverse (makeGenericFunction 0 false)
        [.addMethod ⟨0, [.class 0]⟩ 1 passing,
          .missedDispatch .generic [⟨0, [.class 0]⟩],
          .removeMethod (fun m => m.identity == 0) 0 passing]) := by
  refine ⟨by decide, by decide, ?_⟩
  intro engines
  have reached := engines.discriminator ⟨0, [.class 0]⟩ (by decide)
  exact absurd reached (by decide)

end OpenDylan.Runtime.MethodTable
