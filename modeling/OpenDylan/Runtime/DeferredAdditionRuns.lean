import OpenDylan.Runtime.DeferredAdditions
import OpenDylan.Runtime.SealedDomainInvariant

/-!
# Deferred additions happen once

What putting off additions is for: when a class has become complete, every entry
that is complete is added once, as if it were added then, and its conditions are
reported; other entries stay, and an entry that is withdrawn is gone.

The code does that as long as no pending domain is withdrawn, and as long as the
methods that are finished are not refused and replace no method: a domain that
is withdrawn takes the place of the pending methods, the condition for a method
is dropped, and a method that is replaced is taken for a list of conditions.
-/

namespace OpenDylan.Runtime.DeferredAdditions

open OpenDylan.Runtime.Types OpenDylan.Runtime.MethodTable
open OpenDylan.Runtime.SealedDomains

section Runs

variable {wordSize : Nat} {Class Object Library : Type}

/-! ## The purpose -/

/-- A generic function and the additions that were put off. -/
structure Pending (wordSize : Nat) (Class Object Library : Type) where
  state : State wordSize Class Object Library
  methods : List (Method wordSize Class Object × Library)
  domains : List (DomainObject wordSize Class Object Library)

/-- The tables that hold what was put off. -/
def Pending.tables (pending : Pending wordSize Class Object Library) :
    Tables wordSize Class Object Library where
  state := pending.state
  methods := pending.methods.map fun entry => .method entry.1 entry.2
  domains := pending.domains

variable [DecidableEq Class] [DecidableEq Object] [DecidableEq Library]
  (program : Program wordSize Class Object Library)
  (congruent : Method wordSize Class Object → Bool)

/-- Add every entry that is complete, one after the other: the conditions, and
the entries that stay. -/
def finish {Entry : Type} (complete : Entry → Bool)
    (add : Entry → State wordSize Class Object Library →
      Option (List (Condition wordSize Class Object Library) ×
        State wordSize Class Object Library)) :
    List Entry → State wordSize Class Object Library →
      Option (List (Condition wordSize Class Object Library) ×
        List Entry × State wordSize Class Object Library)
  | [], state => some ([], [], state)
  | entry :: rest, state =>
      if complete entry then
        (add entry state).bind fun (conditions, state) =>
          (finish complete add rest state).map fun (later, kept, state) =>
            (conditions ++ later, kept, state)
      else
        (finish complete add rest state).map fun (conditions, kept, state) =>
          (conditions, entry :: kept, state)

/-- A direct addition of a method that is complete. -/
def addDirectly (entry : Method wordSize Class Object × Library)
    (state : State wordSize Class Object Library) :
    Option (List (Condition wordSize Class Object Library) ×
      State wordSize Class Object Library) :=
  match program.addMethod entry.1 entry.2 true (congruent entry.1) state with
  | (.failed, _) => none
  | (.refused, state) => some ([.method entry.1 entry.2], state)
  | (_, state) => some ([], state)

/-- A direct addition of a domain that is complete. -/
def addDomainDirectly (d : DomainObject wordSize Class Object Library)
    (state : State wordSize Class Object Library) :
    Option (List (Condition wordSize Class Object Library) ×
      State wordSize Class Object Library) :=
  match program.addDomain d.domain true state with
  | (.failed, _) => none
  | (.refused, state) => some ([.domain d.domain], state)
  | (_, state) => some ([], state)

/-- The pending domains that are complete, added. -/
def Pending.finishDomains (pending : Pending wordSize Class Object Library)
    (complete : Completeness wordSize Class Object Library) :
    Option (List (Condition wordSize Class Object Library) ×
      List (DomainObject wordSize Class Object Library) ×
      State wordSize Class Object Library) :=
  finish (fun d => complete.domain d.domain) (addDomainDirectly program)
    pending.domains pending.state

/-- One step, as it is meant.  An error for a domain ends a step. -/
def Pending.step (pending : Pending wordSize Class Object Library) :
    Event wordSize Class Object Library →
      Report wordSize Class Object Library ×
        Pending wordSize Class Object Library
  | .addMethod m lib typeComplete =>
      match program.addMethod m lib typeComplete (congruent m)
          pending.state with
      | (.failed, state) => (.failure, { pending with state })
      | (.refused, state) =>
          (.conditions [.method m lib], { pending with state })
      | (.postponed, state) =>
          (.conditions [],
            { pending with state, methods := (m, lib) :: pending.methods })
      | (.done, state) => (.conditions [], { pending with state })
  | .addDomain d typeComplete =>
      match program.addDomain d.domain typeComplete pending.state with
      | (.failed, state) => (.failure, { pending with state })
      | (.refused, state) =>
          (.conditions [.domain d.domain], { pending with state })
      | (.postponed, state) =>
          (.conditions [],
            { pending with state, domains := d :: pending.domains })
      | (.done, state) => (.conditions [], { pending with state })
  | .completenessChange complete =>
      if complete.generic then
        match pending.finishDomains program complete with
        | none => (.failure, pending)
        | some ([], domains, state) =>
            match finish (fun entry => complete.method entry.1)
                (addDirectly program congruent) pending.methods state with
            | none => (.failure, { pending with state, domains })
            | some (conditions, methods, state) =>
                (.conditions conditions, { state, methods, domains })
        | some (conditions, domains, state) =>
            (.conditions conditions, { pending with state, domains })
      else
        (.conditions [], pending)
  | .removeIncompleteMethod test =>
      (.conditions [],
        { pending with
          methods := pending.methods.eraseP fun entry => test entry.1 })
  | .removeIncompleteDomain frob =>
      match findIncompleteDomain program frob pending.domains with
      | none => (.failure, pending)
      | some none => (.conditions [], pending)
      | some (some d) =>
          (.conditions [],
            { pending with
              domains := pending.domains.eraseP fun other =>
                other.identity = d.identity })

/-- A run, as it is meant. -/
def Pending.run (pending : Pending wordSize Class Object Library) :
    List (Event wordSize Class Object Library) →
      List (Report wordSize Class Object Library) ×
        Pending wordSize Class Object Library
  | [] => ([], pending)
  | event :: events =>
      let (report, pending) := pending.step program congruent event
      let (reports, pending) := pending.run events
      (report :: reports, pending)

/-! ## When the code does that -/

/-- The methods that are complete are added without a condition, and none of
them replaces a method. -/
def Smooth (complete : Completeness wordSize Class Object Library) :
    List (Method wordSize Class Object × Library) →
      State wordSize Class Object Library → Prop
  | [], _ => True
  | (m, lib) :: rest, state =>
      if complete.method m then
        (program.addMethod m lib true (congruent m) state).1 = .done ∧
          oldMethod program m state = none ∧
          Smooth complete rest
            (program.addMethod m lib true (congruent m) state).2
      else
        Smooth complete rest state

/-- A step withdraws no pending domain, and finishes domains without an error in
a comparison of types, and methods smoothly. -/
def Pending.Meets (pending : Pending wordSize Class Object Library) :
    Event wordSize Class Object Library → Prop
  | .completenessChange complete =>
      complete.generic = true →
        match pending.finishDomains program complete with
        | none => False
        | some ([], _, state) =>
            Smooth program congruent complete pending.methods state
        | some (_ :: _, _, _) => True
  | .removeIncompleteDomain frob =>
      ∀ d, findIncompleteDomain program frob pending.domains ≠ some (some d)
  | _ => True

/-- All steps of a run meet the condition. -/
def Pending.MeetsAll (pending : Pending wordSize Class Object Library) :
    List (Event wordSize Class Object Library) → Prop
  | [] => True
  | event :: events =>
      pending.Meets program congruent event ∧
        (pending.step program congruent event).2.MeetsAll events

/-- Methods were added to a generic function, each once and with its library. -/
structure Installed
    (before after : GenericFunction wordSize Class Object Library)
    (added : List (Method wordSize Class Object × Library)) : Prop where
  methods : after.methods = (added.map Prod.fst).reverse ++ before.methods
  libraries : after.methodLibraries =
    (added.map Prod.snd).reverse ++ before.methodLibraries

variable {program} {congruent}

/-! ## Finishing -/

omit [DecidableEq Class] [DecidableEq Object] [DecidableEq Library] in
/-- The entries that stay are those that are not complete. -/
theorem finish_kept {Entry : Type} {complete : Entry → Bool}
    {add : Entry → State wordSize Class Object Library →
      Option (List (Condition wordSize Class Object Library) ×
        State wordSize Class Object Library)} {entries kept : List Entry}
    {state after : State wordSize Class Object Library}
    {conditions : List (Condition wordSize Class Object Library)}
    (finished : finish complete add entries state =
      some (conditions, kept, after)) :
    kept = entries.filter fun entry => !complete entry := by
  induction entries generalizing state conditions kept with
  | nil =>
      cases finished
      rfl
  | cons entry rest ih =>
      rw [finish] at finished
      split at finished
      · next isComplete =>
          rw [Option.bind_eq_some_iff] at finished
          obtain ⟨added, _, finished⟩ := finished
          rw [Option.map_eq_some_iff] at finished
          obtain ⟨later, isLater, finished⟩ := finished
          cases finished
          rw [List.filter_cons_of_neg (by simp [isComplete])]
          exact ih isLater
      · next isIncomplete =>
          rw [Option.map_eq_some_iff] at finished
          obtain ⟨later, isLater, finished⟩ := finished
          cases finished
          rw [List.filter_cons_of_pos (by simpa using isIncomplete),
            ← ih isLater]

/-- A complete domain is not put off. -/
theorem addDomain_not_postponed (d : Domain wordSize Class Object Library)
    (state : State wordSize Class Object Library) :
    (program.addDomain d true state).1 ≠ .postponed := by
  intro postponed
  simp only [Program.addDomain, if_true] at postponed
  repeat' split at postponed
  all_goals cases postponed

/-- A pending domain that is complete is added directly. -/
theorem frobDomain_complete
    {complete : Completeness wordSize Class Object Library}
    {d : DomainObject wordSize Class Object Library}
    {tables : Tables wordSize Class Object Library}
    (isComplete : complete.domain d.domain = true)
    {conditions : List (Condition wordSize Class Object Library)}
    {after : State wordSize Class Object Library}
    (added : addDomainDirectly program d tables.state =
      some (conditions, after)) :
    frobDomain program complete d tables =
      (some (true, .list conditions), { tables with state := after }) := by
  have direct := @addDomain_not_postponed _ _ _ _ _ _ _ program d.domain
    tables.state
  rw [frobDomain, if_pos isComplete, addDomainInternal]
  rw [addDomainDirectly] at added
  generalize program.addDomain d.domain true tables.state = result
    at added direct
  obtain ⟨outcome, state⟩ := result
  cases outcome with
  | failed => cases added
  | postponed => exact absurd rfl direct
  | done =>
      cases added
      rfl
  | refused =>
      cases added
      rfl

/-- A pending method that is complete is added directly, when that ends well. -/
theorem frobMethod_complete
    {complete : Completeness wordSize Class Object Library}
    {m : Method wordSize Class Object} {lib : Library}
    {tables : Tables wordSize Class Object Library}
    (isComplete : complete.method m = true)
    (done : (program.addMethod m lib true (congruent m) tables.state).1 =
      .done) (alone : oldMethod program m tables.state = none) :
    frobMethod program congruent complete (.method m lib) tables =
      (some (true, .false),
        { tables with
          state :=
            (program.addMethod m lib true (congruent m) tables.state).2 }) ∧
      addDirectly program congruent (m, lib) tables.state =
        some ([],
          (program.addMethod m lib true (congruent m) tables.state).2) := by
  rw [frobMethod, if_pos isComplete, addMethodInternal, addDirectly, alone]
  generalize program.addMethod m lib true (congruent m) tables.state = result
    at done
  obtain ⟨outcome, state⟩ := result
  cases outcome with
  | done => exact ⟨rfl, rfl⟩
  | _ => cases done

/-- The loop over the pending domains adds those that are complete. -/
theorem innerLoop_frobDomain
    {complete : Completeness wordSize Class Object Library}
    {entries kept : List (DomainObject wordSize Class Object Library)}
    {conditions : List (Condition wordSize Class Object Library)}
    {after : State wordSize Class Object Library}
    {tables : Tables wordSize Class Object Library}
    (finished : finish (fun d => complete.domain d.domain)
      (addDomainDirectly program) entries tables.state =
        some (conditions, kept, after))
    (lossage : List (Condition wordSize Class Object Library))
    (hdr : List (DomainObject wordSize Class Object Library)) :
    innerLoop (frobDomain program complete) entries lossage hdr tables =
      (some (lossage ++ conditions, hdr ++ kept),
        { tables with state := after }) := by
  induction entries generalizing tables conditions kept lossage hdr with
  | nil =>
      cases finished
      simp [innerLoop]
  | cons d rest ih =>
      rw [finish] at finished
      split at finished
      · next isComplete =>
          rw [Option.bind_eq_some_iff] at finished
          obtain ⟨⟨first, next⟩, added, finished⟩ := finished
          rw [Option.map_eq_some_iff] at finished
          obtain ⟨⟨later, keptLater, last⟩, isLater, finished⟩ := finished
          cases finished
          rw [innerLoop, frobDomain_complete isComplete added]
          simp only [Bool.not_true, Bool.false_eq_true, if_false]
          rw [ih isLater, List.append_assoc]
      · next isIncomplete =>
          rw [Option.map_eq_some_iff] at finished
          obtain ⟨⟨later, keptLater, last⟩, isLater, finished⟩ := finished
          cases finished
          rw [innerLoop, frobDomain, if_neg isIncomplete]
          simp only [Bool.not_false, if_true, List.append_nil]
          rw [ih isLater, List.append_assoc, List.singleton_append]

/-- The loop over the pending methods adds those that are complete. -/
theorem innerLoop_frobMethod
    {complete : Completeness wordSize Class Object Library}
    {entries : List (Method wordSize Class Object × Library)}
    {tables : Tables wordSize Class Object Library}
    (smooth : Smooth program congruent complete entries tables.state)
    (lossage : List (Condition wordSize Class Object Library))
    (hdr : List (MethodEntry wordSize Class Object Library)) :
    ∃ kept after, finish (fun entry => complete.method entry.1)
        (addDirectly program congruent) entries tables.state =
          some ([], kept, after) ∧
      innerLoop (frobMethod program congruent complete)
        (entries.map fun entry => .method entry.1 entry.2) lossage hdr
        tables =
          (some (lossage,
              hdr ++ kept.map fun entry => .method entry.1 entry.2),
            { tables with state := after }) := by
  induction entries generalizing tables lossage hdr with
  | nil => exact ⟨[], tables.state, rfl, by simp [innerLoop]⟩
  | cons entry rest ih =>
      obtain ⟨m, lib⟩ := entry
      rw [Smooth] at smooth
      rw [finish, List.map_cons, innerLoop]
      split at smooth
      · next isComplete =>
          obtain ⟨done, alone, smooth⟩ := smooth
          obtain ⟨tried, added⟩ := frobMethod_complete isComplete done alone
          obtain ⟨kept, after, finished, looped⟩ :=
            @ih { tables with
              state := (program.addMethod m lib true (congruent m)
                tables.state).2 } smooth lossage hdr
          refine ⟨kept, after, ?_, ?_⟩
          · rw [if_pos isComplete, added, Option.bind_some]
            exact congrArg (Option.map _) finished
          · rw [tried]
            exact looped
      · next isIncomplete =>
          obtain ⟨kept, after, finished, looped⟩ :=
            ih smooth lossage (hdr ++ [.method m lib])
          refine ⟨(m, lib) :: kept, after, ?_, ?_⟩
          · rw [if_neg isIncomplete]
            exact congrArg (Option.map _) finished
          · rw [frobMethod, if_neg isIncomplete]
            simp only [Bool.not_false, if_true, List.append_nil, looped,
              List.append_assoc, List.singleton_append, List.map_cons]

/-! ## What is installed -/

/-- An addition that is done changes the table of methods. -/
theorem addMethod_done {m : Method wordSize Class Object} {lib : Library}
    {state : State wordSize Class Object Library}
    (done : (program.addMethod m lib true (congruent m) state).1 = .done) :
    addMethodInternalInternal program.graph.toUniverse state.gf m lib =
      some (program.addMethod m lib true (congruent m) state).2.gf := by
  rw [Program.addMethod] at done ⊢
  generalize (if state.gf.isSealed = true then (some false, state.known)
    else program.domainConflict m lib state.domains state.known) = result
    at done ⊢
  obtain ⟨conflict, known⟩ := result
  cases conflict with
  | none => cases done
  | some conflict =>
      simp only at done ⊢
      cases added : MethodTable.addMethodInternal program.graph.toUniverse
          state.gf m lib
          { checkSealing := true, domainConflictError := conflict
            typeComplete := true, congruent := congruent m } with
      | none =>
          rw [added] at done
          cases done
      | some gf =>
          rw [added] at done
          simp only at done ⊢
          split at done
          · cases done
          · next allowed =>
              split at done
              · cases done
              · split at done
                · cases done
                · next isCongruent =>
                    rw [MethodTable.addMethodInternal] at added
                    simpa [allowed, isCongruent] using added

/-- A method that is added without replacing one is in front. -/
theorem installed_addMethod {m : Method wordSize Class Object} {lib : Library}
    {state : State wordSize Class Object Library}
    (done : (program.addMethod m lib true (congruent m) state).1 = .done)
    (alone : oldMethod program m state = none) :
    Installed state.gf
      (program.addMethod m lib true (congruent m) state).2.gf [(m, lib)] := by
  have added := addMethod_done done
  rw [addMethodInternalInternal] at added
  rw [oldMethod] at alone
  generalize locateMethod program.graph.toUniverse m.specializers
    state.gf.methods 0 = place at added alone
  rcases place with _ | _ | found
  · cases added
  · rw [← Option.some.inj added]
    exact ⟨rfl, rfl⟩
  · cases alone

/-- The methods that were complete are installed, each once. -/
theorem installed_finish
    {complete : Completeness wordSize Class Object Library}
    {entries kept : List (Method wordSize Class Object × Library)}
    {state after : State wordSize Class Object Library}
    {conditions : List (Condition wordSize Class Object Library)}
    (smooth : Smooth program congruent complete entries state)
    (finished : finish (fun entry => complete.method entry.1)
      (addDirectly program congruent) entries state =
        some (conditions, kept, after)) :
    Installed state.gf after.gf
      (entries.filter fun entry => complete.method entry.1) := by
  induction entries generalizing state conditions kept with
  | nil =>
      cases finished
      exact ⟨rfl, rfl⟩
  | cons entry rest ih =>
      obtain ⟨m, lib⟩ := entry
      rw [Smooth] at smooth
      rw [finish] at finished
      split at smooth
      · next isComplete =>
          obtain ⟨done, alone, smooth⟩ := smooth
          have added := (@frobMethod_complete _ _ _ _ _ _ _ program congruent
            complete m lib ⟨state, [], []⟩ isComplete done alone).2
          have first := installed_addMethod done alone
          rw [if_pos isComplete, added, Option.bind_some,
            Option.map_eq_some_iff] at finished
          obtain ⟨later, isLater, finished⟩ := finished
          cases finished
          have rest := ih smooth isLater
          rw [List.filter_cons, if_pos isComplete]
          constructor
          · rw [rest.methods, first.methods]
            simp
          · rw [rest.libraries, first.libraries]
            simp
      · next isIncomplete =>
          rw [if_neg isIncomplete, Option.map_eq_some_iff] at finished
          obtain ⟨later, isLater, finished⟩ := finished
          cases finished
          rw [List.filter_cons, if_neg isIncomplete]
          exact ih smooth isLater

/-! ## Steps and runs -/

omit [DecidableEq Class] [DecidableEq Object] [DecidableEq Library] in
theorem removeIncompleteMethod_eq
    (test : Method wordSize Class Object → Bool)
    (entries : List (Method wordSize Class Object × Library)) :
    removeIncompleteMethod test
        (entries.map fun entry => .method entry.1 entry.2) =
      some ((entries.eraseP fun entry => test entry.1).map
        fun entry => .method entry.1 entry.2) := by
  induction entries with
  | nil => rfl
  | cons entry rest ih =>
      rw [List.map_cons, removeIncompleteMethod]
      split
      · next isFound => simp [isFound]
      · next isOther => simp [isOther, ih]

/-- The pending methods that are complete are added directly, when that ends
well. -/
theorem finishMethods_tables
    {complete : Completeness wordSize Class Object Library}
    {methods : List (Method wordSize Class Object × Library)}
    {domains : List (DomainObject wordSize Class Object Library)}
    {state : State wordSize Class Object Library}
    (smooth : Smooth program congruent complete methods state) :
    ∃ kept after, finish (fun entry => complete.method entry.1)
        (addDirectly program congruent) methods state =
          some ([], kept, after) ∧
      finishMethods program congruent complete
          (Pending.tables { state, methods, domains }) =
        (.conditions [],
          Pending.tables { state := after, methods := kept, domains }) := by
  obtain ⟨kept, after, finished, looped⟩ :=
    @innerLoop_frobMethod _ _ _ _ _ _ _ program congruent complete methods
      (Pending.tables { state, methods, domains }) smooth [] []
  refine ⟨kept, after, finished, ?_⟩
  have same : (Pending.tables { state, methods, domains }).methods =
      methods.map fun entry => .method entry.1 entry.2 := rfl
  rw [finishMethods, same, looped]
  rfl

/-- A step that meets the condition does what is meant. -/
theorem step_tables {pending : Pending wordSize Class Object Library}
    {event : Event wordSize Class Object Library}
    (meets : pending.Meets program congruent event) :
    step program congruent pending.tables event =
      ((pending.step program congruent event).1,
        (pending.step program congruent event).2.tables) := by
  cases event with
  | addMethod m lib typeComplete =>
      rw [step, Pending.step, addMethodInternal, Pending.tables]
      generalize program.addMethod m lib typeComplete (congruent m)
        pending.state = result
      obtain ⟨outcome, state⟩ := result
      cases outcome <;> rfl
  | addDomain d typeComplete =>
      rw [step, Pending.step, addDomainInternal, Pending.tables]
      generalize program.addDomain d.domain typeComplete pending.state = result
      obtain ⟨outcome, state⟩ := result
      cases outcome <;> rfl
  | completenessChange complete =>
      rw [step, Pending.step, handleGenericCompletenessChange]
      rw [Pending.Meets] at meets
      cases generic : complete.generic with
      | false => rfl
      | true =>
          have met := meets generic
          rw [if_pos rfl, if_pos rfl]
          cases finished : pending.finishDomains program complete with
          | none =>
              rw [finished] at met
              cases met
          | some result =>
              obtain ⟨conditions, domains, state⟩ := result
              rw [finished] at met
              have looped := @innerLoop_frobDomain _ _ _ _ _ _ _ program
                complete _ _ _ _ pending.tables finished [] []
              have same : pending.tables.domains = pending.domains := rfl
              rw [same, looped]
              cases conditions with
              | cons condition conditions => rfl
              | nil =>
                  obtain ⟨kept, after, finishedToo, ends⟩ :=
                    @finishMethods_tables _ _ _ _ _ _ _ program congruent
                      complete pending.methods domains state met
                  refine Eq.trans ends ?_
                  simp only [finishedToo]
  | removeIncompleteMethod test =>
      rw [step, Pending.step, Pending.tables]
      simp only [removeIncompleteMethod_eq]
      rfl
  | removeIncompleteDomain frob =>
      rw [step, Pending.step, removeIncompleteDomain, Pending.tables]
      cases found : findIncompleteDomain program frob pending.domains with
      | none => rfl
      | some found' =>
          cases found' with
          | none => rfl
          | some d => exact absurd found (meets d)

/-- A run whose steps meet the condition does what is meant. -/
theorem run_tables {pending : Pending wordSize Class Object Library}
    {events : List (Event wordSize Class Object Library)}
    (meets : pending.MeetsAll program congruent events) :
    run program congruent pending.tables events =
      ((pending.run program congruent events).1,
        (pending.run program congruent events).2.tables) := by
  induction events generalizing pending with
  | nil => rfl
  | cons event events ih =>
      rw [run, step_tables meets.1]
      dsimp only
      rw [ih meets.2]
      rfl

/-- The entries that were complete are added, and the others stay. -/
structure Finished (complete : Completeness wordSize Class Object Library)
    (before : Pending wordSize Class Object Library)
    (gf : GenericFunction wordSize Class Object Library)
    (after : Pending wordSize Class Object Library) : Prop where
  domains : after.domains =
    before.domains.filter fun d => !complete.domain d.domain
  methods : after.methods =
    before.methods.filter fun entry => !complete.method entry.1
  installed : Installed gf after.state.gf
    (before.methods.filter fun entry => complete.method entry.1)

theorem finished_step {pending : Pending wordSize Class Object Library}
    {complete : Completeness wordSize Class Object Library}
    (generic : complete.generic = true)
    (meets : pending.Meets program congruent (.completenessChange complete))
    {domains : List (DomainObject wordSize Class Object Library)}
    {state : State wordSize Class Object Library}
    (finished : pending.finishDomains program complete =
      some ([], domains, state)) :
    Finished complete pending state.gf
      (pending.step program congruent (.completenessChange complete)).2 := by
  have smooth := meets generic
  rw [finished] at smooth
  obtain ⟨kept, after, added, _⟩ :=
    @finishMethods_tables _ _ _ _ _ _ _ program congruent complete
      pending.methods domains state smooth
  have stepped : (pending.step program congruent
      (.completenessChange complete)).2 =
        { state := after, methods := kept, domains } := by
    rw [Pending.step, if_pos generic, finished]
    simp only [added]
  rw [stepped]
  exact ⟨finish_kept finished, finish_kept added,
    installed_finish smooth added⟩

variable (program) (congruent)

/-- In every run whose steps withdraw no pending domain and finish methods
without a condition and without replacing one, deferred additions happen as they
are meant: what is complete is added once, with its library and the conditions
of a direct addition, and the other entries stay or are withdrawn one by one. -/
theorem deferred_additions (pending : Pending wordSize Class Object Library)
    (events : List (Event wordSize Class Object Library))
    (meets : pending.MeetsAll program congruent events) :
    run program congruent pending.tables events =
        ((pending.run program congruent events).1,
          (pending.run program congruent events).2.tables) ∧
      ∀ complete domains state, complete.generic = true →
        (pending.run program congruent events).2.Meets program congruent
          (.completenessChange complete) →
        (pending.run program congruent events).2.finishDomains program
          complete = some ([], domains, state) →
        Finished complete (pending.run program congruent events).2 state.gf
          ((pending.run program congruent events).2.step program congruent
            (.completenessChange complete)).2 :=
  ⟨run_tables meets, fun _ _ _ generic met finished =>
    finished_step generic met finished⟩

end Runs

/-! ## A method that becomes complete -/

/-- The generic function of the first of three libraries, and nothing put
off. -/
def newPending : Pending 64 (Fin 4) (Fin 4) (Fin 3) where
  state := newState 0
  methods := []
  domains := []

/-- A method from the second library is put off, and then its class becomes
complete. -/
def methodEvents : List (Event 64 (Fin 4) (Fin 4) (Fin 3)) :=
  [.addMethod (unionMethod 0) 1 false,
    .completenessChange
      { generic := true, method := fun _ => true, domain := fun _ => true }]

theorem deferred_additions_method :
    run threeLibrariesProgram (fun _ => true) newPending.tables methodEvents =
      ((newPending.run threeLibrariesProgram (fun _ => true) methodEvents).1,
        (newPending.run threeLibrariesProgram (fun _ => true)
          methodEvents).2.tables) :=
  (deferred_additions threeLibrariesProgram (fun _ => true) newPending
    methodEvents ⟨trivial, fun _ => ⟨rfl, rfl, trivial⟩, trivial⟩).1

/-- The method is not congruent with the generic function; the condition for its
addition is not reported. -/
theorem not_deferred_additions :
    ¬ ∀ (program : Program 64 (Fin 4) (Fin 4) (Fin 3))
      (congruent : Method 64 (Fin 4) (Fin 4) → Bool)
      (pending : Pending 64 (Fin 4) (Fin 4) (Fin 3))
      (events : List (Event 64 (Fin 4) (Fin 4) (Fin 3))),
      run program congruent pending.tables events =
        ((pending.run program congruent events).1,
          (pending.run program congruent events).2.tables) := by
  intro meant
  have same := congrArg Prod.fst
    (meant threeLibrariesProgram (fun _ => false) newPending methodEvents)
  have reports : [Report.conditions [], Report.conditions []] =
      [Report.conditions [],
        Report.conditions [Condition.method (unionMethod 0) (1 : Fin 3)]] :=
    same
  cases reports

end OpenDylan.Runtime.DeferredAdditions
