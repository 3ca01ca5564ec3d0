import OpenDylan.Runtime.SealedDomains

/-!
# Deferred additions of methods and domains

An addition to an incremental generic function is put off while a type of it is
incomplete.  Two tables keep what was put off, for each generic function; here
are the entries for one.  When classes become complete, the entries that are
complete then are added, and the conditions of their additions are reported.

Which types are complete is for the events to say, at each of them.  The classes
that a generic function depends on and the signal for a call of an incomplete
generic function are left out.
-/

namespace OpenDylan.Runtime.DeferredAdditions

open OpenDylan.Runtime.Types OpenDylan.Runtime.MethodTable
open OpenDylan.Runtime.SealedDomains

/-! ## Tables of entries -/

/-- A condition for an addition that was refused. -/
inductive Condition (wordSize : Nat) (Class Object Library : Type) where
  | method (m : Method wordSize Class Object) (lib : Library)
  | domain (d : Domain wordSize Class Object Library)

/-- A domain, as an object with an identity. -/
structure DomainObject (wordSize : Nat) (Class Object Library : Type) where
  identity : Nat
  domain : Domain wordSize Class Object Library

/-- An element of `*incomplete-generic-function-methods*`: a list of a method
and a library.  There can be domains as well, which were put there. -/
inductive MethodEntry (wordSize : Nat) (Class Object Library : Type) where
  | method (m : Method wordSize Class Object) (lib : Library)
  | domain (d : DomainObject wordSize Class Object Library)

/-- A generic function with its elements of the tables
`*incomplete-generic-function-methods*` and
`*incomplete-generic-function-domains*`. -/
structure Tables (wordSize : Nat) (Class Object Library : Type) where
  state : State wordSize Class Object Library
  methods : List (MethodEntry wordSize Class Object Library)
  domains : List (DomainObject wordSize Class Object Library)

/-- What a step signals: the conditions that are passed to `bletch-stack`, or an
error of another kind. -/
inductive Report (wordSize : Nat) (Class Object Library : Type) where
  | conditions (conditions : List (Condition wordSize Class Object Library))
  | failure

section Tables

variable {wordSize : Nat} {Class Object Library : Type}
  [DecidableEq Class] [DecidableEq Object] [DecidableEq Library]

/-! ## Additions -/

/-- `note-incomplete-method-handler` -/
def noteIncompleteMethod (tables : Tables wordSize Class Object Library)
    (m : Method wordSize Class Object) (lib : Library) :
    Tables wordSize Class Object Library :=
  { tables with methods := .method m lib :: tables.methods }

/-- `note-incomplete-domain-handler` -/
def noteIncompleteDomain (tables : Tables wordSize Class Object Library)
    (d : DomainObject wordSize Class Object Library) :
    Tables wordSize Class Object Library :=
  { tables with domains := d :: tables.domains }

/-- The method with the same specializers, that an addition replaces. -/
def oldMethod (program : Program wordSize Class Object Library)
    (m : Method wordSize Class Object)
    (state : State wordSize Class Object Library) :
    Option (Method wordSize Class Object) :=
  match locateMethod program.graph.toUniverse m.specializers
      state.gf.methods 0 with
  | some (some (old, _)) => some old
  | _ => none

/-- The two values of `add-method-internal`, the method that was replaced and
the condition, or `none` when a comparison of types signals an error. -/
def addMethodInternal (program : Program wordSize Class Object Library)
    (congruent : Method wordSize Class Object → Bool)
    (m : Method wordSize Class Object) (lib : Library) (typeComplete : Bool)
    (tables : Tables wordSize Class Object Library) :
    Option (Option (Method wordSize Class Object) ×
        Option (Condition wordSize Class Object Library)) ×
      Tables wordSize Class Object Library :=
  match program.addMethod m lib typeComplete (congruent m) tables.state with
  | (.failed, state) => (none, { tables with state })
  | (.refused, state) =>
      (some (none, some (.method m lib)), { tables with state })
  | (.postponed, state) =>
      (some (none, none), noteIncompleteMethod { tables with state } m lib)
  | (.done, state) =>
      (some (oldMethod program m tables.state, none), { tables with state })

/-- `%add-domains-internal` for one domain: its conditions. -/
def addDomainInternal (program : Program wordSize Class Object Library)
    (d : DomainObject wordSize Class Object Library) (typeComplete : Bool)
    (tables : Tables wordSize Class Object Library) :
    Option (List (Condition wordSize Class Object Library)) ×
      Tables wordSize Class Object Library :=
  match program.addDomain d.domain typeComplete tables.state with
  | (.failed, state) => (none, { tables with state })
  | (.refused, state) => (some [.domain d.domain], { tables with state })
  | (.postponed, state) =>
      (some [], noteIncompleteDomain { tables with state } d)
  | (.done, state) => (some [], { tables with state })

/-! ## Finishing the additions -/

/-- The second value of the function that `do-incomplete-frobs` applies. -/
inductive Lossage (wordSize : Nat) (Class Object Library : Type) where
  | false
  | list (conditions : List (Condition wordSize Class Object Library))
  | method (m : Method wordSize Class Object)

/-- What an entry of a table is tested with: the values of the function, or
`none` for an error. -/
abbrev Frob (wordSize : Nat) (Class Object Library Entry : Type) : Type :=
  Entry → Tables wordSize Class Object Library →
    Option (Bool × Lossage wordSize Class Object Library) ×
      Tables wordSize Class Object Library

/-- The local method `inner-loop` of `do-incomplete-frobs`: all conditions, and
the entries that stay. -/
def innerLoop {Entry : Type} (f : Frob wordSize Class Object Library Entry) :
    List Entry → List (Condition wordSize Class Object Library) →
      List Entry → Tables wordSize Class Object Library →
      Option (List (Condition wordSize Class Object Library) × List Entry) ×
        Tables wordSize Class Object Library
  | [], lossage, hdr, tables => (some (lossage, hdr), tables)
  | elt :: nxt, lossage, hdr, tables =>
      match f elt tables with
      | (none, tables) => (none, tables)
      | (some (win, nlossage), tables) =>
          let hdr := if !win then hdr ++ [elt] else hdr
          match nlossage with
          | .false => innerLoop f nxt lossage hdr tables
          | .list conditions =>
              innerLoop f nxt (lossage ++ conditions) hdr tables
          -- A method cannot be an argument of `concatenate`.
          | .method _ => (none, tables)

/-- What is complete when a class has become complete. -/
structure Completeness (wordSize : Nat) (Class Object Library : Type) where
  generic : Bool
  method : Method wordSize Class Object → Bool
  domain : Domain wordSize Class Object Library → Bool

/-- The function for domains in `handle-generic-completeness-change`. -/
def frobDomain (program : Program wordSize Class Object Library)
    (complete : Completeness wordSize Class Object Library) :
    Frob wordSize Class Object Library
      (DomainObject wordSize Class Object Library) :=
  fun d tables =>
    if complete.domain d.domain then
      match addDomainInternal program d true tables with
      | (none, tables) => (none, tables)
      | (some lossage, tables) => (some (true, .list lossage), tables)
    else
      (some (false, .list []), tables)

/-- The function for methods in `handle-generic-completeness-change`: of the
values of `add-method-internal`, `values` takes the first. -/
def frobMethod (program : Program wordSize Class Object Library)
    (congruent : Method wordSize Class Object → Bool)
    (complete : Completeness wordSize Class Object Library) :
    Frob wordSize Class Object Library
      (MethodEntry wordSize Class Object Library)
  | .method m lib, tables =>
    if complete.method m then
      match addMethodInternal program congruent m lib true tables with
      | (none, tables) => (none, tables)
      | (some (none, _), tables) => (some (true, .false), tables)
      | (some (some old, _), tables) => (some (true, .method old), tables)
    else
      (some (false, .list []), tables)
  -- An entry has to be a list.
  | .domain _, tables => (none, tables)

/-- `handle-generic-completeness-change`, the part for methods. -/
def finishMethods (program : Program wordSize Class Object Library)
    (congruent : Method wordSize Class Object → Bool)
    (complete : Completeness wordSize Class Object Library)
    (tables : Tables wordSize Class Object Library) :
    Report wordSize Class Object Library ×
      Tables wordSize Class Object Library :=
  match innerLoop (frobMethod program congruent complete) tables.methods [] []
      tables with
  | (none, tables) => (.failure, tables)
  | (some (lossage, hdr), tables) =>
      (.conditions lossage, { tables with methods := hdr })

/-- `handle-generic-completeness-change`.  The conditions for domains are
errors; the first that is signalled ends the call. -/
def handleGenericCompletenessChange
    (program : Program wordSize Class Object Library)
    (congruent : Method wordSize Class Object → Bool)
    (complete : Completeness wordSize Class Object Library)
    (tables : Tables wordSize Class Object Library) :
    Report wordSize Class Object Library ×
      Tables wordSize Class Object Library :=
  if complete.generic then
    match innerLoop (frobDomain program complete) tables.domains [] []
        tables with
    | (none, tables) => (.failure, tables)
    | (some ([], hdr), tables) =>
        finishMethods program congruent complete { tables with domains := hdr }
    | (some (lossage, hdr), tables) =>
        (.conditions lossage, { tables with domains := hdr })
  else
    (.conditions [], tables)

/-! ## Withdrawing entries -/

/-- `remove-incomplete-method-handler`.  The entries are lists of their own, so
that `remove!` takes out the one that was found; a domain among the entries
before it is an error. -/
def removeIncompleteMethod (test : Method wordSize Class Object → Bool) :
    List (MethodEntry wordSize Class Object Library) →
      Option (List (MethodEntry wordSize Class Object Library))
  | [] => some []
  | .method m lib :: rest =>
      if test m then some rest
      else (removeIncompleteMethod test rest).map (.method m lib :: ·)
  | .domain _ :: _ => none

/-- The loop of `remove-incomplete-domain-handler`. -/
def findIncompleteDomain (program : Program wordSize Class Object Library)
    (frob : Domain wordSize Class Object Library) :
    List (DomainObject wordSize Class Object Library) →
      Option (Option (DomainObject wordSize Class Object Library))
  | [] => some none
  | d :: rest =>
      match domainMatch program.graph.toUniverse d.domain frob with
      | none => none
      | some true => some (some d)
      | some false => findIncompleteDomain program frob rest

/-- `remove!` on a list of domains: its value. -/
def removed (d : DomainObject wordSize Class Object Library)
    (old : List (DomainObject wordSize Class Object Library)) :
    List (DomainObject wordSize Class Object Library) :=
  old.filter fun other => other.identity ≠ d.identity

/-- What `remove!` leaves of the list itself, whose first cells it does not
change. -/
def leftover (d : DomainObject wordSize Class Object Library)
    (old : List (DomainObject wordSize Class Object Library)) :
    List (DomainObject wordSize Class Object Library) :=
  (old.takeWhile fun other => other.identity = d.identity) ++
    removed d (old.dropWhile fun other => other.identity = d.identity)

/-- `remove-incomplete-domain-handler`: the value of `remove!` is stored in the
table of methods. -/
def removeIncompleteDomain (program : Program wordSize Class Object Library)
    (frob : Domain wordSize Class Object Library)
    (tables : Tables wordSize Class Object Library) :
    Report wordSize Class Object Library ×
      Tables wordSize Class Object Library :=
  match findIncompleteDomain program frob tables.domains with
  | none => (.failure, tables)
  | some none => (.conditions [], tables)
  | some (some d) =>
      (.conditions [],
        { tables with
          methods := (removed d tables.domains).map .domain
          domains := leftover d tables.domains })

/-! ## Steps -/

/-- What happens to a generic function. -/
inductive Event (wordSize : Nat) (Class Object Library : Type) where
  | addMethod (m : Method wordSize Class Object) (lib : Library)
      (typeComplete : Bool)
  | addDomain (d : DomainObject wordSize Class Object Library)
      (typeComplete : Bool)
  | completenessChange (complete : Completeness wordSize Class Object Library)
  | removeIncompleteMethod (test : Method wordSize Class Object → Bool)
  | removeIncompleteDomain (frob : Domain wordSize Class Object Library)

/-- One step. -/
def step (program : Program wordSize Class Object Library)
    (congruent : Method wordSize Class Object → Bool)
    (tables : Tables wordSize Class Object Library) :
    Event wordSize Class Object Library →
      Report wordSize Class Object Library ×
        Tables wordSize Class Object Library
  | .addMethod m lib typeComplete =>
      match addMethodInternal program congruent m lib typeComplete tables with
      | (none, tables) => (.failure, tables)
      | (some (_, condition), tables) => (.conditions condition.toList, tables)
  | .addDomain d typeComplete =>
      match addDomainInternal program d typeComplete tables with
      | (none, tables) => (.failure, tables)
      | (some lossage, tables) => (.conditions lossage, tables)
  | .completenessChange complete =>
      handleGenericCompletenessChange program congruent complete tables
  | .removeIncompleteMethod test =>
      match removeIncompleteMethod test tables.methods with
      | none => (.failure, tables)
      | some methods => (.conditions [], { tables with methods })
  | .removeIncompleteDomain frob =>
      removeIncompleteDomain program frob tables

/-- A run: the events happen one after the other. -/
def run (program : Program wordSize Class Object Library)
    (congruent : Method wordSize Class Object → Bool)
    (tables : Tables wordSize Class Object Library) :
    List (Event wordSize Class Object Library) →
      List (Report wordSize Class Object Library) ×
        Tables wordSize Class Object Library
  | [] => ([], tables)
  | event :: events =>
      let (report, tables) := step program congruent tables event
      let (reports, tables) := run program congruent tables events
      (report :: reports, tables)

/-- A generic function for which nothing has been put off. -/
def newTables (state : State wordSize Class Object Library) :
    Tables wordSize Class Object Library :=
  { state, methods := [], domains := [] }

end Tables

end OpenDylan.Runtime.DeferredAdditions
