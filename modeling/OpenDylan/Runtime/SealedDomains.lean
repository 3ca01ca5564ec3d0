import OpenDylan.Lib.Reachability
import OpenDylan.Runtime.Disjointness
import OpenDylan.Runtime.MethodTableInvariant

/-!
# Sealed domains

A sealed domain of a generic function keeps methods out whose specializers are
not disjoint from the domain, unless their library is visible from the library
of the domain.  An addition of a method looks at all domains, and an addition of
a domain at all methods.

The libraries visible from a library are computed once and kept with it.
-/

namespace OpenDylan.Runtime.SealedDomains

open OpenDylan.Lib.Reachability OpenDylan.Runtime.Types
open OpenDylan.Runtime.TypeTerms OpenDylan.Runtime.MethodTable
open OpenDylan.Runtime.Disjointness

/-! ## Libraries -/

/-- The libraries and `used-libraries`, which may be cyclic. -/
structure LibraryGraph (Library : Type) where
  libraries : List Library
  complete : ∀ library, library ∈ libraries
  usedLibraries : Library → List Library

/-- `all-used-libraries`, empty where it is not computed yet. -/
abbrev AllUsedLibraries (Library : Type) := Library → List Library

section Libraries

variable {Library : Type} [DecidableEq Library]

/-- `compute-all-used-libraries` -/
def LibraryGraph.computeAllUsedLibraries (graph : LibraryGraph Library)
    (usedvec ans : List Library) : List Library :=
  visit graph.usedLibraries graph.libraries.length usedvec ans

/-- `library-visible-from?` -/
def LibraryGraph.libraryVisibleFrom (graph : LibraryGraph Library)
    (isThisVisible fromThis : Library) (known : AllUsedLibraries Library) :
    Bool × AllUsedLibraries Library :=
  if isThisVisible = fromThis then
    (true, known)
  else if (known fromThis).length ≠ 0 then
    (isThisVisible ∈ known fromThis, known)
  else if (graph.usedLibraries fromThis).length = 0 then
    (false, known)
  else
    let visible := graph.computeAllUsedLibraries
      (graph.usedLibraries fromThis) [fromThis]
    (isThisVisible ∈ visible, Function.update known fromThis visible)

end Libraries

/-! ## Domains -/

section Domains

variable {wordSize : Nat} {Class Object Library : Type}

/-- A `<standalone-domain>`, or a `<method-domain>` over the specializers of a
method. -/
inductive Domain (wordSize : Nat) (Class Object Library : Type) where
  | standalone (library : Library)
      (types : List (DylanType wordSize Class Object))
  | method (library : Library) (m : Method wordSize Class Object)

/-- `domain-library` -/
def Domain.library : Domain wordSize Class Object Library → Library
  | .standalone library _ => library
  | .method library _ => library

/-- `domain-types` -/
def Domain.types :
    Domain wordSize Class Object Library →
      List (DylanType wordSize Class Object)
  | .standalone _ types => types
  | .method _ m => m.specializers

variable [DecidableEq Class] [DecidableEq Object]

/-- The loop of `domain-match?`, from the last type to the first. -/
def domainMatchLoop (world : Universe wordSize Class Object)
    (types1 types2 : List (DylanType wordSize Class Object)) :
    Nat → Option Bool
  | 0 => some true
  | i + 1 =>
      match types1[i]?, types2[i]? with
      | some type1, some type2 =>
          bothOf (world.sameSpecializer type1 type2)
            (domainMatchLoop world types1 types2 i)
      | _, _ => none

/-- `domain-match?` -/
def domainMatch (world : Universe wordSize Class Object) :
    Domain wordSize Class Object Library →
      Domain wordSize Class Object Library → Option Bool
  | .method library m, .standalone other types =>
      domainMatchLoop world types (Domain.method library m).types
        (Domain.standalone other types).types.length
  | d1, d2 => domainMatchLoop world d1.types d2.types d1.types.length

/-- `grounded-disjoint-types?` -/
def groundedDisjointTypes (graph : ClassGraph wordSize Class Object)
    (classes : ClassState Class) :
    DylanType wordSize Class Object → DylanType wordSize Class Object →
      Option Bool
  | .class c1, .class c2 =>
      graph.disjointTypes1 classes (.class c1) (.class c2)
  | type1, type2 =>
      graph.disjointTypes classes (.ofDylanType type1) (.ofDylanType type2)

/-- `domain-disjoint?`: one pair of types is disjoint. -/
def domainDisjoint (graph : ClassGraph wordSize Class Object)
    (classes : ClassState Class) :
    List (DylanType wordSize Class Object) →
      List (DylanType wordSize Class Object) → Option Bool
  | [], _ => some false
  | _ :: _, [] => none
  | type1 :: types1, type2 :: types2 =>
      eitherOf (groundedDisjointTypes graph classes type1 type2)
        (domainDisjoint graph classes types1 types2)

variable [DecidableEq Library]

/-- `lookup-domain`: the position of a domain of the same library that
matches. -/
def lookupDomain (world : Universe wordSize Class Object)
    (d : Domain wordSize Class Object Library) :
    List (Domain wordSize Class Object Library) → Nat → Option (Option Nat)
  | [], _ => some none
  | link :: links, position =>
      if d.library = link.library then
        match domainMatch world link d with
        | none => none
        | some true => some (some position)
        | some false => lookupDomain world d links (position + 1)
      else
        lookupDomain world d links (position + 1)

/-- `%add-domain-unconditionally` -/
def addDomainUnconditionally (world : Universe wordSize Class Object)
    (domains : List (Domain wordSize Class Object Library))
    (d : Domain wordSize Class Object Library) :
    Option (List (Domain wordSize Class Object Library)) :=
  match lookupDomain world d domains 0 with
  | none => none
  | some (some position) => some (domains.set position d)
  | some none => some (domains ++ [d])

end Domains

/-! ## Additions -/

/-- A generic function with its domains, and what is known of the libraries. -/
structure State (wordSize : Nat) (Class Object Library : Type) where
  gf : GenericFunction wordSize Class Object Library
  domains : List (Domain wordSize Class Object Library)
  known : AllUsedLibraries Library

/-- How an addition ends: done, refused with an error, put off until types are
complete, or with an error from a comparison of types. -/
inductive Outcome where
  | done
  | refused
  | postponed
  | failed
deriving DecidableEq

/-- Is an error signalled? -/
def Outcome.isError : Outcome → Bool
  | .refused => true
  | .failed => true
  | _ => false

/-- What the additions depend on. -/
structure Program (wordSize : Nat) (Class Object Library : Type) where
  graph : ClassGraph wordSize Class Object
  classes : ClassState Class
  libraries : LibraryGraph Library

section Additions

variable {wordSize : Nat} {Class Object Library : Type}
  [DecidableEq Class] [DecidableEq Object] [DecidableEq Library]

/-- The test in both additions: the library of a method is not visible from that
of a domain, and the types are not disjoint. -/
def Program.conflicts (program : Program wordSize Class Object Library)
    (d : Domain wordSize Class Object Library)
    (m : Method wordSize Class Object) (lib : Library)
    (known : AllUsedLibraries Library) :
    Option Bool × AllUsedLibraries Library :=
  match program.libraries.libraryVisibleFrom lib d.library known with
  | (true, known) => (some false, known)
  | (false, known) =>
      ((domainDisjoint program.graph program.classes d.types
        m.specializers).map not, known)

/-- `domain-conflict?` on an open generic function, for an incremental
addition. -/
def Program.domainConflict (program : Program wordSize Class Object Library)
    (m : Method wordSize Class Object) (lib : Library) :
    List (Domain wordSize Class Object Library) → AllUsedLibraries Library →
      Option Bool × AllUsedLibraries Library
  | [], known => (some false, known)
  | d :: domains, known =>
      match program.conflicts d m lib known with
      | (some false, known) => program.domainConflict m lib domains known
      | (answer, known) => (answer, known)

/-- `add-method-internal` with both checks. -/
def Program.addMethod (program : Program wordSize Class Object Library)
    (m : Method wordSize Class Object) (lib : Library)
    (typeComplete congruent : Bool)
    (state : State wordSize Class Object Library) :
    Outcome × State wordSize Class Object Library :=
  let (conflict, known) :=
    if state.gf.isSealed then
      (some false, state.known)
    else
      program.domainConflict m lib state.domains state.known
  match conflict with
  | none => (.failed, { state with known := known })
  | some domainConflictError =>
      let checks : Checks :=
        { checkSealing := true, domainConflictError := domainConflictError
          typeComplete := typeComplete, congruent := congruent }
      match addMethodInternal program.graph.toUniverse state.gf m lib
          checks with
      | none => (.failed, { state with known := known })
      | some gf =>
          (if methodNotFrobbable state.gf lib checks then .refused
            else if !typeComplete then .postponed
            else if !congruent then .refused
            else .done,
            { state with gf := gf, known := known })

/-- The loop over the methods in `%add-domains-internal`. -/
def Program.conflictingMethods (program : Program wordSize Class Object Library)
    (gf : GenericFunction wordSize Class Object Library)
    (d : Domain wordSize Class Object Library) :
    List (Method wordSize Class Object) → Nat →
      List (Method wordSize Class Object) → AllUsedLibraries Library →
      Option (List (Method wordSize Class Object)) × AllUsedLibraries Library
  | [], _, meths, known => (some meths, known)
  | m :: methods, i, meths, known =>
      let lib := (gf.methodLibraries[i]?).getD gf.incrementalGfLibrary
      match program.conflicts d m lib known with
      | (none, known) => (none, known)
      | (some true, known) =>
          program.conflictingMethods gf d methods (i + 1) (m :: meths) known
      | (some false, known) =>
          program.conflictingMethods gf d methods (i + 1) meths known

/-- One domain in `%add-domains-internal`. -/
def Program.addDomain (program : Program wordSize Class Object Library)
    (d : Domain wordSize Class Object Library) (typeComplete : Bool)
    (state : State wordSize Class Object Library) :
    Outcome × State wordSize Class Object Library :=
  let (foreign, known) :=
    if state.gf.isSealed then
      let (visible, known) := program.libraries.libraryVisibleFrom d.library
        state.gf.incrementalGfLibrary state.known
      (!visible, known)
    else
      (false, state.known)
  if foreign then
    (.refused, { state with known := known })
  else if typeComplete then
    match program.conflictingMethods state.gf d state.gf.methods 0 []
        known with
    | (none, known) => (.failed, { state with known := known })
    | (some (_ :: _), known) => (.refused, { state with known := known })
    | (some [], known) =>
        match addDomainUnconditionally program.graph.toUniverse state.domains
            d with
        | none => (.failed, { state with known := known })
        | some domains =>
            (.done, { state with domains := domains, known := known })
  else
    (.postponed, { state with known := known })

/-- `%add-domains-internal`, with the domains that are refused; a failing
comparison of types ends it. -/
def Program.addDomainsInternal
    (program : Program wordSize Class Object Library) :
    List (Domain wordSize Class Object Library × Bool) →
      List (Domain wordSize Class Object Library) →
      State wordSize Class Object Library →
      Option (List (Domain wordSize Class Object Library)) ×
        State wordSize Class Object Library
  | [], lossage, state => (some lossage, state)
  | (d, typeComplete) :: domains, lossage, state =>
      match program.addDomain d typeComplete state with
      | (.failed, state) => (none, state)
      | (.refused, state) =>
          program.addDomainsInternal domains (d :: lossage) state
      | (_, state) => program.addDomainsInternal domains lossage state

/-- What happens to a generic function. -/
inductive Addition (wordSize : Nat) (Class Object Library : Type) where
  | method (m : Method wordSize Class Object) (lib : Library)
      (typeComplete congruent : Bool)
  | domains (domains : List (Domain wordSize Class Object Library × Bool))

/-- One addition. -/
def Program.step (program : Program wordSize Class Object Library)
    (state : State wordSize Class Object Library) :
    Addition wordSize Class Object Library →
      State wordSize Class Object Library
  | .method m lib typeComplete congruent =>
      (program.addMethod m lib typeComplete congruent state).2
  | .domains domains => (program.addDomainsInternal domains [] state).2

/-- A run: the additions happen one after the other. -/
def Program.run (program : Program wordSize Class Object Library)
    (state : State wordSize Class Object Library) :
    List (Addition wordSize Class Object Library) →
      State wordSize Class Object Library
  | [] => state
  | addition :: additions =>
      program.run (program.step state addition) additions

/-- A new open generic function; no library has been asked for others. -/
def newState (library : Library) : State wordSize Class Object Library :=
  { gf := makeGenericFunction library false
    domains := []
    known := fun _ => [] }

end Additions

end OpenDylan.Runtime.SealedDomains
