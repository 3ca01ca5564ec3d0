import OpenDylan.Runtime.Types

/-!
# The method table of an incremental generic function

An incremental generic function keeps its methods in one sequence and, for a
prefix of it, the library that each method was added from in another; methods
past the end of the second sequence belong to the generic function's own
library.  Adding a method replaces a method with the same specializers, which
moves methods around so that the two sequences stay aligned.

Calls fill the discriminator and the tracked call-site caches.  A cached engine
is represented by the methods that it can call; a miss extends an engine by
methods of the table.
-/

namespace OpenDylan.Runtime.MethodTable

open OpenDylan.Runtime.Types

variable {wordSize : Nat} {Class Object Library : Type}

/-! ## The generic function -/

/-- A method object with its required specializers. -/
structure Method (wordSize : Nat) (Class Object : Type) where
  identity : Nat
  specializers : List (DylanType wordSize Class Object)
deriving DecidableEq

/-- A dispatch engine: not computed yet, or able to call some methods. -/
inductive Engine (wordSize : Nat) (Class Object : Type) where
  | absent
  | cached (methods : List (Method wordSize Class Object))
deriving DecidableEq

/-- The methods that a call through an engine can reach. -/
def Engine.methods :
    Engine wordSize Class Object → List (Method wordSize Class Object)
  | .absent => []
  | .cached methods => methods

/-- An `<incremental-generic-function>`. -/
structure GenericFunction (wordSize : Nat) (Class Object Library : Type) where
  incrementalGfLibrary : Library
  isSealed : Bool
  methods : List (Method wordSize Class Object)
  methodLibraries : List Library
  discriminator : Engine wordSize Class Object
  /-- The next engines of the call-site caches in `gf-cache-info-users`; an
  entry of the vector may be unused. -/
  cacheUsers : List (Option (Engine wordSize Class Object))

/-- `decache-gf` -/
def decacheGf (g : GenericFunction wordSize Class Object Library) :
    GenericFunction wordSize Class Object Library :=
  { g with
    discriminator := .absent
    cacheUsers := g.cacheUsers.map
      (fun user => user.map (fun _ => .absent)) }

/-- `finalize-generic-function`: the entry points do not depend on the
methods. -/
def finalizeGenericFunction
    (g : GenericFunction wordSize Class Object Library) :
    GenericFunction wordSize Class Object Library :=
  decacheGf g

/-- `copy-over-without` -/
def copyOverWithout {Entry : Type} (sequence : List Entry) (index : Nat) :
    List Entry :=
  sequence.take index ++ sequence.drop (index + 1)

/-- `for (i from index below stop) meths[i] := meths[i + 1] end` -/
def shiftDown {Entry : Type} (sequence : List Entry) (index : Nat) :
    Nat → List Entry
  | 0 => sequence
  | count + 1 =>
      match sequence[index + 1]? with
      | some next => shiftDown (sequence.set index next) (index + 1) count
      | none => sequence

section Operations

variable [DecidableEq Class] [DecidableEq Object] [DecidableEq Library]

/-- The inner loop of `locate-method`. -/
def sameSpecializers (world : Universe wordSize Class Object) :
    List (DylanType wordSize Class Object) →
      List (DylanType wordSize Class Object) → Option Bool
  | _, [] => some true
  | [], _ :: _ => none
  | own :: ownRest, spec :: specRest =>
      bothOf (world.sameSpecializer own spec)
        (sameSpecializers world ownRest specRest)

/-- `locate-method`: the first method with the given specializers. -/
def locateMethod (world : Universe wordSize Class Object)
    (specializers : List (DylanType wordSize Class Object)) :
    List (Method wordSize Class Object) → Nat →
      Option (Option (Method wordSize Class Object × Nat))
  | [], _ => some none
  | method :: methods, index =>
      match sameSpecializers world method.specializers specializers with
      | none => none
      | some true => some (some (method, index))
      | some false => locateMethod world specializers methods (index + 1)

/-- `%add-method-and-library` -/
def addMethodAndLibrary (g : GenericFunction wordSize Class Object Library)
    (m : Method wordSize Class Object) (lib : Library) :
    GenericFunction wordSize Class Object Library :=
  { g with
    methodLibraries := lib :: g.methodLibraries
    methods := m :: g.methods }

/-- The replacement of the method at `idx` in
`add-method-internal-internal`. -/
def replaceMethod (g : GenericFunction wordSize Class Object Library)
    (m : Method wordSize Class Object) (lib : Library) (idx : Nat) :
    GenericFunction wordSize Class Object Library :=
  let glib := g.incrementalGfLibrary
  let libs := g.methodLibraries
  let nlibs := libs.length
  let meths := g.methods
  if idx < nlibs then
    if lib ≠ glib then
      -- Both the old and the new method have their library stored.
      { g with
        methodLibraries := libs.set idx lib
        methods := meths.set idx m }
    else
      -- The old method had its library stored, the new one has not.
      { g with
        methods :=
          (shiftDown meths idx (nlibs - 1 - idx)).set (nlibs - 1) m
        methodLibraries := copyOverWithout libs idx }
  else if lib ≠ glib then
    -- The new method has its library stored, the old one had not.
    { g with
      methodLibraries := libs ++ [lib]
      methods :=
        if idx ≠ nlibs then
          match meths[nlibs]? with
          | some other => (meths.set idx other).set nlibs m
          | none => meths
        else
          meths }
  else
    -- Both methods belong to the library of the generic function.
    { g with methods := meths.set idx m }

/-- `add-method-internal-internal`; `none` when a comparison of specializers
signals an error, which leaves the generic function alone. -/
def addMethodInternalInternal (world : Universe wordSize Class Object)
    (g : GenericFunction wordSize Class Object Library)
    (m : Method wordSize Class Object) (lib : Library) :
    Option (GenericFunction wordSize Class Object Library) :=
  match locateMethod world m.specializers g.methods 0 with
  | none => none
  | some (some (_, idx)) =>
      some (finalizeGenericFunction (replaceMethod g m lib idx))
  | some none =>
      some (finalizeGenericFunction (addMethodAndLibrary g m lib))

/-- What the checks before a change answer: whether sealing is checked at all,
`domain-conflict?` on open generic functions, completeness, and congruency. -/
structure Checks where
  checkSealing : Bool
  domainConflictError : Bool
  typeComplete : Bool
  congruent : Bool

/-- `method-not-frobbable?`: is the reason an error? -/
def methodNotFrobbable (g : GenericFunction wordSize Class Object Library)
    (lib : Library) (checks : Checks) : Bool :=
  if g.isSealed then
    !(g.incrementalGfLibrary = lib)
  else
    checks.domainConflictError

/-- `add-method-internal`: a refused or incomplete method changes nothing. -/
def addMethodInternal (world : Universe wordSize Class Object)
    (g : GenericFunction wordSize Class Object Library)
    (m : Method wordSize Class Object) (lib : Library) (checks : Checks) :
    Option (GenericFunction wordSize Class Object Library) :=
  if checks.checkSealing && methodNotFrobbable g lib checks then
    some g
  else if !checks.typeComplete then
    some g
  else if !checks.congruent then
    some g
  else
    addMethodInternalInternal world g m lib

/-- Take out the method at `i`, and its library if that is stored. -/
def withoutMethodAt (g : GenericFunction wordSize Class Object Library)
    (i : Nat) : GenericFunction wordSize Class Object Library :=
  { g with
    methods := copyOverWithout g.methods i
    methodLibraries :=
      if i < g.methodLibraries.length then
        copyOverWithout g.methodLibraries i
      else
        g.methodLibraries }

/-- The loop of `remove-method-internal`. -/
def removeMethodAt (test : Method wordSize Class Object → Bool)
    (g : GenericFunction wordSize Class Object Library) :
    List (Method wordSize Class Object) → Nat →
      Option (Method wordSize Class Object) ×
        GenericFunction wordSize Class Object Library
  | [], _ => (none, g)
  | m :: rest, i =>
      if test m then
        (some m, withoutMethodAt g i)
      else
        removeMethodAt test g rest (i + 1)

/-- `remove-method-internal` -/
def removeMethodInternal
    (g : GenericFunction wordSize Class Object Library)
    (test : Method wordSize Class Object → Bool) (lib : Library)
    (checks : Checks) :
    Option (Method wordSize Class Object) ×
      GenericFunction wordSize Class Object Library :=
  if checks.checkSealing && methodNotFrobbable g lib checks then
    (none, g)
  else
    removeMethodAt test g g.methods 0

/-! ## Steps -/

/-- Where a call enters: the generic function, or a tracked call site. -/
inductive Site where
  | generic
  | callSite (index : Nat)

/-- What happens to a generic function. -/
inductive Event (wordSize : Nat) (Class Object Library : Type) where
  | addMethod (m : Method wordSize Class Object) (lib : Library)
      (checks : Checks)
  | removeMethod (test : Method wordSize Class Object → Bool) (lib : Library)
      (checks : Checks)
  | trackCallSite
  | missedDispatch (site : Site)
      (selected : List (Method wordSize Class Object))

/-- Extend an engine by the methods selected for a missed dispatch. -/
def Engine.extend (engine : Engine wordSize Class Object)
    (selected : List (Method wordSize Class Object)) :
    Engine wordSize Class Object :=
  .cached (engine.methods ++ selected)

/-- One step.  A missed dispatch selects methods of the table; a failing
addition leaves the generic function as it was. -/
def step (world : Universe wordSize Class Object)
    (g : GenericFunction wordSize Class Object Library) :
    Event wordSize Class Object Library →
      GenericFunction wordSize Class Object Library
  | .addMethod m lib checks =>
      (addMethodInternal world g m lib checks).getD g
  | .removeMethod test lib checks =>
      (removeMethodInternal g test lib checks).2
  | .trackCallSite => { g with cacheUsers := g.cacheUsers ++ [some .absent] }
  | .missedDispatch site selected =>
      let selected := selected.filter (· ∈ g.methods)
      match site with
      | .generic =>
          { g with discriminator := g.discriminator.extend selected }
      | .callSite index =>
          { g with
            cacheUsers := g.cacheUsers.modify index
              (fun user => user.map (fun engine => engine.extend selected)) }

/-- A run: the events happen one after the other. -/
def run (world : Universe wordSize Class Object)
    (g : GenericFunction wordSize Class Object Library) :
    List (Event wordSize Class Object Library) →
      GenericFunction wordSize Class Object Library
  | [] => g
  | event :: events => run world (step world g event) events

/-- A new generic function, without methods or caches. -/
def makeGenericFunction (library : Library) (isSealed : Bool) :
    GenericFunction wordSize Class Object Library :=
  { incrementalGfLibrary := library
    isSealed := isSealed
    methods := []
    methodLibraries := []
    discriminator := .absent
    cacheUsers := [] }

end Operations

end OpenDylan.Runtime.MethodTable
