import OpenDylan.Lib.NestedWalk

/-!
# Local exits

`analyze-block` decides whether all exits to the entry of a block may be
jumps: they are in the lambda of the block, and the search through the body of
the block finds none of them inside the body of another block.  Only the links
of computations, their environments and the entry states are kept; the bodies
of conditionals, loops and blocks are computations, never `#f`.
-/

namespace OpenDylan.Compiler.LocalExits

open OpenDylan.Lib

/-! ## Computations -/

/-- The classes of computations that the search tells apart. -/
inductive Kind where
  | straight
  | exit (entryState : Nat)
  | if (consequent alternative : Nat)
  | loop (loopBody : Nat)
  | bindExit (body : Nat)
  | unwindProtect (body cleanups : Nat)
deriving DecidableEq

/-- The computations and entry states of a program. -/
structure Graph where
  kind : Nat → Kind
  nextComputation : Nat → Option Nat
  environment : Nat → Nat
  /-- The block of an entry state. -/
  generator : Nat → Nat
  exits : Nat → List Nat
  localEntryState : Nat → Bool

/-- A lambda with its environment. -/
structure Lambda where
  body : Nat
  environment : Nat
  /-- The entry states of the environment. -/
  entries : List Nat

/-! ## Walking -/

/-- The bodies that are walked after a computation, in order. -/
def Kind.bodies : Kind → List Nat
  | .straight => []
  | .exit _ => []
  | .if consequent alternative => [consequent, alternative]
  | .loop loopBody => [loopBody]
  | .bindExit body => [body]
  | .unwindProtect body cleanups => [body, cleanups]

/-- `body` of a `<block>`. -/
def Kind.blockBody : Kind → Option Nat
  | .bindExit body => some body
  | .unwindProtect body _ => some body
  | _ => none

/-- The walks of a list of bodies that end at `last`. -/
def walkBodies (walk : Nat → Option Nat → Option (List Nat))
    (last : Option Nat) : List Nat → Option (List Nat)
  | [] => some []
  | body :: bodies =>
      match walk body last, walkBodies walk last bodies with
      | some first, some rest => some (first ++ rest)
      | _, _ => none

/-- `do-walk-computations`: the computations visited, `none` when the fuel
runs out. -/
def doWalkComputations (g : Graph) :
    Nat → Nat → Option Nat → Option (List Nat)
  | 0, _, _ => none
  | fuel + 1, c, last =>
      if last = some c then
        some []
      else
        -- `walk-computation`
        match walkBodies (doWalkComputations g fuel) (g.nextComputation c)
            (g.kind c).bodies with
        | none => none
        | some inside =>
            match g.nextComputation c with
            | none => some (c :: inside)
            | some cc =>
                (doWalkComputations g fuel cc last).map
                  fun rest => c :: (inside ++ rest)

/-! ## The search -/

/-- Dylan's `|` on answers that may be missing. -/
def orAnswer (left right : Option Bool) : Option Bool :=
  match left with
  | some false => right
  | _ => left

/-- `exit-with-intervening-block?`, where `search` is
`computations-exit-with-intervening-block?` up to the next computation. -/
def exitWithInterveningBlock (search : Nat → Bool → Option Bool)
    (entry : Nat) (intervening : Bool) : Kind → Option Bool
  | .straight => some false
  | .exit entryState => some (entryState = entry && intervening)
  | .if consequent alternative =>
      orAnswer (search consequent intervening)
        (search alternative intervening)
  | .loop loopBody => search loopBody intervening
  | .bindExit body => search body true
  | .unwindProtect body cleanups =>
      orAnswer (search body true) (search cleanups intervening)

/-- `computations-exit-with-intervening-block?`; `none` when the fuel runs
out. -/
def computationsExitWithInterveningBlock (g : Graph) (entry : Nat) :
    Nat → Nat → Option Nat → Bool → Option Bool
  | 0, _, _, _ => none
  | fuel + 1, c, last, intervening =>
      if last = some c then
        some false
      else
        orAnswer
          (exitWithInterveningBlock
            (fun body intervening =>
              computationsExitWithInterveningBlock g entry fuel body
                (g.nextComputation c) intervening)
            entry intervening (g.kind c))
          (match g.nextComputation c with
            | none => some false
            | some next =>
                computationsExitWithInterveningBlock g entry fuel next last
                  intervening)

/-- `local-exit?` -/
def localExit (g : Graph) (env exit : Nat) : Bool :=
  g.environment exit = env

/-- Set `local-entry-state?`. -/
def Graph.setLocal (g : Graph) (entry : Nat) (answer : Bool) : Graph :=
  { g with localEntryState := Function.update g.localEntryState entry answer }

/-- `analyze-block`; an error when the generator of the entry state is not a
block. -/
def analyzeBlock (g : Graph) (fuel env entry : Nat) : Option Graph :=
  match (g.kind (g.generator entry)).blockBody with
  | none => none
  | some body =>
      if (g.exits entry).all (localExit g env) then
        (computationsExitWithInterveningBlock g entry fuel body
          (g.nextComputation (g.generator entry)) false).map
            fun found => g.setLocal entry (!found)
      else
        some (g.setLocal entry false)

/-- The loop of `analyze-environments` over the entries of a lambda. -/
def analyzeEntries (g : Graph) (fuel env : Nat) : List Nat → Option Graph
  | [] => some g
  | entry :: entries =>
      (analyzeBlock g fuel env entry).bind
        fun g => analyzeEntries g fuel env entries

end OpenDylan.Compiler.LocalExits

/-!
# What the local exit analysis decides

The search answers whether it meets an exit to the entry with the flag set, or
inside the body of a block that it meets itself.  So `analyze-block` marks an
entry as local if and only if all its exits are in the lambda and none is
nested in the body of another block inside the body of its own.
-/

namespace OpenDylan.Compiler.LocalExits

open OpenDylan.Lib

variable {g : Graph} {entry : Nat}

/-! ## The computations of a body -/

/-- The walk from `start` up to `stop` visits a computation. -/
abbrev Graph.Visits (g : Graph) : Nat → Option Nat → Nat → Prop :=
  NestedWalk.Visits g.nextComputation fun c => (g.kind c).bodies

/-- The walk from `start` up to `stop` ends. -/
abbrev Graph.Ends (g : Graph) : Nat → Option Nat → Prop :=
  NestedWalk.Ends g.nextComputation fun c => (g.kind c).bodies

/-- Between `start` and `stop`, a computation is in the protected body of a
block. -/
abbrev Graph.Protected (g : Graph) : Nat → Option Nat → Nat → Prop :=
  NestedWalk.Under g.nextComputation (fun c => (g.kind c).bodies)
    fun c => (g.kind c).blockBody

theorem Graph.visits_iff {start node : Nat} {stop : Option Nat} :
    g.Visits start stop node ↔ stop ≠ some start ∧
      (node = start ∨
        (∃ body ∈ (g.kind start).bodies,
          g.Visits body (g.nextComputation start) node) ∨
        ∃ following, g.nextComputation start = some following ∧
          g.Visits following stop node) :=
  NestedWalk.visits_iff

theorem Kind.blockBody_mem {kind : Kind} {body : Nat}
    (block : kind.blockBody = some body) : body ∈ kind.bodies := by
  cases kind <;> simp_all [Kind.blockBody, Kind.bodies]

theorem walkBodies_sound {walk : Nat → Option Nat → Option (List Nat)}
    {visits : Nat → Nat → Prop} {ends : Nat → Prop} {last : Option Nat}
    {bodies nodes : List Nat}
    (sound : ∀ body nodes, walk body last = some nodes →
      ends body ∧ ∀ node, node ∈ nodes ↔ visits body node)
    (walked : walkBodies walk last bodies = some nodes) :
    (∀ body ∈ bodies, ends body) ∧
      ∀ node, node ∈ nodes ↔ ∃ body ∈ bodies, visits body node := by
  induction bodies generalizing nodes with
  | nil =>
      cases walked
      simp
  | cons body bodies ih =>
      rw [walkBodies] at walked
      cases firstEq : walk body last with
      | none => simp [firstEq] at walked
      | some first =>
          cases restEq : walkBodies walk last bodies with
          | none => simp [firstEq, restEq] at walked
          | some rest =>
              simp only [firstEq, restEq, Option.some.injEq] at walked
              subst walked
              obtain ⟨firstEnds, firstMem⟩ := sound body first firstEq
              obtain ⟨restEnds, restMem⟩ := ih restEq
              constructor
              · exact List.forall_mem_cons.mpr ⟨firstEnds, restEnds⟩
              · intro node
                rw [List.mem_append, firstMem, restMem]
                simp

/-- A walk that answers has come to the end of the body. -/
theorem doWalkComputations_sound {fuel start : Nat} {stop : Option Nat}
    {nodes : List Nat}
    (walked : doWalkComputations g fuel start stop = some nodes) :
    g.Ends start stop ∧ ∀ node, node ∈ nodes ↔ g.Visits start stop node := by
  induction fuel generalizing start stop nodes with
  | zero => simp [doWalkComputations] at walked
  | succ fuel ih =>
      rw [doWalkComputations] at walked
      split at walked
      · rename_i here
        cases walked
        subst here
        exact ⟨.stop start, by simp⟩
      · rename_i before
        cases insideEq : walkBodies (doWalkComputations g fuel)
            (g.nextComputation start) (g.kind start).bodies with
        | none => simp [insideEq] at walked
        | some inside =>
            obtain ⟨insideEnds, insideMem⟩ := walkBodies_sound
              (fun body nodes => ih) insideEq
            rw [insideEq] at walked
            cases successor : g.nextComputation start with
            | none =>
                simp only [successor, Option.some.injEq] at walked
                subst walked
                refine ⟨.step insideEnds (by simp [successor]), ?_⟩
                intro node
                rw [Graph.visits_iff, List.mem_cons, insideMem]
                simp [before, successor]
            | some following =>
                simp only [successor, Option.map_eq_some_iff] at walked
                obtain ⟨rest, restEq, rfl⟩ := walked
                obtain ⟨restEnds, restMem⟩ := ih restEq
                refine ⟨.step insideEnds ?_, ?_⟩
                · intro other same
                  rw [successor] at same
                  rw [← Option.some.inj same]
                  exact restEnds
                · intro node
                  rw [Graph.visits_iff, List.mem_cons, List.mem_append,
                    insideMem, restMem]
                  simp [before, successor]

/-! ## What the search finds -/

/-- An exit to the entry that is met with the flag set or under a block. -/
def Found (g : Graph) (entry start : Nat) (stop : Option Nat)
    (intervening : Bool) : Prop :=
  ∃ exit, g.kind exit = .exit entry ∧
    ((intervening = true ∧ g.Visits start stop exit) ∨
      g.Protected start stop exit)

theorem Found.mono {start : Nat} {stop : Option Nat} {intervening : Bool}
    (found : Found g entry start stop intervening) :
    Found g entry start stop true := by
  obtain ⟨exit, exits, ⟨-, visits⟩ | guarded⟩ := found
  · exact ⟨exit, exits, Or.inl ⟨rfl, visits⟩⟩
  · exact ⟨exit, exits, Or.inr guarded⟩

theorem found_true {start : Nat} {stop : Option Nat} :
    Found g entry start stop true ↔
      ∃ exit, g.kind exit = .exit entry ∧ g.Visits start stop exit := by
  constructor
  · rintro ⟨exit, exits, ⟨-, visits⟩ | guarded⟩
    · exact ⟨exit, exits, visits⟩
    · exact ⟨exit, exits, guarded.visits Kind.blockBody_mem⟩
  · rintro ⟨exit, exits, visits⟩
    exact ⟨exit, exits, Or.inl ⟨rfl, visits⟩⟩

theorem not_found_stop {c : Nat} {intervening : Bool} :
    ¬Found g entry c (some c) intervening := by
  rintro ⟨exit, -, ⟨-, visits⟩ | guarded⟩
  · exact NestedWalk.not_visits_stop visits
  · exact (NestedWalk.under_iff.mp guarded).1 rfl

/-- What is found at one computation. -/
def FoundAt (g : Graph) (entry c : Nat) (intervening : Bool) : Prop :=
  (g.kind c = .exit entry ∧ intervening = true) ∨
    (∃ body, (g.kind c).blockBody = some body ∧
      Found g entry body (g.nextComputation c) true) ∨
    ∃ body ∈ (g.kind c).bodies,
      Found g entry body (g.nextComputation c) intervening

theorem found_iff {c : Nat} {last : Option Nat} {intervening : Bool}
    (before : last ≠ some c) :
    Found g entry c last intervening ↔ FoundAt g entry c intervening ∨
      ∃ next, g.nextComputation c = some next ∧
        Found g entry next last intervening := by
  constructor
  · rintro ⟨exit, exits, ⟨flag, visits⟩ | guarded⟩
    · obtain ⟨-, rfl | ⟨body, member, visits⟩ | ⟨next, successor, visits⟩⟩ :=
        NestedWalk.visits_iff.mp visits
      · exact Or.inl (Or.inl ⟨exits, flag⟩)
      · exact Or.inl (Or.inr (Or.inr
          ⟨body, member, exit, exits, Or.inl ⟨flag, visits⟩⟩))
      · exact Or.inr ⟨next, successor, exit, exits, Or.inl ⟨flag, visits⟩⟩
    · obtain ⟨-, ⟨body, block, visits⟩ | ⟨body, member, guarded⟩ |
        ⟨next, successor, guarded⟩⟩ := NestedWalk.under_iff.mp guarded
      · exact Or.inl (Or.inr (Or.inl
          ⟨body, block, found_true.mpr ⟨exit, exits, visits⟩⟩))
      · exact Or.inl (Or.inr (Or.inr
          ⟨body, member, exit, exits, Or.inr guarded⟩))
      · exact Or.inr ⟨next, successor, exit, exits, Or.inr guarded⟩
  · rintro ((⟨exits, flag⟩ | ⟨body, block, found⟩ |
      ⟨body, member, exit, exits, reached⟩) |
      ⟨next, successor, exit, exits, reached⟩)
    · exact ⟨c, exits, Or.inl ⟨flag, .here before⟩⟩
    · obtain ⟨exit, exits, visits⟩ := found_true.mp found
      refine ⟨exit, exits, Or.inr ?_⟩
      exact NestedWalk.under_iff.mpr
        ⟨before, Or.inl ⟨body, block, visits⟩⟩
    · refine ⟨exit, exits, ?_⟩
      rcases reached with ⟨flag, visits⟩ | guarded
      · exact Or.inl ⟨flag, .inside before member visits⟩
      · exact Or.inr (NestedWalk.under_iff.mpr
          ⟨before, Or.inr (Or.inl ⟨body, member, guarded⟩)⟩)
    · refine ⟨exit, exits, ?_⟩
      rcases reached with ⟨flag, visits⟩ | guarded
      · exact Or.inl ⟨flag, .later before successor visits⟩
      · exact Or.inr (NestedWalk.under_iff.mpr
          ⟨before, Or.inr (Or.inr ⟨next, successor, guarded⟩)⟩)

/-- An answer that decides a proposition. -/
def Answers (answer : Option Bool) (holds : Prop) : Prop :=
  ∃ value, answer = some value ∧ (value = true ↔ holds)

theorem Answers.or {left right : Option Bool} {first second : Prop}
    (here : Answers left first) (there : Answers right second) :
    Answers (orAnswer left right) (first ∨ second) := by
  obtain ⟨value, rfl, meaning⟩ := here
  cases value with
  | false =>
      obtain ⟨other, rfl, otherMeaning⟩ := there
      exact ⟨other, rfl, by simp_all⟩
  | true => exact ⟨true, rfl, by simp_all⟩

theorem Answers.congr {answer : Option Bool} {first second : Prop}
    (answers : Answers answer first) (same : first ↔ second) :
    Answers answer second := by
  obtain ⟨value, rfl, meaning⟩ := answers
  exact ⟨value, rfl, meaning.trans same⟩

/-- One computation, class by class. -/
theorem exitWithInterveningBlock_answers
    {search : Nat → Bool → Option Bool} {c : Nat} {intervening : Bool}
    (answers : ∀ body ∈ (g.kind c).bodies, ∀ flag,
      Answers (search body flag)
        (Found g entry body (g.nextComputation c) flag)) :
    Answers (exitWithInterveningBlock search entry intervening (g.kind c))
      (FoundAt g entry c intervening) := by
  cases kind : g.kind c with
  | straight =>
      refine ⟨false, rfl, ?_⟩
      simp [FoundAt, kind, Kind.blockBody, Kind.bodies]
  | exit entryState =>
      refine ⟨_, rfl, ?_⟩
      simp [FoundAt, kind, Kind.blockBody, Kind.bodies]
  | «if» consequent alternative =>
      rw [kind] at answers
      apply ((answers consequent (by simp [Kind.bodies]) intervening).or
        (answers alternative (by simp [Kind.bodies]) intervening)).congr
      simp [FoundAt, kind, Kind.blockBody, Kind.bodies]
  | loop loopBody =>
      rw [kind] at answers
      apply (answers loopBody (by simp [Kind.bodies]) intervening).congr
      simp [FoundAt, kind, Kind.blockBody, Kind.bodies]
  | bindExit body =>
      rw [kind] at answers
      apply (answers body (by simp [Kind.bodies]) true).congr
      simp only [FoundAt, kind, Kind.blockBody, Kind.bodies]
      constructor
      · exact fun found => Or.inr (Or.inl ⟨body, rfl, found⟩)
      · rintro (⟨⟨⟩, -⟩ | ⟨_, ⟨⟩, found⟩ | ⟨other, member, found⟩)
        · exact found
        · rw [List.mem_singleton.mp member] at found
          exact found.mono
  | unwindProtect body cleanups =>
      rw [kind] at answers
      apply ((answers body (by simp [Kind.bodies]) true).or
        (answers cleanups (by simp [Kind.bodies]) intervening)).congr
      simp only [FoundAt, kind, Kind.blockBody, Kind.bodies]
      constructor
      · rintro (found | found)
        · exact Or.inr (Or.inl ⟨body, rfl, found⟩)
        · exact Or.inr (Or.inr ⟨cleanups, by simp, found⟩)
      · rintro (⟨⟨⟩, -⟩ | ⟨_, ⟨⟩, found⟩ | ⟨other, member, found⟩)
        · exact Or.inl found
        · rcases List.mem_pair.mp member with rfl | rfl
          · exact Or.inl found.mono
          · exact Or.inr found

/-- The search of a well-linked body, whatever the flag. -/
theorem computationsExitWithInterveningBlock_answers (entry : Nat)
    {start : Nat} {stop : Option Nat} (ends : g.Ends start stop) :
    ∃ least, ∀ fuel ≥ least, ∀ intervening,
      Answers (computationsExitWithInterveningBlock g entry fuel start stop
        intervening) (Found g entry start stop intervening) := by
  apply ends.enough
  · intro c fuel intervening
    refine ⟨false, by simp [computationsExitWithInterveningBlock], ?_⟩
    simp [not_found_stop]
  · intro c last fuel before inside later intervening
    rw [computationsExitWithInterveningBlock, if_neg before]
    apply ((exitWithInterveningBlock_answers inside).or _).congr
      (found_iff before).symm
    cases successor : g.nextComputation c with
    | none => exact ⟨false, rfl, by simp⟩
    | some next => simpa using later next successor intervening

/-! ## The analysis -/

/-- An entry state of a lambda: the walk of the lambda's body ends and meets
the block of the entry, the computations it meets have the environment of the
lambda, and the exits to the entry that it meets are registered. -/
structure WellFormed (g : Graph) (lambda : Lambda) (entry : Nat) : Prop where
  ends : g.Ends lambda.body none
  placed : g.Visits lambda.body none (g.generator entry)
  block : (g.kind (g.generator entry)).blockBody.isSome
  environment : ∀ c, g.Visits lambda.body none c →
    g.environment c = lambda.environment
  registered : ∀ exit, g.Visits lambda.body none exit →
    g.kind exit = .exit entry → exit ∈ g.exits entry
  exits : ∀ exit ∈ g.exits entry, g.kind exit = .exit entry

/-- A computation lies in the lambda whose environment it has. -/
def LiesIn (g : Graph) (lambda : Lambda) (c : Nat) : Prop :=
  g.environment c = lambda.environment

/-- Between the block of the entry and the exit there is the protected body
of another block. -/
def Intervened (g : Graph) (entry exit : Nat) : Prop :=
  ∃ body, (g.kind (g.generator entry)).blockBody = some body ∧
    g.Protected body (g.nextComputation (g.generator entry)) exit

/-- All exits to the entry lie in the lambda and no other block intervenes. -/
def AllLocal (g : Graph) (lambda : Lambda) (entry : Nat) : Prop :=
  ∀ exit ∈ g.exits entry, LiesIn g lambda exit ∧ ¬Intervened g entry exit

/-- The search in the body of the block finds an exit if and only if a block
intervenes before a registered one. -/
theorem WellFormed.search {lambda : Lambda}
    (wellFormed : WellFormed g lambda entry) {body : Nat}
    (block : (g.kind (g.generator entry)).blockBody = some body) :
    ∃ least, ∀ fuel ≥ least,
      Answers (computationsExitWithInterveningBlock g entry fuel body
          (g.nextComputation (g.generator entry)) false)
        (∃ exit ∈ g.exits entry, Intervened g entry exit) := by
  have isBody := Kind.blockBody_mem block
  obtain ⟨least, search⟩ :=
    computationsExitWithInterveningBlock_answers entry
      (wellFormed.ends.body wellFormed.placed isBody)
  refine ⟨least, fun fuel above => (search fuel above false).congr ?_⟩
  constructor
  · rintro ⟨exit, exits, ⟨⟨⟩, -⟩ | guarded⟩
    refine ⟨exit, ?_, body, block, guarded⟩
    apply wellFormed.registered exit _ exits
    exact wellFormed.placed.trans isBody (guarded.visits Kind.blockBody_mem)
  · rintro ⟨exit, member, other, otherBlock, guarded⟩
    rw [block] at otherBlock
    rw [← Option.some.inj otherBlock] at guarded
    exact ⟨exit, wellFormed.exits exit member, Or.inr guarded⟩

/-- `analyze-block` changes only the mark of its entry, and marks the entry as
local if and only if all exits to it are. -/
theorem analyze_block_local {lambda : Lambda}
    (wellFormed : WellFormed g lambda entry) :
    ∃ least, ∀ fuel ≥ least, ∃ isLocal,
      analyzeBlock g fuel lambda.environment entry =
          some (g.setLocal entry isLocal) ∧
        (isLocal = true ↔ AllLocal g lambda entry) := by
  obtain ⟨body, block⟩ := Option.isSome_iff_exists.mp wellFormed.block
  obtain ⟨least, search⟩ := wellFormed.search block
  refine ⟨least, fun fuel above => ?_⟩
  obtain ⟨found, searched, meaning⟩ := search fuel above
  rw [analyzeBlock, block]
  dsimp only
  split
  · rename_i lies
    rw [List.all_eq_true] at lies
    refine ⟨!found, by rw [searched]; rfl, ?_⟩
    rw [Bool.not_eq_true', ← Bool.not_eq_true, meaning]
    constructor
    · intro free exit member
      have same : g.environment exit = lambda.environment :=
        of_decide_eq_true (lies exit member)
      exact ⟨same, fun intervened => free ⟨exit, member, intervened⟩⟩
    · rintro all ⟨exit, member, intervened⟩
      exact (all exit member).2 intervened
  · rename_i outside
    refine ⟨false, rfl, ?_⟩
    constructor
    · exact fun impossible => absurd impossible (by simp)
    · intro all
      apply absurd _ outside
      rw [List.all_eq_true]
      intro exit member
      have lies : g.environment exit = lambda.environment :=
        (all exit member).1
      exact decide_eq_true lies

/-- A lambda with a `<bind-exit>` (1); one exit to it (3) is in a branch, the
other (11) in the cleanups of an `<unwind-protect>`. -/
def cleanupJumps : Graph where
  kind
    | 1 => .bindExit 2
    | 2 => .if 3 4
    | 3 => .exit 0
    | 5 => .unwindProtect 10 11
    | 11 => .exit 0
    | _ => .straight
  nextComputation
    | 0 => some 1
    | 1 => some 8
    | 2 => some 4
    | 3 => some 4
    | 4 => some 5
    | 5 => some 6
    | 8 => some 9
    | _ => none
  environment _ := 0
  generator _ := 1
  exits _ := [3, 11]
  localEntryState _ := false

/-- The analysis of `cleanupJumps`. -/
theorem analyze_block_local_cleanups :
    ∃ least, ∀ fuel ≥ least, ∃ isLocal,
      analyzeBlock cleanupJumps fuel 0 0 =
          some (cleanupJumps.setLocal 0 isLocal) ∧
        (isLocal = true ↔ AllLocal cleanupJumps ⟨0, 0, [0]⟩ 0) := by
  have walked : doWalkComputations cleanupJumps 9 0 none =
      some [0, 1, 2, 3, 4, 5, 10, 11, 6, 8, 9] := by
    decide
  obtain ⟨ends, visits⟩ := doWalkComputations_sound walked
  have exits : ∀ c, cleanupJumps.kind c = .exit 0 → c ∈ [3, 11] := by
    intro c exits
    simp only [cleanupJumps] at exits
    split at exits <;> simp_all
  apply @analyze_block_local cleanupJumps 0 ⟨0, 0, [0]⟩
  constructor
  · exact ends
  · exact (visits 1).mp (by decide)
  · rfl
  · exact fun _ _ => rfl
  · exact fun exit _ => exits exit
  · decide

end OpenDylan.Compiler.LocalExits
