import Mathlib.Logic.Relation
import OpenDylan.Lib.Copies

/-!
# Tail calls

`tail-position?` follows the computations after a call to the `<return>` of
the lambda.  It keeps the temporary that should hold the value of the call:
transfers are asked whether they read this temporary, merges are not.
`State` and `Step` say what the computations do that the test passes; the value
of a merge is the one of the side from which control enters it.
-/

namespace OpenDylan.Compiler.TailCalls

open OpenDylan.Lib.Copies

/-! ## Computations -/

/-- A `<value-reference>`: a temporary or another object. -/
abbrev ValueReference : Type := Reference Nat Nat

/-- The classes of computations that `returns-temporary?` tells apart.  Checks
of types are those of keyword arguments or others. -/
inductive Kind where
  | call
  | if
  | other
  | adjustMultipleValues (value : Option ValueReference)
  | checkType (value : Option ValueReference) (keyword : Bool)
  | temporaryTransfer (value : Option ValueReference)
  | return (value : Option ValueReference)
  | nop
  | loop (loopBody : Nat)
  /-- An `<if-merge>` or a `<bind-exit-merge>`. -/
  | merge (leftValue rightValue : Option ValueReference)
      (leftPrevious rightPrevious : Option Nat)
  | loopMerge (parameter argument : Option ValueReference)
  | endLoop (endingLoop : Nat)
deriving DecidableEq

/-- The computations of a lambda. -/
structure Graph where
  kind : Nat → Kind
  temporary : Nat → Option Nat
  nextComputation : Nat → Option Nat

/-! ## The test -/

/-- `returns-temporary?`; `none` when there is no method for `#f` as a
computation, or when the fuel runs out.  The methods for the special classes
are for a temporary, so the default one answers for `#f`. -/
def returnsTemporary (g : Graph) (compilingDylanLibrary : Bool) :
    Nat → Option Nat → Option Nat → Option Bool
  | 0, _, _ => none
  | _ + 1, none, _ => none
  | _ + 1, some _, none => some false
  | fuel + 1, some c, some t =>
      let next := returnsTemporary g compilingDylanLibrary fuel
        (g.nextComputation c)
      let transfer := fun value : Option ValueReference =>
        match value with
        | some (.variable source) =>
            if source = t then next (g.temporary c) else some false
        | _ => next (g.temporary c)
      match g.kind c with
      | .checkType value _ =>
          if compilingDylanLibrary then transfer value else some false
      | .temporaryTransfer value => transfer value
      | .return value => some (value = some (.variable t))
      | .nop => next (g.temporary c)
      | .loop _ => next (g.temporary c)
      | .merge _ _ _ _ => next (g.temporary c)
      | .loopMerge _ _ => next (g.temporary c)
      | .endLoop endingLoop =>
          returnsTemporary g compilingDylanLibrary fuel
            (g.nextComputation endingLoop) (some t)
      | _ => some false

/-- `tail-position?` -/
def tailPosition (g : Graph) (compilingDylanLibrary : Bool) (fuel c : Nat) :
    Option Bool :=
  returnsTemporary g compilingDylanLibrary fuel (g.nextComputation c)
    (g.temporary c)

/-! ## Executions -/

/-- A computation puts the value of a reference, or nothing, into its
temporary when control comes from `previous`. -/
inductive Reads (g : Graph) (previous c : Nat) :
    Option ValueReference → Prop where
  | transfer {value} (kind : g.kind c = .temporaryTransfer value) :
      Reads g previous c value
  | check {value keyword} (kind : g.kind c = .checkType value keyword) :
      Reads g previous c value
  | left {leftValue rightValue rightPrevious}
      (kind : g.kind c =
        .merge leftValue rightValue (some previous) rightPrevious) :
      Reads g previous c leftValue
  | right {leftValue rightValue leftPrevious}
      (kind : g.kind c =
        .merge leftValue rightValue leftPrevious (some previous)) :
      Reads g previous c rightValue
  /-- The first time round the loop. -/
  | parameter {parameter argument}
      (kind : g.kind c = .loopMerge parameter argument) :
      Reads g previous c parameter
  /-- After a loop call. -/
  | argument {parameter argument}
      (kind : g.kind c = .loopMerge parameter argument) :
      Reads g previous c argument

variable {Value : Type}

/-- Control is at a computation that it entered from the previous one. -/
structure State (Value : Type) where
  previous : Nat
  current : Nat
  store : Nat → Value

/-- A step of a computation that passes values through. -/
inductive Step (g : Graph) (constants : Nat → Value) :
    State Value → State Value → Prop where
  | copy {previous c next store source} (reads : Reads g previous c source)
      (successor : g.nextComputation c = some next) :
      Step g constants ⟨previous, c, store⟩
        ⟨c, next, Copy.perform constants ⟨g.temporary c, source⟩ store⟩
  | nop {previous c next store} (kind : g.kind c = .nop)
      (successor : g.nextComputation c = some next) :
      Step g constants ⟨previous, c, store⟩ ⟨c, next, store⟩
  | loop {previous c body store} (kind : g.kind c = .loop body) :
      Step g constants ⟨previous, c, store⟩ ⟨c, body, store⟩
  | endLoop {previous c loop next store} (kind : g.kind c = .endLoop loop)
      (successor : g.nextComputation loop = some next) :
      Step g constants ⟨previous, c, store⟩ ⟨loop, next, store⟩

/-- Several steps. -/
abbrev Steps (g : Graph) (constants : Nat → Value) :
    State Value → State Value → Prop :=
  Relation.ReflTransGen (Step g constants)

/-- Whether a computation passes values through without a side effect.  In the
Dylan library `emit-check-type?` keeps the checks of keyword arguments
only. -/
def Kind.passesThrough (compilingDylanLibrary : Bool) : Kind → Bool
  | .checkType _ keyword => compilingDylanLibrary && !keyword
  | .temporaryTransfer _ => true
  | .return _ => true
  | .nop => true
  | .loop _ => true
  | .merge _ _ _ _ => true
  | .loopMerge _ _ => true
  | .endLoop _ => true
  | _ => false

/-- From a call on, only computations that pass values through are executed,
up to a `<return>`, and the value returned is that of the call. -/
structure ReturnsValue (g : Graph) (compilingDylanLibrary : Bool)
    (constants : Nat → Value) (start : State Value) (value : Value) :
    Prop where
  pure : ∀ {state}, Steps g constants start state →
    (g.kind state.current).passesThrough compilingDylanLibrary = true
  progress : ∀ {state}, Steps g constants start state →
    (∃ source, g.kind state.current = .return source) ∨
      ∃ next, Step g constants state next
  returns : ∃ state source, Steps g constants start state ∧
    g.kind state.current = .return source
  same : ∀ {state source}, Steps g constants start state →
    g.kind state.current = .return source →
      ∃ reference, source = some reference ∧
        reference.evaluate constants state.store = value

/-- Replacing a call and everything after it by a jump changes nothing: this
is so for every store and every value of the call. -/
def Replaceable (g : Graph) (compilingDylanLibrary : Bool) (c : Nat) : Prop :=
  ∀ t next, g.temporary c = some t → g.nextComputation c = some next →
    ∀ (Value : Type) (constants : Nat → Value) (store : Nat → Value)
      (value : Value),
      ReturnsValue g compilingDylanLibrary constants
        ⟨c, next, Function.update store t value⟩ value

end OpenDylan.Compiler.TailCalls

/-!
# When the tail position test is right

A walk is a path from a computation to a `<return>` with the copies made on
it.  The test answers `#t` if and only if each transfer of a temporary on the
walk reads the temporary of the computation before it.  Nothing is asked of
what a merge reads, and nothing of a transfer of another object, so the answer
is right if and only if the last such computation takes the value of the call.
-/

namespace OpenDylan.Compiler.TailCalls

open OpenDylan.Lib.Copies

variable {g : Graph} {compilingDylanLibrary : Bool}

/-! ## Walks -/

/-- A computation on a walk and the copy that it makes there. -/
structure Move where
  computation : Nat
  copy : Copy Nat Nat
  /-- Whether the test compares what is read. -/
  compared : Bool

/-- Transfers are compared when they read a temporary. -/
def Kind.compares : Kind → Bool
  | .checkType (some (.variable _)) _ => true
  | .temporaryTransfer (some (.variable _)) => true
  | _ => false

/-- The move of a computation that reads `source`. -/
def Graph.move (g : Graph) (c : Nat) (source : Option ValueReference) :
    Move where
  computation := c
  copy := ⟨g.temporary c, source⟩
  compared := (g.kind c).compares

/-- The test goes on at checks of types only in the Dylan library. -/
def Admits (compilingDylanLibrary : Bool) : Kind → Prop
  | .checkType _ _ => compilingDylanLibrary = true
  | _ => True

/-- The moves from a computation to a `<return>`, and what that returns. -/
inductive Walk (g : Graph) (compilingDylanLibrary : Bool) :
    Nat → Nat → List Move → Option ValueReference → Prop where
  | return {previous c source} (kind : g.kind c = .return source) :
      Walk g compilingDylanLibrary previous c [] source
  | copy {previous c next source moves value}
      (reads : Reads g previous c source)
      (admits : Admits compilingDylanLibrary (g.kind c))
      (successor : g.nextComputation c = some next)
      (rest : Walk g compilingDylanLibrary c next moves value) :
      Walk g compilingDylanLibrary previous c (g.move c source :: moves)
        value
  | endLoop {previous c loop next moves value}
      (kind : g.kind c = .endLoop loop)
      (successor : g.nextComputation loop = some next)
      (rest : Walk g compilingDylanLibrary loop next moves value) :
      Walk g compilingDylanLibrary previous c moves value

/-- Each compared move reads the temporary before it, and the last temporary
is returned. -/
def Tracks : Option Nat → List Move → Option ValueReference → Prop
  | none, _, _ => False
  | some t, [], value => value = some (.variable t)
  | some t, move :: moves, value =>
      (move.compared = true → move.copy.source = some (.variable t)) ∧
        Tracks move.copy.target moves value

/-- The copies of a list of moves. -/
abbrev copies (moves : List Move) : List (Copy Nat Nat) :=
  moves.map Move.copy

theorem Tracks.exists_target {target : Option Nat} {moves : List Move}
    {value : Option ValueReference} (tracks : Tracks target moves value) :
    ∃ t, target = some t := by
  cases target with
  | none => exact absurd tracks (by simp [Tracks])
  | some t => exact ⟨t, rfl⟩

/-- When all moves are compared, the value at the start is returned. -/
theorem Tracks.returned {t : Nat} {moves : List Move}
    {value : Option ValueReference} (tracks : Tracks (some t) moves value)
    (compared : ∀ move ∈ moves, move.compared = true) :
    ∃ reference, value = some reference ∧
      readBack (copies moves) reference = .variable t := by
  induction moves generalizing t with
  | nil => exact ⟨_, tracks, rfl⟩
  | cons move moves ih =>
      obtain ⟨source, rest⟩ := tracks
      obtain ⟨target, targetEq⟩ := rest.exists_target
      rw [targetEq] at rest
      obtain ⟨reference, valueEq, back⟩ := ih rest fun other member =>
        compared other (List.mem_cons_of_mem _ member)
      refine ⟨reference, valueEq, ?_⟩
      show move.copy.readBack (readBack (copies moves) reference) = _
      rw [back]
      simp [Copy.readBack, targetEq,
        source (compared move (List.mem_cons_self ..))]

/-- Up to the last move that is not compared, the rest is a chain. -/
theorem Tracks.after {target : Option Nat} {before after : List Move}
    {swap : Move} {value : Option ValueReference}
    (tracks : Tracks target (before ++ swap :: after) value) :
    Tracks swap.copy.target after value := by
  induction before generalizing target with
  | nil =>
      obtain ⟨t, rfl⟩ := tracks.exists_target
      exact tracks.2
  | cons move before ih =>
      obtain ⟨t, rfl⟩ := tracks.exists_target
      exact ih tracks.2

/-- The last move that is not compared. -/
theorem exists_last_swap (moves : List Move) :
    (∀ move ∈ moves, move.compared = true) ∨
      ∃ before swap after, moves = before ++ swap :: after ∧
        swap.compared = false ∧ ∀ move ∈ after, move.compared = true := by
  induction moves with
  | nil => exact Or.inl (by simp)
  | cons move moves ih =>
      rcases ih with all | ⟨before, swap, after, rfl, swaps, all⟩
      · cases compared : move.compared with
        | true => exact Or.inl (List.forall_mem_cons.mpr ⟨compared, all⟩)
        | false => exact Or.inr ⟨[], move, moves, rfl, compared, all⟩
      · exact Or.inr ⟨move :: before, swap, after, rfl, swaps, all⟩

/-- The last move that is not compared, if there is one, takes the value that
the temporary had at the start. -/
def SwapKeeps (t : Nat) (moves : List Move) : Prop :=
  ∀ before swap after s, moves = before ++ swap :: after →
    swap.compared = false → (∀ move ∈ after, move.compared = true) →
      swap.copy.target = some s →
        readBack (copies (before ++ [swap])) (.variable s) = .variable t

theorem copies_split (before after : List Move) (swap : Move)
    (reference : ValueReference) :
    readBack (copies (before ++ swap :: after)) reference =
      readBack (copies (before ++ [swap]))
        (readBack (copies after) reference) := by
  rw [← readBack_append, ← List.map_append, List.append_assoc]
  rfl

/-- On a tracked walk, the value at the start is returned if and only if the
last move that is not compared takes it. -/
theorem Tracks.returned_iff {t : Nat} {moves : List Move}
    {value : Option ValueReference}
    (tracks : Tracks (some t) moves value) :
    (∃ reference, value = some reference ∧
      readBack (copies moves) reference = .variable t) ↔
      SwapKeeps t moves := by
  constructor
  · rintro ⟨reference, rfl, back⟩ before swap after s rfl swaps all target
    have chain := tracks.after
    rw [target] at chain
    obtain ⟨other, same, rest⟩ := chain.returned all
    rw [← Option.some.inj same] at rest
    rw [copies_split, rest] at back
    exact back
  · intro keeps
    rcases exists_last_swap moves with all |
      ⟨before, swap, after, rfl, swaps, all⟩
    · exact tracks.returned all
    · have chain := tracks.after
      obtain ⟨s, target⟩ := chain.exists_target
      rw [target] at chain
      obtain ⟨reference, valueEq, rest⟩ := chain.returned all
      refine ⟨reference, valueEq, ?_⟩
      rw [copies_split, rest]
      exact keeps before swap after s rfl swaps all target

/-! ## One step of the test -/

/-- The computations that copy a value into their temporary. -/
def Kind.copies : Kind → Bool
  | .checkType _ _ => true
  | .temporaryTransfer _ => true
  | .merge _ _ _ _ => true
  | .loopMerge _ _ => true
  | _ => false

/-- How the test gets past a computation while it keeps `t`. -/
inductive Passed (g : Graph) (compilingDylanLibrary : Bool)
    (fuel c t : Nat) : Prop where
  | return (kind : g.kind c = .return (some (.variable t)))
  | idle (kind : g.kind c = .nop ∨ ∃ body, g.kind c = .loop body)
      (rest : returnsTemporary g compilingDylanLibrary fuel
        (g.nextComputation c) (g.temporary c) = some true)
  | copy (copies : (g.kind c).copies = true)
      (admits : Admits compilingDylanLibrary (g.kind c))
      (compared : (g.kind c).compares = true → ∀ previous source,
        Reads g previous c source → source = some (.variable t))
      (rest : returnsTemporary g compilingDylanLibrary fuel
        (g.nextComputation c) (g.temporary c) = some true)
  | endLoop {loop} (kind : g.kind c = .endLoop loop)
      (rest : returnsTemporary g compilingDylanLibrary fuel
        (g.nextComputation loop) (some t) = some true)

/-- Only a temporary at a computation can be returned. -/
theorem returnsTemporary_some {fuel : Nat} {c t : Option Nat}
    (answer : returnsTemporary g compilingDylanLibrary fuel c t =
      some true) :
    ∃ less current kept, fuel = less + 1 ∧ c = some current ∧
      t = some kept := by
  cases fuel with
  | zero => simp [returnsTemporary] at answer
  | succ fuel =>
      cases c with
      | none => simp [returnsTemporary] at answer
      | some c =>
          cases t with
          | none => simp [returnsTemporary] at answer
          | some t => exact ⟨fuel, c, t, rfl, rfl, rfl⟩

/-- A transfer, of the value that it reads. -/
theorem Passed.of_transfer {fuel c t : Nat} {value : Option ValueReference}
    (answer : (match value with
      | some (.variable source) =>
          if source = t then
            returnsTemporary g compilingDylanLibrary fuel
              (g.nextComputation c) (g.temporary c)
          else some false
      | _ => returnsTemporary g compilingDylanLibrary fuel
          (g.nextComputation c) (g.temporary c)) = some true)
    (copies : (g.kind c).copies = true)
    (admits : Admits compilingDylanLibrary (g.kind c))
    (reads : ∀ previous source, Reads g previous c source → source = value)
    (compares : (g.kind c).compares = true →
      ∃ s, value = some (.variable s)) :
    Passed g compilingDylanLibrary fuel c t := by
  match value with
  | some (.variable source) =>
      dsimp only at answer
      split at answer
      · rename_i same
        subst same
        exact .copy copies admits (fun _ => reads) answer
      · simp at answer
  | some (.constant object) =>
      refine .copy copies admits (fun compared => ?_) answer
      obtain ⟨s, impossible⟩ := compares compared
      simp at impossible
  | none =>
      refine .copy copies admits (fun compared => ?_) answer
      obtain ⟨s, impossible⟩ := compares compared
      simp at impossible

theorem Reads.transfer_eq {previous c : Nat}
    {value source : Option ValueReference}
    (kind : g.kind c = .temporaryTransfer value)
    (reads : Reads g previous c source) : source = value := by
  cases reads <;> simp_all

theorem Reads.check_eq {previous c : Nat} {keyword : Bool}
    {value source : Option ValueReference}
    (kind : g.kind c = .checkType value keyword)
    (reads : Reads g previous c source) : source = value := by
  cases reads <;> simp_all

theorem Kind.compares_variable {kind : Kind} {value : Option ValueReference}
    (transfers : kind = .temporaryTransfer value ∨
      ∃ keyword, kind = .checkType value keyword)
    (compares : kind.compares = true) : ∃ s, value = some (.variable s) := by
  match value with
  | some (.variable s) => exact ⟨s, rfl⟩
  | some (.constant object) =>
      rcases transfers with rfl | ⟨keyword, rfl⟩ <;>
        simp [Kind.compares] at compares
  | none =>
      rcases transfers with rfl | ⟨keyword, rfl⟩ <;>
        simp [Kind.compares] at compares

theorem returnsTemporary_passed {fuel c t : Nat}
    (answer : returnsTemporary g compilingDylanLibrary (fuel + 1) (some c)
      (some t) = some true) : Passed g compilingDylanLibrary fuel c t := by
  rw [returnsTemporary] at answer
  cases kind : g.kind c with
  | call => simp [kind] at answer
  | «if» => simp [kind] at answer
  | other => simp [kind] at answer
  | adjustMultipleValues value => simp [kind] at answer
  | checkType value keyword =>
      cases compilingDylanLibrary with
      | false => simp [kind] at answer
      | true =>
          simp only [kind, if_true] at answer
          apply Passed.of_transfer answer (by rw [kind]; rfl)
            (by rw [kind]; rfl) fun _ _ reads => reads.check_eq kind
          exact Kind.compares_variable (Or.inr ⟨keyword, kind⟩)
  | temporaryTransfer value =>
      simp only [kind] at answer
      apply Passed.of_transfer answer (by rw [kind]; rfl)
        (by rw [kind]; exact trivial)
        fun _ _ reads => reads.transfer_eq kind
      exact Kind.compares_variable (Or.inl kind)
  | «return» value =>
      simp only [kind, Option.some.injEq, decide_eq_true_eq] at answer
      subst answer
      exact .return kind
  | nop =>
      simp only [kind] at answer
      exact .idle (Or.inl kind) answer
  | loop body =>
      simp only [kind] at answer
      exact .idle (Or.inr ⟨body, kind⟩) answer
  | merge leftValue rightValue leftPrevious rightPrevious =>
      simp only [kind] at answer
      exact .copy (by rw [kind]; rfl) (by rw [kind]; exact trivial)
        (by simp [kind, Kind.compares]) answer
  | loopMerge parameter argument =>
      simp only [kind] at answer
      exact .copy (by rw [kind]; rfl) (by rw [kind]; exact trivial)
        (by simp [kind, Kind.compares]) answer
  | endLoop loop =>
      simp only [kind] at answer
      exact .endLoop kind answer

/-! ## Walks and the test -/

/-- Control enters a merge from one of the computations that it has as the
last ones of its sides; loops and nops have no temporary; the loop that an
`<end-loop>` ends is a loop. -/
structure WellFormed (g : Graph) : Prop where
  entered : ∀ {c m leftValue rightValue leftPrevious rightPrevious},
    g.nextComputation c = some m → g.kind c ≠ .if →
      g.kind m = .merge leftValue rightValue leftPrevious rightPrevious →
        leftPrevious = some c ∨ rightPrevious = some c
  idle : ∀ {c}, g.kind c = .nop ∨ (∃ body, g.kind c = .loop body) →
    g.temporary c = none
  ending : ∀ {c loop}, g.kind c = .endLoop loop →
    ∃ body, g.kind loop = .loop body

/-- Control enters a computation from a place that knows it. -/
def Entered (g : Graph) (previous c : Nat) : Prop :=
  g.nextComputation previous = some c ∧ g.kind previous ≠ .if

/-- A copying computation reads something wherever control comes from. -/
theorem WellFormed.reads (wellFormed : WellFormed g) {previous c : Nat}
    (entered : Entered g previous c) (copies : (g.kind c).copies = true) :
    ∃ source, Reads g previous c source := by
  cases kind : g.kind c with
  | checkType value keyword => exact ⟨value, .check kind⟩
  | temporaryTransfer value => exact ⟨value, .transfer kind⟩
  | loopMerge parameter argument => exact ⟨parameter, .parameter kind⟩
  | merge leftValue rightValue leftPrevious rightPrevious =>
      rcases wellFormed.entered entered.1 entered.2 kind with rfl | rfl
      · exact ⟨leftValue, .left kind⟩
      · exact ⟨rightValue, .right kind⟩
  | _ => simp [kind, Kind.copies] at copies

theorem Reads.copies {previous c : Nat} {source : Option ValueReference}
    (reads : Reads g previous c source) : (g.kind c).copies = true := by
  cases reads <;> simp_all [Kind.copies]

/-- After a copying computation control knows where it comes from. -/
theorem Reads.entered {previous c next : Nat}
    {source : Option ValueReference} (reads : Reads g previous c source)
    (successor : g.nextComputation c = some next) : Entered g c next := by
  refine ⟨successor, ?_⟩
  intro kind
  have copies := reads.copies
  simp [kind, Kind.copies] at copies

theorem WellFormed.entered_endLoop (wellFormed : WellFormed g)
    {c loop next : Nat} (kind : g.kind c = .endLoop loop)
    (successor : g.nextComputation loop = some next) :
    Entered g loop next := by
  obtain ⟨body, isLoop⟩ := wellFormed.ending kind
  exact ⟨successor, by simp [isLoop]⟩

theorem WellFormed.not_idle (wellFormed : WellFormed g) {fuel c : Nat}
    (kind : g.kind c = .nop ∨ ∃ body, g.kind c = .loop body)
    (rest : returnsTemporary g compilingDylanLibrary fuel
      (g.nextComputation c) (g.temporary c) = some true) : False := by
  obtain ⟨less, next, kept, -, -, temporary⟩ := returnsTemporary_some rest
  rw [wellFormed.idle kind] at temporary
  exact absurd temporary (by simp)

/-- The test follows a walk. -/
theorem WellFormed.exists_walk (wellFormed : WellFormed g)
    {fuel previous c t : Nat}
    (answer : returnsTemporary g compilingDylanLibrary fuel (some c)
      (some t) = some true)
    (entered : Entered g previous c) :
    ∃ moves value, Walk g compilingDylanLibrary previous c moves value := by
  induction fuel generalizing previous c t with
  | zero => simp [returnsTemporary] at answer
  | succ fuel ih =>
      cases returnsTemporary_passed answer with
      | «return» kind => exact ⟨[], _, .return kind⟩
      | idle kind rest => exact (wellFormed.not_idle kind rest).elim
      | copy copies admits compared rest =>
          obtain ⟨source, reads⟩ := wellFormed.reads entered copies
          obtain ⟨less, next, kept, -, successor, temporary⟩ :=
            returnsTemporary_some rest
          rw [successor, temporary] at rest
          obtain ⟨moves, value, walk⟩ := ih rest (reads.entered successor)
          exact ⟨_, value, .copy reads admits successor walk⟩
      | endLoop kind rest =>
          obtain ⟨less, next, kept, -, successor, -⟩ :=
            returnsTemporary_some rest
          rw [successor] at rest
          obtain ⟨moves, value, walk⟩ :=
            ih rest (wellFormed.entered_endLoop kind successor)
          exact ⟨moves, value, .endLoop kind successor walk⟩

/-- All walks of a computation that passes the test are tracked. -/
theorem WellFormed.tracks (wellFormed : WellFormed g)
    {fuel previous c t : Nat} {moves : List Move}
    {value : Option ValueReference}
    (walk : Walk g compilingDylanLibrary previous c moves value)
    (answer : returnsTemporary g compilingDylanLibrary fuel (some c)
      (some t) = some true) : Tracks (some t) moves value := by
  induction walk generalizing fuel t with
  | «return» kind =>
      obtain ⟨less, -, -, rfl, -, -⟩ := returnsTemporary_some answer
      simp only [returnsTemporary, kind, Option.some.injEq,
        decide_eq_true_eq] at answer
      exact answer
  | copy reads admits successor walk ih =>
      obtain ⟨less, -, -, rfl, -, -⟩ := returnsTemporary_some answer
      cases returnsTemporary_passed answer with
      | copy copies admits compared rest =>
          obtain ⟨-, next, kept, -, same, temporary⟩ :=
            returnsTemporary_some rest
          rw [successor, temporary] at rest
          refine ⟨fun compares => compared compares _ _ reads, ?_⟩
          show Tracks (g.temporary _) _ _
          rw [temporary]
          exact ih rest
      | idle kind rest => exact (wellFormed.not_idle kind rest).elim
      | «return» kind =>
          have copies := reads.copies
          simp [kind, Kind.copies] at copies
      | endLoop kind rest =>
          have copies := reads.copies
          simp [kind, Kind.copies] at copies
  | endLoop kind successor walk ih =>
      obtain ⟨less, -, -, rfl, -, -⟩ := returnsTemporary_some answer
      simp only [returnsTemporary, kind, successor] at answer
      exact ih answer

theorem transfer_answers {t : Nat} {value : Option ValueReference}
    {next : Option Bool} : (∀ s, value = some (.variable s) → s = t) →
    (match value with
      | some (.variable source) => if source = t then next else some false
      | _ => next) = next := by
  intro compared
  match value with
  | some (.variable source) => exact if_pos (compared source rfl)
  | some (.constant object) => rfl
  | none => rfl

/-- The test passes a tracked walk. -/
theorem Walk.returnsTemporary {previous c t : Nat} {moves : List Move}
    {value : Option ValueReference}
    (walk : Walk g compilingDylanLibrary previous c moves value)
    (tracks : Tracks (some t) moves value) :
    ∃ fuel, returnsTemporary g compilingDylanLibrary fuel (some c) (some t) =
      some true := by
  induction walk generalizing t with
  | «return» kind =>
      refine ⟨1, ?_⟩
      simp [TailCalls.returnsTemporary, kind, show _ = _ from tracks]
  | @copy _ c next source moves value reads admits successor walk ih =>
      obtain ⟨compared, rest⟩ := tracks
      obtain ⟨kept, target⟩ := rest.exists_target
      rw [target] at rest
      obtain ⟨fuel, answer⟩ := ih rest
      have temporary : g.temporary c = some kept := target
      refine ⟨fuel + 1, ?_⟩
      rw [TailCalls.returnsTemporary, successor, temporary]
      have same : ∀ s, (g.kind c).compares = true →
          source = some (.variable s) → s = t := by
        intro s compares equal
        have read : source = some (.variable t) := compared compares
        rw [equal] at read
        simpa using read
      cases reads with
      | transfer kind =>
          simp only [kind]
          refine Eq.trans (transfer_answers fun s equal => ?_) answer
          exact same s (by rw [kind, equal]; rfl) equal
      | check kind =>
          rw [kind] at admits
          have library : compilingDylanLibrary = true := admits
          subst library
          simp only [kind, if_true]
          refine Eq.trans (transfer_answers fun s equal => ?_) answer
          exact same s (by rw [kind, equal]; rfl) equal
      | left kind => simpa only [kind] using answer
      | right kind => simpa only [kind] using answer
      | parameter kind => simpa only [kind] using answer
      | argument kind => simpa only [kind] using answer
  | endLoop kind successor walk ih =>
      obtain ⟨fuel, answer⟩ := ih tracks
      refine ⟨fuel + 1, ?_⟩
      simpa [TailCalls.returnsTemporary, kind, successor] using answer

/-! ## Walks and executions -/

section Executions

variable {Value : Type} {constants : Nat → Value}

/-- An execution can follow a walk, and meets its computations. -/
theorem Walk.steps {previous c : Nat} {moves : List Move}
    {value : Option ValueReference}
    (walk : Walk g compilingDylanLibrary previous c moves value)
    (constants : Nat → Value) (store : Nat → Value) :
    (∃ state, Steps g constants ⟨previous, c, store⟩ state ∧
        g.kind state.current = .return value ∧
        state.store = perform constants (copies moves) store) ∧
      ∀ move ∈ moves, ∃ state,
        Steps g constants ⟨previous, c, store⟩ state ∧
          state.current = move.computation := by
  induction walk generalizing store with
  | «return» kind => exact ⟨⟨_, .refl, kind, rfl⟩, by simp⟩
  | @copy previous c next source moves value reads admits successor walk ih =>
      have first : Step g constants ⟨previous, c, store⟩ _ :=
        .copy reads successor
      obtain ⟨⟨state, steps, kind, same⟩, meets⟩ := ih _
      refine ⟨⟨state, .head first steps, kind, same⟩, ?_⟩
      intro move member
      rcases List.mem_cons.mp member with rfl | member
      · exact ⟨_, .refl, rfl⟩
      · obtain ⟨state, steps, met⟩ := meets move member
        exact ⟨state, .head first steps, met⟩
  | @endLoop previous c loop next moves value kind successor walk ih =>
      have first : Step g constants ⟨previous, c, store⟩ _ :=
        .endLoop kind successor
      obtain ⟨⟨state, steps, returns⟩, meets⟩ := ih store
      refine ⟨⟨state, .head first steps, returns⟩, ?_⟩
      intro move member
      obtain ⟨state, steps, met⟩ := meets move member
      exact ⟨state, .head first steps, met⟩

/-- What holds of a state that is reached from a computation that passes the
test: the test passes here too, and the walks from here are the ends of walks
from the start. -/
structure Reached (g : Graph) (compilingDylanLibrary : Bool)
    (constants : Nat → Value) (start state : State Value)
    (done : List Move) : Prop where
  entered : Entered g state.previous state.current
  answer : ∃ fuel t, returnsTemporary g compilingDylanLibrary fuel
    (some state.current) (some t) = some true
  walks : ∀ {moves value},
    Walk g compilingDylanLibrary state.previous state.current moves value →
      Walk g compilingDylanLibrary start.previous start.current
        (done ++ moves) value
  store : state.store = perform constants (copies done) start.store

theorem Reached.step (wellFormed : WellFormed g)
    {start state next : State Value} {done : List Move}
    (reached : Reached g compilingDylanLibrary constants start state done)
    (step : Step g constants state next) :
    ∃ done, Reached g compilingDylanLibrary constants start next done := by
  obtain ⟨fuel, t, answer⟩ := reached.answer
  obtain ⟨less, -, -, rfl, -, -⟩ := returnsTemporary_some answer
  have passed := returnsTemporary_passed answer
  cases step with
  | @copy previous c following store source reads successor =>
      have copies := reads.copies
      cases passed with
      | copy _ admits compared rest =>
          obtain ⟨-, next, kept, -, same, temporary⟩ :=
            returnsTemporary_some rest
          rw [successor, temporary] at rest
          refine ⟨done ++ [g.move c source], ?_⟩
          constructor
          · exact reads.entered successor
          · exact ⟨less, kept, rest⟩
          · intro moves value walk
            rw [List.append_assoc]
            exact reached.walks (.copy reads admits successor walk)
          · have before : store = _ := reached.store
            rw [before]
            simp [perform, Graph.move]
      | idle kind rest => exact (wellFormed.not_idle kind rest).elim
      | «return» kind =>
          dsimp only at kind
          simp [kind, Kind.copies] at copies
      | endLoop kind rest =>
          dsimp only at kind
          simp [kind, Kind.copies] at copies
  | nop kind successor =>
      cases passed with
      | idle kind rest => exact (wellFormed.not_idle kind rest).elim
      | copy copies _ _ _ =>
          dsimp only at copies
          simp [kind, Kind.copies] at copies
      | «return» other => simp [kind] at other
      | endLoop other rest => simp [kind] at other
  | loop kind =>
      cases passed with
      | idle kind rest => exact (wellFormed.not_idle kind rest).elim
      | copy copies _ _ _ =>
          dsimp only at copies
          simp [kind, Kind.copies] at copies
      | «return» other => simp [kind] at other
      | endLoop other rest => simp [kind] at other
  | endLoop kind successor =>
      cases passed with
      | endLoop other rest =>
          dsimp only at other
          rw [kind] at other
          cases other
          rw [successor] at rest
          refine ⟨done, wellFormed.entered_endLoop kind successor,
            ⟨less, t, rest⟩, ?_, reached.store⟩
          exact fun walk => reached.walks (.endLoop kind successor walk)
      | idle kind rest => exact (wellFormed.not_idle kind rest).elim
      | copy copies _ _ _ =>
          dsimp only at copies
          simp [kind, Kind.copies] at copies
      | «return» other => simp [kind] at other

theorem Reached.steps (wellFormed : WellFormed g)
    {start state : State Value}
    (reached : Reached g compilingDylanLibrary constants start start [])
    (steps : Steps g constants start state) :
    ∃ done, Reached g compilingDylanLibrary constants start state done := by
  induction steps with
  | refl => exact ⟨[], reached⟩
  | tail _ step ih =>
      obtain ⟨done, before⟩ := ih
      exact before.step wellFormed step

end Executions

/-! ## The condition -/

/-- On the walks from a call whose transfers copy one another, no check of a
keyword argument is emitted, and the last merge or transfer of another object
takes the value of the call. -/
def KeepsValue (g : Graph) (compilingDylanLibrary : Bool) (c : Nat) : Prop :=
  ∀ t next moves value, g.temporary c = some t →
    g.nextComputation c = some next →
      Walk g compilingDylanLibrary c next moves value →
        Tracks (some t) moves value →
          (∀ move ∈ moves,
            (g.kind move.computation).passesThrough compilingDylanLibrary =
              true) ∧ SwapKeeps t moves

section Sound

variable {Value : Type} {constants : Nat → Value}

/-- Under the condition, a call that passes the test returns its value. -/
theorem KeepsValue.returnsValue (wellFormed : WellFormed g)
    {c t next fuel : Nat} (keeps : KeepsValue g compilingDylanLibrary c)
    (temporary : g.temporary c = some t)
    (entered : Entered g c next)
    (answer : returnsTemporary g compilingDylanLibrary fuel (some next)
      (some t) = some true) (store : Nat → Value) (value : Value) :
    ReturnsValue g compilingDylanLibrary constants
      ⟨c, next, Function.update store t value⟩ value := by
  have start : Reached g compilingDylanLibrary constants
      ⟨c, next, Function.update store t value⟩
      ⟨c, next, Function.update store t value⟩ [] :=
    ⟨entered, ⟨fuel, t, answer⟩, fun walk => walk, rfl⟩
  have good : ∀ {moves source},
      Walk g compilingDylanLibrary c next moves source →
        (∀ move ∈ moves,
          (g.kind move.computation).passesThrough compilingDylanLibrary =
            true) ∧
          ∃ reference, source = some reference ∧
            readBack (copies moves) reference = .variable t := by
    intro moves source walk
    have tracks := wellFormed.tracks walk answer
    obtain ⟨pure, keptValue⟩ :=
      keeps t next moves source temporary entered.1 walk tracks
    exact ⟨pure, tracks.returned_iff.mpr keptValue⟩
  constructor
  · intro state steps
    obtain ⟨done, reached⟩ := start.steps wellFormed steps
    obtain ⟨less, kept, here⟩ := reached.answer
    obtain ⟨moves, source, walk⟩ :=
      wellFormed.exists_walk here reached.entered
    have all := (good (reached.walks walk)).1
    cases walk with
    | «return» kind => rw [kind]; rfl
    | copy reads admits successor rest =>
        exact all (g.move state.current _)
          (List.mem_append_right _ (List.mem_cons_self ..))
    | endLoop kind successor rest => rw [kind]; rfl
  · intro state steps
    obtain ⟨done, reached⟩ := start.steps wellFormed steps
    obtain ⟨less, kept, here⟩ := reached.answer
    obtain ⟨moves, source, walk⟩ :=
      wellFormed.exists_walk here reached.entered
    cases walk with
    | «return» kind => exact Or.inl ⟨source, kind⟩
    | copy reads admits successor rest =>
        exact Or.inr ⟨_, .copy reads successor⟩
    | endLoop kind successor rest =>
        exact Or.inr ⟨_, .endLoop kind successor⟩
  · obtain ⟨moves, source, walk⟩ := wellFormed.exists_walk answer entered
    obtain ⟨⟨state, steps, kind, -⟩, -⟩ := walk.steps constants _
    exact ⟨state, source, steps, kind⟩
  · intro state source steps kind
    obtain ⟨done, reached⟩ := start.steps wellFormed steps
    obtain ⟨-, reference, rfl, back⟩ := good (reached.walks (.return kind))
    refine ⟨reference, rfl, ?_⟩
    rw [List.append_nil] at back
    rw [reached.store, evaluate_perform, back]
    exact Function.update_self ..

end Sound

/-- For every call, `tail-position?` answers `#t` only where the call may be
replaced by a jump, if and only if the condition holds. -/
theorem tail_position_sound_iff (wellFormed : WellFormed g) {c : Nat}
    (call : g.kind c = .call) :
    ((∃ fuel, tailPosition g compilingDylanLibrary fuel c = some true) →
      Replaceable g compilingDylanLibrary c) ↔
        KeepsValue g compilingDylanLibrary c := by
  constructor
  · intro sound t next moves value temporary successor walk tracks
    obtain ⟨fuel, answer⟩ := walk.returnsTemporary tracks
    have replaceable := sound
      ⟨fuel, by rw [tailPosition, temporary, successor]; exact answer⟩
    -- In the store of the temporaries themselves the values are references.
    have returns := replaceable t next temporary successor ValueReference
      .constant .variable (.variable t)
    rw [Function.update_eq_self] at returns
    obtain ⟨⟨state, steps, kind, store⟩, meets⟩ :=
      walk.steps Reference.constant Reference.variable
    constructor
    · intro move member
      obtain ⟨met, path, same⟩ := meets move member
      rw [← same]
      exact returns.pure path
    · apply tracks.returned_iff.mp
      obtain ⟨reference, rfl, back⟩ := returns.same steps kind
      rw [store, evaluate_perform, Reference.evaluate_self] at back
      exact ⟨reference, rfl, back⟩
  · rintro keeps ⟨fuel, answer⟩ t next temporary successor Value constants
      store value
    rw [tailPosition, temporary, successor] at answer
    exact keeps.returnsValue wellFormed temporary
      ⟨successor, by simp [call]⟩ answer store value

/-! ## Examples -/

/-- A conditional with the calls 0 and 1 in the consequent and the call 3 in
the alternative; its merge takes the value of the call 0 or of the call 3. -/
def shadowedCall : Graph where
  kind
    | 0 => .call
    | 1 => .call
    | 2 => .merge (some (.variable 0)) (some (.variable 2)) (some 1) (some 3)
    | 3 => .call
    | 4 => .return (some (.variable 3))
    | _ => .if
  temporary
    | 0 => some 0
    | 1 => some 1
    | 2 => some 3
    | 3 => some 2
    | _ => none
  nextComputation
    | 0 => some 1
    | 1 => some 2
    | 2 => some 4
    | 3 => some 2
    | 5 => some 2
    | _ => none

theorem shadowedCall_wellFormed : WellFormed shadowedCall where
  entered {c m _ _ _ _} successor isIf kind := by
    simp only [shadowedCall] at successor kind isIf
    split at kind <;> try cases kind
    split at successor <;> simp_all
  idle {c} kind := by
    simp only [shadowedCall] at kind
    split at kind <;> simp at kind
  ending {c loop} kind := by
    simp only [shadowedCall] at kind
    split at kind <;> simp at kind

/-- The call in the alternative. -/
theorem tail_position_sound_iff_alternative :
    ((∃ fuel, tailPosition shadowedCall false fuel 3 = some true) →
      Replaceable shadowedCall false 3) ↔ KeepsValue shadowedCall false 3 :=
  tail_position_sound_iff shadowedCall_wellFormed rfl

/-- The second call in the consequent passes the test, but the value of the
first one is returned. -/
theorem tail_position_unsound :
    WellFormed shadowedCall ∧ shadowedCall.kind 1 = .call ∧
      (∃ fuel, tailPosition shadowedCall false fuel 1 = some true) ∧
      ¬Replaceable shadowedCall false 1 := by
  refine ⟨shadowedCall_wellFormed, rfl, ⟨3, rfl⟩, ?_⟩
  intro replaceable
  have returns := replaceable 1 2 rfl rfl Bool (fun _ => false)
    (fun _ => false) true
  have first : Step shadowedCall (fun _ => false)
      ⟨1, 2, Function.update (fun _ => false) 1 true⟩ _ :=
    .copy (.left rfl) rfl
  obtain ⟨reference, same, value⟩ := returns.same (.single first) rfl
  cases same
  simp [Reference.evaluate, Copy.perform, shadowedCall] at value

end OpenDylan.Compiler.TailCalls
