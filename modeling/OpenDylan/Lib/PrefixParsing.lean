import Mathlib.Data.List.Basic
import Mathlib.Data.List.TakeDrop

/-!
# Parsers that fail as soon as they can

A parser shifts one token after the other.  When it refuses a token exactly if
no sentence begins with what it was given, then the tokens before the one it
refuses bound the sentences that the input begins with.
-/

namespace OpenDylan.Lib.PrefixParsing

/-- A parser: its states, what it shifts, and the form that it accepts when the
tokens end. -/
structure Machine (Token State Form : Type*) where
  start : State
  shift : State → Token → Option State
  accept : State → Option Form

variable {Token State Form : Type*}

/-- The state after some tokens. -/
def run (machine : Machine Token State Form) :
    State → List Token → Option State
  | state, [] => some state
  | state, token :: rest =>
      (machine.shift state token).bind fun next => run machine next rest

/-- A parser of a grammar, which gives every sentence its form: it shifts what
some sentence begins with and accepts the sentences. -/
structure CorrectPrefix (machine : Machine Token State Form)
    (grammar : List Token → Option Form) : Prop where
  shifts (tokens : List Token) : (run machine machine.start tokens).isSome ↔
    ∃ more, (grammar (tokens ++ more)).isSome
  accepts {tokens : List Token} {state : State}
    (runs : run machine machine.start tokens = some state) :
    machine.accept state = grammar tokens

variable {machine : Machine Token State Form}
  {grammar : List Token → Option Form}

theorem run_append (state : State) (first second : List Token) :
    run machine state (first ++ second) =
      (run machine state first).bind fun next => run machine next second := by
  induction first generalizing state with
  | nil => rfl
  | cons token rest ih =>
      rw [List.cons_append, run, run]
      cases machine.shift state token with
      | none => rfl
      | some next => exact ih next

theorem run_concat {state next : State} {tokens : List Token}
    (runs : run machine state tokens = some next) (token : Token) :
    run machine state (tokens ++ [token]) = machine.shift next token := by
  rw [run_append, runs, Option.bind_some, run]
  cases machine.shift next token <;> rfl

/-- What begins with refused tokens is no sentence. -/
theorem CorrectPrefix.refused (correct : CorrectPrefix machine grammar)
    {tokens : List Token} (stuck : run machine machine.start tokens = none)
    (more : List Token) : grammar (tokens ++ more) = none := by
  rw [← Option.not_isSome_iff_eq_none]
  intro sentence
  have runs := (correct.shifts tokens).mpr ⟨more, sentence⟩
  rw [stuck] at runs
  cases runs

/-- A longer input is no sentence when its beginning is refused. -/
theorem CorrectPrefix.refused_take (correct : CorrectPrefix machine grammar)
    {tokens : List Token} {count : Nat}
    (stuck : run machine machine.start (tokens.take count) = none)
    {longer : Nat} (more : count ≤ longer) :
    grammar (tokens.take longer) = none := by
  have split : tokens.take longer =
      tokens.take count ++ (tokens.take longer).drop count := by
    conv_lhs => rw [← List.take_append_drop count (tokens.take longer)]
    rw [List.take_take, Nat.min_eq_left more]
  rw [split]
  exact correct.refused stuck _

/-- The beginning of what is shifted is shifted. -/
theorem run_take {state : State} {tokens : List Token} {count : Nat}
    (runs : (run machine state (tokens.take count)).isSome)
    {fewer : Nat} (less : fewer ≤ count) :
    (run machine state (tokens.take fewer)).isSome := by
  have split : tokens.take count =
      tokens.take fewer ++ (tokens.take count).drop fewer := by
    conv_lhs => rw [← List.take_append_drop fewer (tokens.take count)]
    rw [List.take_take, Nat.min_eq_left less]
  rw [split, run_append] at runs
  cases first : run machine state (tokens.take fewer) with
  | none =>
      rw [first] at runs
      cases runs
  | some next => rfl

/-- The forms of what a parser accepts. -/
def accepted (machine : Machine Token State Form) (tokens : List Token) :
    Option Form :=
  (run machine machine.start tokens).bind machine.accept

/-- A parser that can come to accept from each state is a parser of what it
accepts. -/
theorem CorrectPrefix.accepted (completes : ∀ state, ∃ more,
    ((run machine state more).bind machine.accept).isSome) :
    CorrectPrefix machine (accepted machine) where
  shifts tokens := by
    constructor
    · intro runs
      obtain ⟨state, isState⟩ := Option.isSome_iff_exists.mp runs
      obtain ⟨more, accepts⟩ := completes state
      refine ⟨more, ?_⟩
      rw [PrefixParsing.accepted, run_append, isState]
      exact accepts
    · rintro ⟨more, accepts⟩
      rw [PrefixParsing.accepted, run_append] at accepts
      cases runs : run machine machine.start tokens with
      | none =>
          rw [runs] at accepts
          cases accepts
      | some state => rfl
  accepts runs := by rw [PrefixParsing.accepted, runs, Option.bind_some]

end OpenDylan.Lib.PrefixParsing
