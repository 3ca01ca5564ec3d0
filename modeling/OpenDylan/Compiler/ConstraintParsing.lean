import OpenDylan.Lib.PrefixParsing

/-!
# Parsing the fragments for a constraint

A macro pattern variable with a constraint matches the longest beginning of the
fragments that the parser accepts.  The parser is run over the tokens of the
fragments, nested ones included.  When it refuses a token the run is repeated
with an end after one token less, and so on until it accepts.

A run with a limit gives the parser that many tokens and then the end.  The
bounded variant also ends before a token at the top level that stops it.
-/

namespace OpenDylan.Compiler.ConstraintParsing

open OpenDylan.Lib.PrefixParsing

/-! ## Fragments -/

/-- A fragment: a token, or fragments nested in delimiters, as of
`<nested-fragment>`. -/
inductive Fragment (Leaf Left Right : Type) where
  | token (leaf : Leaf)
  | nested (left : Left) (fragments : List (Fragment Leaf Left Right))
      (right : Right)

/-- What the parser is given: a token that is no delimiter, or a delimiter of a
nested fragment. -/
inductive Token (Leaf Left Right : Type) where
  | leaf (leaf : Leaf)
  | left (left : Left)
  | right (right : Right)

section Parsing

variable {Leaf Left Right State Form : Type}

/-- The variables of the lexer: the fragments to come, with the delimiters and
the fragments behind those that they are nested in, and the number of tokens
that were given. -/
structure Stream (Leaf Left Right : Type) where
  tokenStack : List (Fragment Leaf Left Right)
  nestingStack : List (Right × List (Fragment Leaf Left Right))
  count : Nat

/-- The local method `lexer`; no token stands for `$end-constraint`.  Only a
token at the top level can stop it. -/
def lexer (stop : Leaf → Bool) (limit : Int) (stream : Stream Leaf Left Right) :
    Option (Token Leaf Left Right) × Stream Leaf Left Right :=
  if stream.count = limit then
    (none, stream)
  else
    match stream.tokenStack, stream.nestingStack with
    | [], [] => (none, stream)
    | [], (right, tokens) :: nesting =>
        (some (.right right),
          { tokenStack := tokens
            nestingStack := nesting
            count := stream.count + 1 })
    | .nested left fragments right :: rest, nesting =>
        (some (.left left),
          { tokenStack := fragments
            nestingStack := (right, rest) :: nesting
            count := stream.count + 1 })
    | .token leaf :: rest, nesting =>
        if nesting.isEmpty && stop leaf then
          (none, stream)
        else
          (some (.leaf leaf),
            { stream with
              tokenStack := rest
              count := stream.count + 1 })

/-- How `re-read-fragments` ends: with a form, or with a call of `on-error`. -/
inductive Reading (Leaf Left Right Form : Type) where
  | form (form : Form) (stream : Stream Leaf Left Right)
  | error (stream : Stream Leaf Left Right)

/-- `re-read-fragments` with a parser, which takes one token after the other
from the lexer, a bounded number of them. -/
def reReadFragments
    (parser : Machine (Token Leaf Left Right) State Form)
    (stop : Leaf → Bool) (limit : Int) :
    Nat → State → Stream Leaf Left Right →
      Option (Reading Leaf Left Right Form)
  | 0, _, _ => none
  | fuel + 1, state, stream =>
      match lexer stop limit stream with
      | (none, later) =>
          match parser.accept state with
          | some form => some (.form form later)
          | none => some (.error later)
      | (some token, later) =>
          match parser.shift state token with
          | some next => reReadFragments parser stop limit fuel next later
          | none => some (.error later)

/-- The loop of `parse-constraint`: what remains and the form, or a failure. -/
def retry (parser : Machine (Token Leaf Left Right) State Form)
    (stop : Leaf → Bool) (allTokens : List (Fragment Leaf Left Right))
    (length : Nat) :
    Nat → Int → Option (Option (List (Fragment Leaf Left Right) × Form))
  | 0, _ => none
  | fuel + 1, limit =>
      match reReadFragments parser stop limit length parser.start
        { tokenStack := allTokens, nestingStack := [], count := 0 } with
      | none => none
      | some (.form form stream) => some (some (stream.tokenStack, form))
      | some (.error stream) =>
          if limit = 0 then some none
          else retry parser stop allTokens length fuel (stream.count - 1)

/-- `parse-bounded-constraint`, with a bound on its steps. -/
def parseBoundedConstraint
    (parser : Machine (Token Leaf Left Right) State Form) (fuel : Nat)
    (constraintStart : Leaf) (tokens : List (Fragment Leaf Left Right))
    (stop : Leaf → Bool) :
    Option (Option (List (Fragment Leaf Left Right) × Form)) :=
  retry parser stop (.token constraintStart :: tokens) fuel fuel (-1)

/-- `parse-constraint`, with a bound on its steps. -/
def parseConstraint (parser : Machine (Token Leaf Left Right) State Form)
    (fuel : Nat) (constraintStart : Leaf)
    (tokens : List (Fragment Leaf Left Right)) :
    Option (Option (List (Fragment Leaf Left Right) × Form)) :=
  parseBoundedConstraint parser fuel constraintStart tokens fun _ => false

/-! ## Tokens of fragments -/

mutual

/-- The tokens of a fragment. -/
def Fragment.tokens : Fragment Leaf Left Right → List (Token Leaf Left Right)
  | .token leaf => [.leaf leaf]
  | .nested left fragments right =>
      .left left :: (allTokens fragments ++ [.right right])

/-- The tokens of some fragments. -/
def allTokens :
    List (Fragment Leaf Left Right) → List (Token Leaf Left Right)
  | [] => []
  | fragment :: rest => fragment.tokens ++ allTokens rest

end

end Parsing

end OpenDylan.Compiler.ConstraintParsing

/-!
# Constraints match the longest sentences

The lexer gives the tokens of the fragments in order, down to the limit or to a
token that stops it.  The first run ends in a sentence or is refused a token,
which bounds all sentences; the later runs try one token less each.  As the
delimiters of a sentence are balanced, what remains of the tokens after one is
what remains of the fragments at the top level.
-/

namespace OpenDylan.Compiler.ConstraintParsing

open OpenDylan.Lib.PrefixParsing

section Prefixes

variable {Leaf Left Right State Form : Type}

/-! ## Tokens -/

theorem allTokens_append (first second : List (Fragment Leaf Left Right)) :
    allTokens (first ++ second) = allTokens first ++ allTokens second := by
  induction first with
  | nil => rfl
  | cons fragment rest ih =>
      rw [List.cons_append, allTokens, allTokens, ih, List.append_assoc]

theorem tokens_ne_nil (fragment : Fragment Leaf Left Right) :
    fragment.tokens ≠ [] := by
  cases fragment <;> rw [Fragment.tokens] <;> exact List.cons_ne_nil _ _

/-- The number of left delimiters. -/
def lefts (tokens : List (Token Leaf Left Right)) : Nat :=
  tokens.countP fun token => match token with
    | .left _ => true
    | _ => false

/-- The number of right delimiters. -/
def rights (tokens : List (Token Leaf Left Right)) : Nat :=
  tokens.countP fun token => match token with
    | .right _ => true
    | _ => false

theorem lefts_append (first second : List (Token Leaf Left Right)) :
    lefts (first ++ second) = lefts first + lefts second :=
  List.countP_append

theorem rights_append (first second : List (Token Leaf Left Right)) :
    rights (first ++ second) = rights first + rights second :=
  List.countP_append

/-- A fragment that stops the lexer at the top level. -/
def stops (stop : Leaf → Bool) : Fragment Leaf Left Right → Bool
  | .token leaf => stop leaf
  | .nested _ _ _ => false

/-- The fragments before the first token at the top level that stops the
lexer. -/
def cut (stop : Leaf → Bool) (fragments : List (Fragment Leaf Left Right)) :
    List (Fragment Leaf Left Right) :=
  fragments.takeWhile fun fragment => !stops stop fragment

/-- The fragments from the first token on that stops the lexer. -/
def beyond (stop : Leaf → Bool) (fragments : List (Fragment Leaf Left Right)) :
    List (Fragment Leaf Left Right) :=
  fragments.dropWhile fun fragment => !stops stop fragment

/-! ## What the lexer gives -/

/-- The tokens that come behind some nested fragments. -/
def upcoming (stop : Leaf → Bool) :
    List (Fragment Leaf Left Right) →
      List (Right × List (Fragment Leaf Left Right)) →
      List (Token Leaf Left Right)
  | fragments, [] => allTokens (cut stop fragments)
  | fragments, (right, rest) :: nesting =>
      allTokens fragments ++ .right right :: upcoming stop rest nesting

/-- The fragments that come at the top level. -/
def atTop :
    List (Fragment Leaf Left Right) →
      List (Right × List (Fragment Leaf Left Right)) →
      List (Fragment Leaf Left Right)
  | fragments, [] => fragments
  | _, (_, rest) :: nesting => atTop rest nesting

/-- The lexer has given some of the tokens of fragments. -/
structure Stream.Given (stop : Leaf → Bool)
    (fragments : List (Fragment Leaf Left Right))
    (stream : Stream Leaf Left Right)
    (given : List (Token Leaf Left Right)) : Prop where
  whole : allTokens (cut stop fragments) =
    given ++ upcoming stop stream.tokenStack stream.nestingStack
  count : stream.count = given.length
  depth : lefts given = rights given + stream.nestingStack.length
  top : ∃ taken, fragments =
      taken ++ atTop stream.tokenStack stream.nestingStack ∧
    ∀ fragment ∈ taken, stops stop fragment = false

variable {stop : Leaf → Bool} {fragments : List (Fragment Leaf Left Right)}
  {stream later : Stream Leaf Left Right}
  {given : List (Token Leaf Left Right)} {limit : Int}

theorem given_start : Stream.Given stop fragments
    { tokenStack := fragments, nestingStack := [], count := 0 } [] where
  whole := rfl
  count := rfl
  depth := rfl
  top := ⟨[], rfl, fun _ member => nomatch member⟩

/-- What comes when the next fragment is taken. -/
theorem upcoming_token {leaf : Leaf}
    {rest : List (Fragment Leaf Left Right)}
    {nesting : List (Right × List (Fragment Leaf Left Right))}
    (goesOn : (nesting.isEmpty && stop leaf) = false) :
    upcoming stop (.token leaf :: rest) nesting =
      .leaf leaf :: upcoming stop rest nesting := by
  cases nesting with
  | nil =>
      have noStop : stops stop (.token leaf : Fragment Leaf Left Right) =
          false := goesOn
      rw [upcoming, upcoming, cut, List.takeWhile_cons, noStop]
      rfl
  | cons outer nesting => rfl

theorem upcoming_nested {left : Left} {right : Right}
    {children rest : List (Fragment Leaf Left Right)}
    {nesting : List (Right × List (Fragment Leaf Left Right))} :
    upcoming stop (.nested left children right :: rest) nesting =
      .left left :: upcoming stop children ((right, rest) :: nesting) := by
  cases nesting with
  | nil =>
      rw [upcoming, upcoming, upcoming, cut, List.takeWhile_cons, stops,
        Bool.not_false, if_pos rfl, allTokens, Fragment.tokens,
        List.cons_append, List.append_assoc]
      rfl
  | cons outer nesting =>
      obtain ⟨close, others⟩ := outer
      rw [upcoming, upcoming, upcoming, allTokens, Fragment.tokens,
        List.cons_append, List.cons_append, List.append_assoc,
        List.append_assoc]
      rfl

/-- The fragments at the top level when the next fragment is taken. -/
theorem top_taken {fragment : Fragment Leaf Left Right}
    {rest : List (Fragment Leaf Left Right)}
    {nesting : List (Right × List (Fragment Leaf Left Right))}
    (noStop : nesting = [] → stops stop fragment = false)
    (top : ∃ taken, fragments = taken ++ atTop (fragment :: rest) nesting ∧
      ∀ other ∈ taken, stops stop other = false) :
    ∃ taken, fragments = taken ++ atTop rest nesting ∧
      ∀ other ∈ taken, stops stop other = false := by
  obtain ⟨taken, whole, noStops⟩ := top
  cases nesting with
  | nil =>
      refine ⟨taken ++ [fragment], ?_, ?_⟩
      · rw [whole, List.append_assoc]
        rfl
      · intro other member
        rcases List.mem_append.mp member with before | isFragment
        · exact noStops other before
        · rw [List.mem_singleton.mp isFragment]
          exact noStop rfl
  | cons outer nesting => exact ⟨taken, whole, noStops⟩

/-- Short of the limit the lexer gives the next token, if there is one. -/
theorem Stream.Given.lexer (isGiven : stream.Given stop fragments given)
    (short : (stream.count : Int) ≠ limit) :
    (upcoming stop stream.tokenStack stream.nestingStack = [] ∧
        lexer stop limit stream = (none, stream)) ∨
      ∃ token later, lexer stop limit stream = (some token, later) ∧
        later.Given stop fragments (given ++ [token]) := by
  obtain ⟨tokenStack, nestingStack, count⟩ := stream
  obtain ⟨whole, isCount, depth, top⟩ := isGiven
  have goesOn : (count : Int) ≠ limit := short
  have isCount : count = given.length := isCount
  have more : ∀ token : Token Leaf Left Right,
      count + 1 = (given ++ [token]).length := by
    intro token
    rw [List.length_append, List.length_singleton, isCount]
  simp only at whole depth top
  rw [ConstraintParsing.lexer, if_neg goesOn]
  cases tokenStack with
  | nil =>
      cases nestingStack with
      | nil => exact Or.inl ⟨rfl, rfl⟩
      | cons outer nesting =>
          obtain ⟨right, rest⟩ := outer
          refine Or.inr ⟨.right right, _, rfl, ?_, more _, ?_, top⟩
          · rw [List.append_assoc]
            exact whole
          · rw [List.length_cons] at depth
            show lefts (given ++ [.right right]) =
              rights (given ++ [.right right]) + nesting.length
            rw [lefts_append, rights_append, depth]
            show _ + 0 = _ + 1 + _
            omega
  | cons fragment rest =>
      cases fragment with
      | token leaf =>
          cases stopped : nestingStack.isEmpty && stop leaf with
          | true =>
              left
              rw [Bool.and_eq_true, List.isEmpty_iff] at stopped
              obtain ⟨rfl, isStop⟩ := stopped
              refine ⟨?_, by simp [isStop]⟩
              have isStop : stops stop
                  (.token leaf : Fragment Leaf Left Right) = true := isStop
              rw [upcoming, cut, List.takeWhile_cons, isStop]
              rfl
          | false =>
              right
              refine ⟨.leaf leaf, _, by simp [stopped]; rfl, ?_, more _, ?_,
                top_taken ?_ top⟩
              · rw [List.append_assoc, whole, upcoming_token stopped]
                rfl
              · show lefts (given ++ [.leaf leaf]) =
                  rights (given ++ [.leaf leaf]) + nestingStack.length
                rw [lefts_append, rights_append, depth]
                rfl
              · intro none
                have none : nestingStack = [] := none
                rw [none] at stopped
                exact stopped
      | nested left children right =>
          have topLater := @top_taken Leaf Left Right stop fragments
            (.nested left children right) rest nestingStack (fun _ => rfl) top
          refine Or.inr ⟨.left left, _, rfl, ?_, more _, ?_, topLater⟩
          · rw [List.append_assoc, whole, upcoming_nested]
            rfl
          · show lefts (given ++ [.left left]) =
              rights (given ++ [.left left]) + (nestingStack.length + 1)
            rw [lefts_append, rights_append, depth]
            show _ + 1 = _ + 0 + _
            omega

/-! ## One run -/

/-- The lexer has not passed the limit, if there is one. -/
def Within (limit : Int) (given : List (Token Leaf Left Right)) : Prop :=
  limit < 0 ∨ (given.length : Int) ≤ limit

/-- A run that ends with the end of the tokens, at the limit or where they
end. -/
structure Ended (stop : Leaf → Bool)
    (fragments : List (Fragment Leaf Left Right)) (limit : Int)
    (stream : Stream Leaf Left Right)
    (given : List (Token Leaf Left Right)) : Prop where
  isGiven : stream.Given stop fragments given
  within : Within limit given
  ends : (given.length : Int) = limit ∨
    given = allTokens (cut stop fragments)

/-- How a run ends: with a form, or refused the end or a token. -/
inductive Ran (parser : Machine (Token Leaf Left Right) State Form)
    (stop : Leaf → Bool) (fragments : List (Fragment Leaf Left Right))
    (limit : Int) : Reading Leaf Left Right Form → Prop where
  | form {stream : Stream Leaf Left Right}
      {given : List (Token Leaf Left Right)} {state : State} {form : Form}
      (ended : Ended stop fragments limit stream given)
      (runs : run parser parser.start given = some state)
      (accepts : parser.accept state = some form) :
      Ran parser stop fragments limit (.form form stream)
  | noForm {stream : Stream Leaf Left Right}
      {given : List (Token Leaf Left Right)} {state : State}
      (ended : Ended stop fragments limit stream given)
      (runs : run parser parser.start given = some state)
      (accepts : parser.accept state = none) :
      Ran parser stop fragments limit (.error stream)
  | refused {stream : Stream Leaf Left Right}
      {given : List (Token Leaf Left Right)} {token : Token Leaf Left Right}
      (isGiven : stream.Given stop fragments (given ++ [token]))
      (within : Within limit (given ++ [token]))
      (runs : (run parser parser.start given).isSome)
      (stuck : run parser parser.start (given ++ [token]) = none) :
      Ran parser stop fragments limit (.error stream)

variable {parser : Machine (Token Leaf Left Right) State Form}

/-- A run ends. -/
theorem reReadFragments_spec {state : State} {fuel : Nat}
    (isGiven : stream.Given stop fragments given)
    (within : Within limit given)
    (runs : run parser parser.start given = some state)
    (enough : (allTokens (cut stop fragments)).length <
      given.length + fuel) :
    ∃ reading, reReadFragments parser stop limit fuel state stream =
      some reading ∧ Ran parser stop fragments limit reading := by
  induction fuel generalizing stream given state with
  | zero =>
      have whole := congrArg List.length isGiven.whole
      rw [List.length_append] at whole
      omega
  | succ fuel ih =>
      have atEnd : Ended stop fragments limit stream given →
          lexer stop limit stream = (none, stream) →
          ∃ reading, reReadFragments parser stop limit (fuel + 1) state
            stream = some reading ∧
            Ran parser stop fragments limit reading := by
        intro ended noToken
        rw [reReadFragments, noToken]
        cases accepts : parser.accept state with
        | some form => exact ⟨_, rfl, .form ended runs accepts⟩
        | none => exact ⟨_, rfl, .noForm ended runs accepts⟩
      by_cases short : (stream.count : Int) = limit
      · refine atEnd ⟨isGiven, within, Or.inl ?_⟩ (if_pos short)
        rw [← isGiven.count]
        exact short
      · rcases isGiven.lexer short with ⟨none, noToken⟩ |
          ⟨token, later, isToken, isLater⟩
        · refine atEnd ⟨isGiven, within, Or.inr ?_⟩ noToken
          rw [isGiven.whole, none, List.append_nil]
        · have next := run_concat runs token
          have withinLater : Within limit (given ++ [token]) := by
            rw [isGiven.count] at short
            rw [Within] at within ⊢
            rw [List.length_append, List.length_singleton]
            omega
          rw [reReadFragments, isToken]
          cases shifts : parser.shift state token with
          | none =>
              rw [shifts] at next
              simp only [shifts]
              exact ⟨_, rfl, .refused isLater withinLater (by rw [runs]; rfl)
                next⟩
          | some after =>
              rw [shifts] at next
              simp only [shifts]
              apply ih isLater withinLater next
              rw [List.length_append, List.length_singleton]
              omega

/-! ## All runs -/

variable {grammar : List (Token Leaf Left Right) → Option Form}

/-- What is known before a run: nothing, or a limit that the parser comes to and
behind which no sentence ends. -/
inductive Tried (parser : Machine (Token Leaf Left Right) State Form)
    (grammar : List (Token Leaf Left Right) → Option Form)
    (tokens : List (Token Leaf Left Right)) : Int → Nat → Prop where
  | first : Tried parser grammar tokens (-1) tokens.length
  | limit {count : Nat} (inside : count ≤ tokens.length)
      (runs : (run parser parser.start (tokens.take count)).isSome)
      (longer : ∀ more, count < more → more ≤ tokens.length →
        grammar (tokens.take more) = none) :
      Tried parser grammar tokens count count

/-- The result of all runs: what remains after the longest sentence, or a
failure when there is no sentence. -/
inductive Matched (grammar : List (Token Leaf Left Right) → Option Form)
    (stop : Leaf → Bool) (fragments : List (Fragment Leaf Left Right)) :
    Option (List (Fragment Leaf Left Right) × Form) → Prop where
  | form {stream : Stream Leaf Left Right}
      {given : List (Token Leaf Left Right)} {form : Form}
      (isGiven : stream.Given stop fragments given)
      (sentence : grammar given = some form)
      (longest : ∀ more, given.length < more →
        more ≤ (allTokens (cut stop fragments)).length →
        grammar ((allTokens (cut stop fragments)).take more) = none) :
      Matched grammar stop fragments (some (stream.tokenStack, form))
  | failure (noSentence : ∀ more ≤ (allTokens (cut stop fragments)).length,
      grammar ((allTokens (cut stop fragments)).take more) = none) :
      Matched grammar stop fragments none

/-- What the lexer gave is the beginning of the tokens. -/
theorem Stream.Given.eq_take (isGiven : stream.Given stop fragments given) :
    given = (allTokens (cut stop fragments)).take given.length := by
  rw [isGiven.whole, List.take_left]

theorem Stream.Given.length_le (isGiven : stream.Given stop fragments given) :
    given.length ≤ (allTokens (cut stop fragments)).length := by
  rw [isGiven.whole, List.length_append]
  exact Nat.le_add_right _ _

/-- Where a run ends that was not refused a token. -/
theorem Tried.length_eq {tries : Nat}
    (tried : Tried parser grammar (allTokens (cut stop fragments)) limit tries)
    (ended : Ended stop fragments limit stream given) :
    given.length = tries := by
  have bound := ended.isGiven.length_le
  cases tried with
  | first =>
      rcases ended.ends with atLimit | whole
      · omega
      · rw [whole]
  | limit inside runs longer =>
      rcases ended.ends with atLimit | whole
      · omega
      · have within := ended.within
        rw [Within] at within
        rw [whole] at within ⊢
        omega

/-- No sentence ends behind where a run ends. -/
theorem Tried.longer {tries : Nat}
    (tried : Tried parser grammar (allTokens (cut stop fragments)) limit tries)
    {more : Nat} (behind : tries < more)
    (inside : more ≤ (allTokens (cut stop fragments)).length) :
    grammar ((allTokens (cut stop fragments)).take more) = none := by
  cases tried with
  | first => omega
  | limit _ _ longer => exact longer more behind inside

/-- A run that is not given a form leaves one token less to try, if any. -/
theorem Tried.next (correct : CorrectPrefix parser grammar) {tries : Nat}
    (several : 0 < (allTokens (cut stop fragments)).length)
    (tried : Tried parser grammar (allTokens (cut stop fragments)) limit tries)
    (ran : Ran parser stop fragments limit (.error stream)) :
    (limit = 0 ∧ grammar [] = none ∧ tries = 0) ∨
      ∃ fewer < tries, (stream.count : Int) - 1 = fewer ∧ limit ≠ 0 ∧
        Tried parser grammar (allTokens (cut stop fragments)) fewer fewer := by
  cases ran with
  | @noForm _ given state ended runs accepts =>
      have isTries := tried.length_eq ended
      have noSentence : grammar given = none := by
        rw [← correct.accepts runs]
        exact accepts
      have isTake := ended.isGiven.eq_take
      have count := ended.isGiven.count
      have inside := ended.isGiven.length_le
      by_cases atStart : limit = 0
      · left
        subst atStart
        cases tried with
        | limit _ _ _ =>
            rw [List.length_eq_zero_iff.mp isTries] at noSentence
            exact ⟨rfl, noSentence, rfl⟩
      · right
        have positive : 0 < tries := by
          cases tried with
          | first => exact several
          | limit _ _ _ => omega
        refine ⟨tries - 1, by omega, by omega, atStart, ?_⟩
        refine .limit (by omega) ?_ ?_
        · have whole : (run parser parser.start
              ((allTokens (cut stop fragments)).take given.length)).isSome := by
            rw [← isTake, runs]
            rfl
          exact run_take whole (by omega)
        · intro more behind inside
          by_cases atEnd : more = tries
          · rw [atEnd, ← isTries, ← isTake]
            exact noSentence
          · exact tried.longer (by omega) inside
  | @refused _ given token isGiven within runs stuck =>
      have isTake := isGiven.eq_take
      have count := isGiven.count
      have inside := isGiven.length_le
      rw [List.length_append, List.length_singleton] at isTake count inside
      rw [isTake] at stuck
      cases tried with
      | first =>
          refine Or.inr ⟨given.length, by omega, by omega, by omega, ?_⟩
          refine .limit (by omega) ?_ fun more behind _ =>
            correct.refused_take stuck behind
          have before : given =
              (allTokens (cut stop fragments)).take given.length := by
            rw [isGiven.whole, List.append_assoc, List.take_left]
          rw [← before]
          exact runs
      | limit _ comes _ =>
          -- the parser came to the limit, so it refuses nothing before it
          rw [Within, List.length_append, List.length_singleton] at within
          have shifted := @run_take _ _ _ _ _ _ _ comes (given.length + 1)
            (by omega)
          rw [stuck] at shifted
          cases shifted

/-- The runs come to an end, with the longest sentence or a failure. -/
theorem retry_spec (correct : CorrectPrefix parser grammar)
    {length tries fuel : Nat}
    (several : 0 < (allTokens (cut stop fragments)).length)
    (enough : (allTokens (cut stop fragments)).length < length)
    (tried : Tried parser grammar (allTokens (cut stop fragments)) limit tries)
    (often : tries < fuel) :
    ∃ result, retry parser stop fragments length fuel limit = some result ∧
      Matched grammar stop fragments result := by
  induction fuel generalizing limit tries with
  | zero => omega
  | succ fuel ih =>
      have within : Within limit ([] : List (Token Leaf Left Right)) := by
        rw [Within, List.length_nil]
        omega
      have runs : run parser parser.start [] = some parser.start := rfl
      have enough : (allTokens (cut stop fragments)).length <
          ([] : List (Token Leaf Left Right)).length + length := by
        rw [List.length_nil, Nat.zero_add]
        exact enough
      obtain ⟨reading, isReading, ran⟩ :=
        reReadFragments_spec given_start within runs enough
      rw [retry, isReading]
      cases reading with
      | form form stream =>
          refine ⟨_, rfl, ?_⟩
          cases ran with
          | form ended runs accepts =>
              rw [correct.accepts runs] at accepts
              refine .form ended.isGiven accepts fun more behind inside => ?_
              rw [tried.length_eq ended] at behind
              exact tried.longer behind inside
      | error stream =>
          rcases tried.next correct several ran with
            ⟨atStart, noStart, noTries⟩ |
            ⟨fewer, isFewer, isLimit, notAtStart, next⟩
          · refine ⟨none, if_pos atStart, .failure fun more inside => ?_⟩
            rcases Nat.eq_zero_or_pos more with none | positive
            · rw [none]
              exact noStart
            · exact tried.longer (by omega) inside
          · obtain ⟨result, isResult, matched⟩ := ih next (by omega)
            refine ⟨result, ?_, matched⟩
            rw [← isResult, ← isLimit]
            exact if_neg notAtStart

/-! ## The fragments that remain -/

/-- The sentences of a constraint begin with its start fragment and are balanced
in their delimiters. -/
structure Balanced (grammar : List (Token Leaf Left Right) → Option Form) :
    Prop where
  begins : grammar [] = none
  balanced {tokens : List (Token Leaf Left Right)} {form : Form}
    (sentence : grammar tokens = some form) : lefts tokens = rights tokens

/-- The result for fragments with others behind them: the form of the longest
prefix that is a sentence together with what remains, or a failure if no prefix
is one. -/
structure LongestPrefix (grammar : List (Token Leaf Left Right) → Option Form)
    (constraintStart : Leaf) (tokens behind : List (Fragment Leaf Left Right))
    (result : Option (List (Fragment Leaf Left Right) × Form)) : Prop where
  failure : result = none ↔ ∀ taken rest, tokens = taken ++ rest →
    grammar (.leaf constraintStart :: allTokens taken) = none
  parsed {remains : List (Fragment Leaf Left Right)} {form : Form}
    (success : result = some (remains, form)) :
    ∃ taken rest, tokens = taken ++ rest ∧ remains = rest ++ behind ∧
      grammar (.leaf constraintStart :: allTokens taken) = some form ∧
      ∀ longer others, tokens = longer ++ others →
        taken.length < longer.length →
        grammar (.leaf constraintStart :: allTokens longer) = none

theorem cut_append {taken rest : List (Fragment Leaf Left Right)}
    (noStops : ∀ fragment ∈ taken, stops stop fragment = false) :
    cut stop (taken ++ rest) = taken ++ cut stop rest := by
  apply List.takeWhile_append_of_pos
  intro fragment member
  rw [noStops fragment member]
  rfl

theorem beyond_append {taken rest : List (Fragment Leaf Left Right)}
    (noStops : ∀ fragment ∈ taken, stops stop fragment = false) :
    beyond stop (taken ++ rest) = beyond stop rest := by
  apply List.dropWhile_append_of_pos
  intro fragment member
  rw [noStops fragment member]
  rfl

theorem cut_beyond (fragments : List (Fragment Leaf Left Right)) :
    cut stop fragments ++ beyond stop fragments = fragments :=
  List.takeWhile_append_dropWhile

theorem cut_start {constraintStart : Leaf}
    (noStop : stop constraintStart = false)
    (tokens : List (Fragment Leaf Left Right)) :
    cut stop (.token constraintStart :: tokens) =
      .token constraintStart :: cut stop tokens := by
  have noStop : stops stop
      (.token constraintStart : Fragment Leaf Left Right) = false := noStop
  rw [cut, List.takeWhile_cons, noStop]
  rfl

/-- After a sentence no fragment is left open, and some fragments were taken as
a whole. -/
theorem Stream.Given.sentence (isBalanced : Balanced grammar)
    (isGiven : stream.Given stop fragments given) {form : Form}
    (sentence : grammar given = some form) :
    ∃ taken, fragments = taken ++ stream.tokenStack ∧
      (∀ fragment ∈ taken, stops stop fragment = false) ∧
      given = allTokens taken := by
  have closed : stream.nestingStack = [] := by
    have depth := isGiven.depth
    rw [isBalanced.balanced sentence] at depth
    exact List.length_eq_zero_iff.mp (by omega)
  obtain ⟨taken, whole, noStops⟩ := isGiven.top
  have tokens := isGiven.whole
  rw [closed, atTop] at whole
  rw [closed, upcoming, whole, cut_append noStops, allTokens_append] at tokens
  exact ⟨taken, whole, noStops, (List.append_cancel_right tokens).symm⟩

/-- The tokens of a prefix of the fragments are a prefix of the tokens. -/
theorem allTokens_take (taken rest : List (Fragment Leaf Left Right)) :
    allTokens taken =
      (allTokens (taken ++ rest)).take (allTokens taken).length := by
  rw [allTokens_append, List.take_left]

theorem allTokens_length_le (taken rest : List (Fragment Leaf Left Right)) :
    (allTokens taken).length ≤ (allTokens (taken ++ rest)).length := by
  rw [allTokens_append, List.length_append]
  exact Nat.le_add_right _ _

/-- Of two prefixes the one with more fragments has more tokens. -/
theorem allTokens_length_lt
    {taken rest longer others : List (Fragment Leaf Left Right)}
    (whole : taken ++ rest = longer ++ others)
    (more : taken.length < longer.length) :
    (allTokens taken).length < (allTokens longer).length := by
  have isPrefix : taken <+: longer := by
    apply List.prefix_of_prefix_length_le (List.prefix_append taken rest) _
      (Nat.le_of_lt more)
    rw [whole]
    exact List.prefix_append longer others
  obtain ⟨extra, rfl⟩ := isPrefix
  cases extra with
  | nil => simp at more
  | cons fragment extra =>
      have positive := List.length_pos_iff.mpr (tokens_ne_nil fragment)
      rw [allTokens_append, allTokens, List.length_append, List.length_append]
      omega

/-- The result of the runs is the longest prefix. -/
theorem Matched.longestPrefix (isBalanced : Balanced grammar)
    {constraintStart : Leaf} (noStop : stop constraintStart = false)
    {tokens : List (Fragment Leaf Left Right)}
    {result : Option (List (Fragment Leaf Left Right) × Form)}
    (matched : Matched grammar stop (.token constraintStart :: tokens)
      result) :
    LongestPrefix grammar constraintStart (cut stop tokens)
      (beyond stop tokens) result := by
  have isStart : ∀ taken : List (Fragment Leaf Left Right),
      Token.leaf constraintStart :: allTokens taken =
        allTokens (.token constraintStart :: taken) := fun _ => rfl
  cases matched with
  | failure noSentence =>
      rw [cut_start noStop] at noSentence
      refine ⟨⟨fun _ taken rest whole => ?_, fun _ => rfl⟩, fun h => nomatch h⟩
      rw [isStart, allTokens_take _ rest, List.cons_append, ← whole]
      apply noSentence
      rw [whole, ← List.cons_append]
      exact allTokens_length_le _ rest
  | @form stream given form isGiven sentence longest =>
      obtain ⟨all, whole, noStops, isAll⟩ :=
        isGiven.sentence isBalanced sentence
      cases all with
      | nil =>
          rw [isAll, allTokens, isBalanced.begins] at sentence
          cases sentence
      | cons first taken =>
          rw [List.cons_append, List.cons.injEq] at whole
          obtain ⟨rfl, rfl⟩ := whole
          have noStopsTaken : ∀ fragment ∈ taken,
              stops stop fragment = false := fun fragment member =>
            noStops fragment (List.mem_cons_of_mem _ member)
          rw [cut_append noStopsTaken, beyond_append noStopsTaken]
          rw [isAll, ← isStart] at sentence
          refine ⟨⟨fun none => (nomatch none), fun noSentence => ?_⟩, ?_⟩
          · rw [noSentence taken _ rfl] at sentence
            cases sentence
          · intro remains other success
            rw [Option.some.injEq, Prod.mk.injEq] at success
            obtain ⟨rfl, rfl⟩ := success
            refine ⟨taken, cut stop stream.tokenStack, rfl,
              (cut_beyond _).symm, sentence, fun longer others same more => ?_⟩
            rw [isStart, allTokens_take _ others, List.cons_append, ← same]
            rw [cut_start noStop, cut_append noStopsTaken] at longest
            apply longest
            · rw [isAll]
              refine @allTokens_length_lt Leaf Left Right
                (.token constraintStart :: taken) (cut stop stream.tokenStack)
                (.token constraintStart :: longer) others ?_ ?_
              · rw [List.cons_append, List.cons_append, same]
              · rw [List.length_cons, List.length_cons]
                exact Nat.succ_lt_succ more
            · rw [same, ← List.cons_append]
              exact allTokens_length_le _ others

/-- There is one result. -/
theorem LongestPrefix.unique {constraintStart : Leaf}
    {tokens behind : List (Fragment Leaf Left Right)}
    {first second : Option (List (Fragment Leaf Left Right) × Form)}
    (isFirst : LongestPrefix grammar constraintStart tokens behind first)
    (isSecond : LongestPrefix grammar constraintStart tokens behind second) :
    first = second := by
  cases first with
  | none => rw [isSecond.failure.mpr (isFirst.failure.mp rfl)]
  | some match₁ =>
      cases second with
      | none => rw [isFirst.failure.mpr (isSecond.failure.mp rfl)]
      | some match₂ =>
          obtain ⟨taken₁, rest₁, whole₁, remains₁, sentence₁, longest₁⟩ :=
            isFirst.parsed rfl
          obtain ⟨taken₂, rest₂, whole₂, remains₂, sentence₂, longest₂⟩ :=
            isSecond.parsed rfl
          have notLonger : ¬taken₁.length < taken₂.length := by
            intro longer
            rw [longest₁ taken₂ rest₂ whole₂ longer] at sentence₂
            cases sentence₂
          have notShorter : ¬taken₂.length < taken₁.length := by
            intro longer
            rw [longest₂ taken₁ rest₁ whole₁ longer] at sentence₁
            cases sentence₁
          rw [whole₁] at whole₂
          obtain ⟨rfl, rfl⟩ := List.append_inj whole₂ (by omega)
          rw [sentence₁, Option.some.injEq] at sentence₂
          rw [Option.some.injEq]
          exact Prod.ext (remains₁.trans remains₂.symm) sentence₂

/-- The bounded constraint parser ends with the longest prefix before the first
token that stops it. -/
theorem parseBoundedConstraint_spec (correct : CorrectPrefix parser grammar)
    (isBalanced : Balanced grammar) {constraintStart : Leaf}
    (noStop : stop constraintStart = false)
    (tokens : List (Fragment Leaf Left Right)) {fuel : Nat}
    (enough : (allTokens tokens).length + 2 ≤ fuel) :
    ∃ result, parseBoundedConstraint parser fuel constraintStart tokens stop =
        some result ∧
      LongestPrefix grammar constraintStart (cut stop tokens)
        (beyond stop tokens) result := by
  have inside : (allTokens (cut stop tokens)).length ≤
      (allTokens tokens).length := by
    conv_rhs => rw [← @cut_beyond Leaf Left Right stop tokens]
    exact allTokens_length_le _ _
  have length : (allTokens (cut stop (.token constraintStart :: tokens))).length
      = (allTokens (cut stop tokens)).length + 1 := by
    rw [cut_start noStop, allTokens, Fragment.tokens]
    rfl
  have short : (allTokens (cut stop (.token constraintStart :: tokens))).length
      < fuel := by omega
  obtain ⟨result, isResult, matched⟩ :=
    retry_spec correct (by omega) short .first short
  exact ⟨result, isResult, matched.longestPrefix isBalanced noStop⟩

/-- The bounded constraint parser comes to one result, which is the longest
prefix before the first token that stops it. -/
theorem parseBoundedConstraint_ends (correct : CorrectPrefix parser grammar)
    (isBalanced : Balanced grammar) {constraintStart : Leaf}
    (noStop : stop constraintStart = false)
    (tokens : List (Fragment Leaf Left Right)) :
    ∃ result, (∀ fuel ≥ (allTokens tokens).length + 2,
        parseBoundedConstraint parser fuel constraintStart tokens stop =
          some result) ∧
      LongestPrefix grammar constraintStart (cut stop tokens)
        (beyond stop tokens) result := by
  obtain ⟨result, _, longest⟩ := parseBoundedConstraint_spec correct isBalanced
    noStop tokens (Nat.le_refl _)
  refine ⟨result, fun fuel enough => ?_, longest⟩
  obtain ⟨other, isOther, alsoLongest⟩ :=
    parseBoundedConstraint_spec correct isBalanced noStop tokens enough
  rw [isOther, alsoLongest.unique longest]

theorem stops_never (fragment : Fragment Leaf Left Right) :
    stops (fun _ => false) fragment = false := by
  cases fragment <;> rfl

theorem cut_never (tokens : List (Fragment Leaf Left Right)) :
    cut (fun _ => false) tokens = tokens := by
  rw [← List.append_nil tokens,
    cut_append fun fragment _ => stops_never fragment]
  rfl

theorem beyond_never (tokens : List (Fragment Leaf Left Right)) :
    beyond (fun _ => false) tokens = [] := by
  rw [← List.append_nil tokens,
    beyond_append fun fragment _ => stops_never fragment]
  rfl

end Prefixes

/-! ## Sums as a constraint -/

/-- The tokens of sums. -/
inductive SumLeaf where
  | start
  | one
  | plus
  deriving DecidableEq

/-- What is to come in a sum, which may contain sums in delimiters that contain
none. -/
inductive SumState where
  | start
  | operand (nested : Bool)
  | operator (nested : Bool)

/-- A parser of sums. -/
def sumParser : Machine (Token SumLeaf Unit Unit) SumState Unit where
  start := .start
  shift
    | .start, .leaf .start => some (.operand false)
    | .operand nested, .leaf .one => some (.operator nested)
    | .operand false, .left () => some (.operand true)
    | .operator nested, .leaf .plus => some (.operand nested)
    | .operator true, .right () => some (.operator false)
    | _, _ => none
  accept
    | .operator false => some ()
    | _ => none

/-- The number of delimiters that are open. -/
def SumState.depth : SumState → Nat
  | .operand true | .operator true => 1
  | _ => 0

theorem sumParser_correct : CorrectPrefix sumParser (accepted sumParser) := by
  apply CorrectPrefix.accepted
  intro state
  match state with
  | .start => exact ⟨[.leaf .start, .leaf .one], rfl⟩
  | .operand false => exact ⟨[.leaf .one], rfl⟩
  | .operand true => exact ⟨[.leaf .one, .right ()], rfl⟩
  | .operator false => exact ⟨[], rfl⟩
  | .operator true => exact ⟨[.right ()], rfl⟩

theorem sumParser_shift_depth {state next : SumState}
    {token : Token SumLeaf Unit Unit}
    (shifts : sumParser.shift state token = some next) :
    state.depth + lefts [token] = next.depth + rights [token] := by
  revert shifts
  rcases state with _ | nested | nested <;>
    rcases token with leaf | _ | _ <;>
    (try rcases leaf) <;> (try rcases nested) <;> rintro ⟨⟩ <;> rfl

theorem sumParser_depth {state next : SumState}
    {tokens : List (Token SumLeaf Unit Unit)}
    (runs : run sumParser state tokens = some next) :
    state.depth + lefts tokens = next.depth + rights tokens := by
  induction tokens generalizing state with
  | nil =>
      cases runs
      rfl
  | cons token rest ih =>
      rw [run] at runs
      obtain ⟨after, shifts, runs⟩ := Option.bind_eq_some_iff.mp runs
      have first := sumParser_shift_depth shifts
      have others := ih runs
      rw [← List.singleton_append, lefts_append, rights_append]
      omega

theorem sumParser_balanced : Balanced (accepted sumParser) where
  begins := rfl
  balanced {tokens form} sentence := by
    obtain ⟨state, runs, accepts⟩ := Option.bind_eq_some_iff.mp sentence
    have depth := sumParser_depth runs
    match state with
    | .operator false =>
        have start : sumParser.start.depth = 0 := rfl
        have outside : (SumState.operator false).depth = 0 := rfl
        omega

/-- A sum that goes on after the first operand but does not come to an end. -/
def unfinishedSum : List (Fragment SumLeaf Unit Unit) :=
  [.token .one, .token .plus, .nested () [.token .one, .token .plus] ()]

/-! ## Constraints -/

section Constraints

variable {Leaf Left Right State Form : Type}
  {parser : Machine (Token Leaf Left Right) State Form}
  {grammar : List (Token Leaf Left Right) → Option Form}

/-- Constraints take the longest prefix that is a sentence, of all fragments or
of those before the first token that stops the parser. -/
theorem constraints_take_longest (correct : CorrectPrefix parser grammar)
    (isBalanced : Balanced grammar) (constraintStart : Leaf)
    (tokens : List (Fragment Leaf Left Right)) :
    (∃ bound result, (∀ fuel ≥ bound,
        parseConstraint parser fuel constraintStart tokens = some result) ∧
      LongestPrefix grammar constraintStart tokens [] result) ∧
    ∀ stop, stop constraintStart = false →
      ∃ bound result, (∀ fuel ≥ bound,
          parseBoundedConstraint parser fuel constraintStart tokens stop =
            some result) ∧
        LongestPrefix grammar constraintStart (cut stop tokens)
          (beyond stop tokens) result := by
  constructor
  · obtain ⟨result, isResult, longest⟩ := @parseBoundedConstraint_ends _ _ _ _ _
      (fun _ => false) _ _ correct isBalanced constraintStart rfl tokens
    rw [cut_never, beyond_never] at longest
    exact ⟨_, result, isResult, longest⟩
  · intro stop noStop
    exact ⟨_, parseBoundedConstraint_ends correct isBalanced noStop tokens⟩

end Constraints

theorem constraints_take_longest_sum :
    (∃ bound result, (∀ fuel ≥ bound,
        parseConstraint sumParser fuel .start unfinishedSum = some result) ∧
      LongestPrefix (accepted sumParser) .start unfinishedSum [] result) ∧
    (∃ bound result, (∀ fuel ≥ bound,
        parseBoundedConstraint sumParser fuel .start unfinishedSum
          (fun leaf => leaf == .plus) = some result) ∧
      LongestPrefix (accepted sumParser) .start [.token .one]
        [.token .plus, .nested () [.token .one, .token .plus] ()] result) ∧
    parseConstraint sumParser 8 .start unfinishedSum =
      some (some
        ([.token .plus, .nested () [.token .one, .token .plus] ()], ())) := by
  have longest := constraints_take_longest sumParser_correct sumParser_balanced
    .start unfinishedSum
  exact ⟨longest.1, longest.2 (fun leaf => leaf == .plus) rfl, rfl⟩

end OpenDylan.Compiler.ConstraintParsing
