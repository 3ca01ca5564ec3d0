import OpenDylan.Compiler.LexerLines
import OpenDylan.Compiler.LexerPlacement

/-!
# What the lexer remembers

The counts of comment delimiters and of double quotes belong to the token that
is being read: they are zero between tokens.  The end of a comment resets the
first two, and making a fragment of a string the others.  Nothing resets them
when a string or a delimited comment turns out to be no token, so that those
are left out here.

Besides its position, a lexer then remembers only the previous token, which
decides whether a name with a colon is constrained or qualified.
-/

namespace OpenDylan.Compiler.Lexer

/-! ## The parts of the machine -/

/-- The parts of the machine that count, and the rest. -/
inductive Region where
  | plain
  | string
  | comment
  | dead
deriving DecidableEq

/-- The part that a state belongs to. -/
def region : StateName → Region
  | .notAllowed => .dead
  | .delimitedCommentStart | .delimitedCommentSlash
  | .delimitedCommentSlashSlash | .delimitedCommentStar
  | .delimitedCommentBody | .delimitedCommentEnd => .comment
  | .stringStart | .twoDoubleQuotes | .drmStringBody | .drmStringEnd
  | .drmStringEscape | .drmStringEscapeLess | .drmStringHexCharDigits
  | .multiStringStart | .multiStringBody | .multiStringBodyContinue
  | .multiStringEnd | .multiStringEscape | .multiStringEscapeLess
  | .multiStringHexCharDigits | .rawStringStart | .rawTwoDoubleQuotes
  | .rawOneLineStringBody | .rawOneLineStringEnd | .rawMultiStringStart
  | .rawMultiStringBody | .rawMultiStringBodyContinue
  | .rawMultiStringEnd => .string
  | _ => .plain

/-- The builders of strings, which reset the counts of quotes. -/
def isString : Builder → Bool
  | .makeStringishLiteral | .makeRawStringLiteral => true
  | _ => false

/-- The transitions between the parts: a part that counts is entered only at
the beginning of a token. -/
def flows (source target : StateName) : Bool :=
  match region source, region target with
  | .plain, .plain =>
      target ≠ .start &&
      (target ≠ .slash || source = .start) &&
      (target ≠ .sharp || source = .start) &&
      (target ≠ .sharpR || source = .sharp)
  | .plain, .string =>
      (target = .stringStart && (source = .start || source = .sharp)) ||
      (target = .rawStringStart && source = .sharpR)
  | .plain, .comment => target = .delimitedCommentStart && source = .slash
  | .string, .string => true
  | .comment, .comment => target ≠ .delimitedCommentStart ||
      source = .delimitedCommentSlash
  | .plain, .dead | .string, .dead => true
  | _, _ => false

theorem transitions_flow (name : StateName) :
    (machine name).transitions.all (fun transition =>
      flows name transition.2) = true := by
  cases name <;> rfl

/-- The actions of a part count what belongs to it. -/
def counts : Region → Option Action → Bool
  | _, none => true
  | .string, some .incrementDoubleQuoteStartCount => true
  | .string, some .incrementDoubleQuoteEndCount => true
  | .string, some .resetDoubleQuoteEndCount => true
  | .comment, some .incrementDelimitedCommentStartCount => true
  | .comment, some .incrementDelimitedCommentEndCount => true
  | _, _ => false

theorem machine_counts (name : StateName) :
    counts (region name) (machine name).action = true := by
  cases name <;> rfl

/-- What the states of a part can accept. -/
def accepts : Region → Option Builder → Bool
  | _, none => true
  | .plain, some builder => !isString builder
  | .string, some builder => isString builder
  | .comment, some builder => builder = .comment
  | .dead, some _ => false

theorem machine_accepts (name : StateName) :
    accepts (region name) (machine name).fragmentBuilder = true := by
  cases name <;> rfl

/-! ## Characters at the beginning of a token -/

/-- A text begins with the delimiter of a string or of a delimited comment. -/
def opensCounted (text : List Code) : Bool :=
  [34].isPrefixOf text || [35, 34].isPrefixOf text ||
    [35, 114, 34].isPrefixOf text || [35, 82, 34].isPrefixOf text ||
    [47, 42].isPrefixOf text

theorem next_flows {name new : StateName} {code : Code}
    (next : name.next code = some new) : flows name new = true := by
  rw [StateName.next, Option.map_eq_some_iff] at next
  obtain ⟨transition, found, rfl⟩ := next
  exact List.all_eq_true.mp (transitions_flow name) transition
    (List.mem_of_find?_eq_some found)

/-- The characters that lead to a part that counts, looked up code by code. -/
theorem opening_transitions (code : Code) :
    ((StateName.start.next code = some .slash → code = 47) ∧
      (StateName.start.next code = some .sharp → code = 35) ∧
      (StateName.start.next code = some .stringStart → code = 34)) ∧
    ((StateName.sharp.next code = some .sharpR → code = 114 ∨ code = 82) ∧
      (StateName.sharp.next code = some .stringStart → code = 34)) ∧
    (StateName.sharpR.next code = some .rawStringStart → code = 34) ∧
    (StateName.slash.next code = some .delimitedCommentStart →
      code = 42) := by
  revert code
  decide +kernel

theorem start_next (code : Code) :
    (StateName.start.next code = some .slash → code = 47) ∧
      (StateName.start.next code = some .sharp → code = 35) ∧
      (StateName.start.next code = some .stringStart → code = 34) :=
  (opening_transitions code).1

theorem sharp_next (code : Code) :
    (StateName.sharp.next code = some .sharpR → code = 114 ∨ code = 82) ∧
      (StateName.sharp.next code = some .stringStart → code = 34) :=
  (opening_transitions code).2.1

theorem sharpR_next (code : Code) :
    StateName.sharpR.next code = some .rawStringStart → code = 34 :=
  (opening_transitions code).2.2.1

theorem slash_next (code : Code) :
    StateName.slash.next code = some .delimitedCommentStart → code = 42 :=
  (opening_transitions code).2.2.2

/-! ## Counting while a token is read -/

/-- Nothing is counted. -/
structure Lexer.Quiet (lexer : Lexer) : Prop where
  doubleQuoteStartCount : lexer.doubleQuoteStartCount = 0
  doubleQuoteEndCount : lexer.doubleQuoteEndCount = 0
  delimitedCommentStartCount : lexer.delimitedCommentStartCount = 0
  delimitedCommentEndCount : lexer.delimitedCommentEndCount = 0

/-- A string is being read. -/
structure Scan.InString (text : List Code) (scan : Scan) : Prop where
  delimitedCommentStartCount : scan.lexer.delimitedCommentStartCount = 0
  delimitedCommentEndCount : scan.lexer.delimitedCommentEndCount = 0
  builder : ∀ builder, scan.builder = some builder → isString builder
  opens : opensCounted text

/-- A delimited comment is being read. -/
structure Scan.InComment (text : List Code) (scan : Scan) : Prop where
  doubleQuoteStartCount : scan.lexer.doubleQuoteStartCount = 0
  doubleQuoteEndCount : scan.lexer.doubleQuoteEndCount = 0
  builder : scan.builder = none
  opens : opensCounted text

/-- What was read of a token in the first states, and what is left. -/
def Trail (text rest : List Code) (builder : Option Builder) :
    StateName → Prop
  | .start => builder = none ∧ text = rest
  | .sharp => builder = none ∧ text = 35 :: rest
  | .sharpR => builder = none ∧
      ∃ code, (code = 114 ∨ code = 82) ∧ text = 35 :: code :: rest
  | .slash => text = 47 :: rest
  | _ => True

/-- What is counted in a state. -/
def Scan.Counting (text rest : List Code) (name : StateName) (scan : Scan) :
    Prop :=
  match region name with
  | .plain => scan.lexer.Quiet ∧ Trail text rest scan.builder name
  | .string => scan.InString text
  | .comment => scan.InComment text
  | .dead => scan.lexer.Quiet ∨ scan.InString text

theorem Scan.readCode_eq (scan : Scan) (code : Code) (pos : Nat) :
    (scan.readCode code pos).lexer = scan.lexer ∧
      (scan.readCode code pos).builder = scan.builder ∧
      (scan.readCode code pos).startPos = scan.startPos := by
  rw [Scan.readCode]
  split
  · exact ⟨rfl, rfl, rfl⟩
  · exact ⟨rfl, rfl, rfl⟩

section Machine

variable {contents text rest : List Code} {code : Code} {name new : StateName}
  {pos : Nat} {scan : Scan}

/-- What is known before a state of a part is entered. -/
inductive Scan.Before (text rest : List Code) (scan : Scan) :
    StateName → Prop where
  | plain {new : StateName} (inPlain : region new = .plain)
      (quiet : scan.lexer.Quiet)
      (trail : Trail text rest scan.builder new) : Before text rest scan new
  | string {new : StateName} (isString : region new = .string)
      (inString : scan.InString text) : Before text rest scan new
  | comment {new : StateName} (isComment : region new = .comment)
      (inComment : scan.InComment text) : Before text rest scan new
  | commentStart (quiet : scan.lexer.Quiet) (opens : opensCounted text) :
      Before text rest scan .delimitedCommentStart
  | dead {new : StateName} (isDead : region new = .dead)
      (either : scan.lexer.Quiet ∨ scan.InString text) :
      Before text rest scan new

theorem trail_other {builder : Option Builder} (notStart : new ≠ .start)
    (notSharp : new ≠ .sharp) (notSharpR : new ≠ .sharpR)
    (notSlash : new ≠ .slash) : Trail text rest builder new := by
  unfold Trail
  split
  · exact absurd rfl notStart
  · exact absurd rfl notSharp
  · exact absurd rfl notSharpR
  · exact absurd rfl notSlash
  · trivial

/-- The trail of a plain state after a transition from one. -/
theorem Trail.next {builder : Option Builder}
    (trail : Trail text (code :: rest) builder name)
    (next : name.next code = some new) (source : region name = .plain)
    (target : region new = .plain) : Trail text rest builder new := by
  have flow := next_flows next
  simp only [flows, source, target, Bool.and_eq_true, Bool.or_eq_true,
    decide_eq_true_eq] at flow
  obtain ⟨⟨⟨notStart, slash⟩, sharp⟩, sharpR⟩ := flow
  by_cases isSlash : new = .slash
  · subst isSlash
    obtain rfl := slash.resolve_left (by simp)
    rw [(start_next code).1 next] at trail
    exact trail.2
  · by_cases isSharp : new = .sharp
    · subst isSharp
      obtain rfl := sharp.resolve_left (by simp)
      rw [(start_next code).2.1 next] at trail
      exact trail
    · by_cases isSharpR : new = .sharpR
      · subst isSharpR
        obtain rfl := sharpR.resolve_left (by simp)
        exact ⟨trail.1, code, (sharp_next code).1 next, trail.2⟩
      · exact trail_other notStart isSharp isSharpR isSlash

/-- The trail of a plain state that a string begins after. -/
theorem Trail.string {builder : Option Builder}
    (trail : Trail text (code :: rest) builder name)
    (next : name.next code = some new) (source : region name = .plain)
    (target : region new = .string) :
    builder = none ∧ opensCounted text = true := by
  have flow := next_flows next
  simp only [flows, source, target, Bool.and_eq_true, Bool.or_eq_true,
    decide_eq_true_eq] at flow
  rcases flow with ⟨rfl, rfl | rfl⟩ | ⟨rfl, rfl⟩
  · rw [(start_next code).2.2 next] at trail
    rw [trail.2]
    exact ⟨trail.1, by simp [opensCounted, List.isPrefixOf]⟩
  · rw [(sharp_next code).2 next] at trail
    rw [trail.2]
    exact ⟨trail.1, by simp [opensCounted, List.isPrefixOf]⟩
  · rw [sharpR_next code next] at trail
    obtain ⟨builder, letter, rfl | rfl, shape⟩ := trail
    · rw [shape]
      exact ⟨builder, by simp [opensCounted, List.isPrefixOf]⟩
    · rw [shape]
      exact ⟨builder, by simp [opensCounted, List.isPrefixOf]⟩

/-- A transition leads to such a state. -/
theorem Scan.Counting.before (counting : scan.Counting text (code :: rest) name)
    (next : name.next code = some new) : scan.Before text rest new := by
  have flow := next_flows next
  cases source : region name with
  | dead =>
      simp only [flows, source] at flow
      cases flow
  | comment =>
      simp only [Scan.Counting, source] at counting
      cases target : region new with
      | comment => exact .comment target counting
      | plain => simp [flows, source, target] at flow
      | string => simp [flows, source, target] at flow
      | dead => simp [flows, source, target] at flow
  | string =>
      simp only [Scan.Counting, source] at counting
      cases target : region new with
      | string => exact .string target counting
      | dead => exact .dead target (Or.inr counting)
      | plain => simp [flows, source, target] at flow
      | comment => simp [flows, source, target] at flow
  | plain =>
      simp only [Scan.Counting, source] at counting
      obtain ⟨quiet, trail⟩ := counting
      cases target : region new with
      | plain => exact .plain target quiet (trail.next next source target)
      | string =>
          obtain ⟨builder, opens⟩ := trail.string next source target
          refine .string target ⟨quiet.delimitedCommentStartCount,
            quiet.delimitedCommentEndCount, ?_, opens⟩
          rw [builder]
          simp
      | comment =>
          simp only [flows, source, target, Bool.and_eq_true,
            decide_eq_true_eq] at flow
          obtain ⟨rfl, rfl⟩ := flow
          rw [slash_next code next] at trail
          refine .commentStart quiet ?_
          rw [show text = 47 :: 42 :: rest from trail]
          simp [opensCounted, List.isPrefixOf]
      | dead => exact .dead target (Or.inl quiet)

/-- What is counted when the machine has come to an end: nothing, or the
quotes of a string that is accepted, unless no token was found. -/
inductive Scan.Settled (contents : List Code) (scan : Scan) : Prop where
  | quiet (quiet : scan.lexer.Quiet)
  | string {builder : Builder} (isBuilder : scan.builder = some builder)
      (string : isString builder)
      (startCount : scan.lexer.delimitedCommentStartCount = 0)
      (endCount : scan.lexer.delimitedCommentEndCount = 0)
  | opens (noBuilder : scan.builder = none)
      (opens : opensCounted (contents.drop scan.startPos))

theorem Scan.InString.settled
    (inString : scan.InString (contents.drop scan.startPos)) :
    scan.Settled contents := by
  cases found : scan.builder with
  | none => exact .opens found inString.opens
  | some builder =>
      exact .string found (inString.builder builder found)
        inString.delimitedCommentStartCount inString.delimitedCommentEndCount

theorem Scan.Counting.settled
    (counting : scan.Counting (contents.drop scan.startPos) rest name) :
    scan.Settled contents := by
  rw [Scan.Counting] at counting
  split at counting
  · exact .quiet counting.1
  · exact counting.settled
  · exact .opens counting.builder counting.opens
  · rcases counting with quiet | inString
    · exact .quiet quiet
    · exact inString.settled

/-- The counts that a state goes on with. -/
def Next.Counting (contents rest : List Code) : Next → Prop
  | .advance name scan =>
      scan.Counting (contents.drop scan.startPos) rest name
  | .stop scan => scan.Settled contents
  | .failed _ => False

theorem action_eq_none (other : region new ≠ .string)
    (another : region new ≠ .comment) : (machine new).action = none := by
  have counted := machine_counts new
  cases isAction : (machine new).action with
  | none => rfl
  | some action =>
      rw [isAction] at counted
      cases isRegion : region new with
      | string => exact absurd isRegion other
      | comment => exact absurd isRegion another
      | plain =>
          rw [isRegion] at counted
          cases action <;> cases counted
      | dead =>
          rw [isRegion] at counted
          cases action <;> cases counted

/-- Entering a state without an action. -/
theorem enter_of_noAction (noAction : (machine new).action = none)
    (pos : Nat) (scan : Scan) :
    enter new pos scan =
      match (machine new).fragmentBuilder with
      | none => .advance new scan
      | some .whitespace => .advance .start (scan.startOver pos)
      | some .comment =>
          .advance .start ({ scan with
            lexer := scan.lexer.resetDelimitedComment }.startOver pos)
      | some builder =>
          .advance new (scan.saveAcceptingState pos builder) := by
  rw [enter, doStateAction, noAction]
  cases found : (machine new).fragmentBuilder with
  | none => rfl
  | some builder => cases builder <;> rfl

theorem enter_plain (inPlain : region new = .plain)
    (quiet : scan.lexer.Quiet)
    (trail : Trail (contents.drop scan.startPos) (contents.drop pos)
      scan.builder new) :
    (enter new pos scan).Counting contents (contents.drop pos) := by
  rw [enter_of_noAction (action_eq_none (by simp [inPlain])
    (by simp [inPlain]))]
  split
  · simp only [Next.Counting, Scan.Counting, inPlain]
    exact ⟨quiet, trail⟩
  · exact ⟨quiet, rfl, rfl⟩
  · exact ⟨⟨quiet.doubleQuoteStartCount, quiet.doubleQuoteEndCount, rfl, rfl⟩,
      rfl, rfl⟩
  · next builder _ _ found =>
      simp only [Next.Counting, Scan.Counting, inPlain]
      refine ⟨quiet, ?_⟩
      -- The states whose trail knows of no builder do not accept.
      by_cases isSlash : new = .slash
      · subst isSlash
        exact trail
      · apply trail_other _ _ _ isSlash
        · rintro rfl
          cases found
        · rintro rfl
          cases found
        · rintro rfl
          cases found

theorem enter_dead (isDead : region new = .dead)
    (either : scan.lexer.Quiet ∨
      scan.InString (contents.drop scan.startPos)) :
    (enter new pos scan).Counting contents (contents.drop pos) := by
  have accepted := machine_accepts new
  rw [isDead] at accepted
  rw [enter_of_noAction (action_eq_none (by simp [isDead])
    (by simp [isDead]))]
  cases found : (machine new).fragmentBuilder with
  | none =>
      simp only [Next.Counting, Scan.Counting, isDead]
      exact either
  | some builder =>
      rw [found] at accepted
      cases accepted

/-- What is counted in a string after an action, and whether it is saved. -/
theorem Scan.InString.change {lexer : Lexer}
    (inString : scan.InString text)
    (startCount : lexer.delimitedCommentStartCount =
      scan.lexer.delimitedCommentStartCount)
    (endCount : lexer.delimitedCommentEndCount =
      scan.lexer.delimitedCommentEndCount) :
    { scan with lexer := lexer }.InString text :=
  ⟨startCount.trans inString.delimitedCommentStartCount,
    endCount.trans inString.delimitedCommentEndCount, inString.builder,
    inString.opens⟩

theorem Scan.InString.save (inString : scan.InString text) (pos : Nat)
    {builder : Builder} (string : isString builder) :
    (scan.saveAcceptingState pos builder).InString text where
  delimitedCommentStartCount := inString.delimitedCommentStartCount
  delimitedCommentEndCount := inString.delimitedCommentEndCount
  builder _ saved := by
    cases saved
    exact string
  opens := inString.opens

/-- Entering a state of a string, with the answer of its action. -/
theorem enter_string_of_answer {answer : Acceptable} {lexer : Lexer}
    (string : region new = .string)
    (acted : doStateAction scan.lexer new = (answer, lexer))
    (notCleared : answer ≠ .clearPrevious)
    (previous : answer = .usePrevious → (machine new).fragmentBuilder = none)
    (inString : { scan with lexer := lexer }.InString
      (contents.drop scan.startPos)) :
    (enter new pos scan).Counting contents (contents.drop pos) := by
  have accepted := machine_accepts new
  rw [string] at accepted
  have kept : ∀ {scan : Scan}, scan.InString (contents.drop scan.startPos) →
      (Next.advance new scan).Counting contents (contents.drop pos) := by
    intro scan inString
    simp only [Next.Counting, Scan.Counting, string]
    exact inString
  rw [enter, acted]
  cases found : (machine new).fragmentBuilder with
  | none =>
      cases answer with
      | clearPrevious => exact absurd rfl notCleared
      | _ => exact kept inString
  | some builder =>
      rw [found] at accepted
      have saved := inString.save pos accepted
      cases answer with
      | clearPrevious => exact absurd rfl notCleared
      | usePrevious => simp [previous rfl] at found
      | no => exact kept inString
      | yes =>
          cases builder with
          | makeStringishLiteral => exact kept saved
          | makeRawStringLiteral => exact kept saved
          | _ => cases accepted
      | accept =>
          cases builder with
          | makeStringishLiteral => exact saved.settled
          | makeRawStringLiteral => exact saved.settled
          | _ => cases accepted

theorem machine_reset (name : StateName) :
    (machine name).action = some .resetDoubleQuoteEndCount →
      (machine name).fragmentBuilder = none := by
  cases name <;> decide

theorem enter_string (string : region new = .string)
    (inString : scan.InString (contents.drop scan.startPos)) :
    (enter new pos scan).Counting contents (contents.drop pos) := by
  have counted := machine_counts new
  rw [string] at counted
  have ofBool : ∀ answer : Bool, Acceptable.ofBool answer ≠ .clearPrevious ∧
      Acceptable.ofBool answer ≠ .usePrevious := by
    intro answer
    cases answer <;> decide
  cases isAction : (machine new).action with
  | none =>
      have acted : doStateAction scan.lexer new =
          (.ofBool (machine new).fragmentBuilder.isSome, scan.lexer) := by
        rw [doStateAction, isAction]
      exact enter_string_of_answer string acted (ofBool _).1
        (fun previous => absurd previous (ofBool _).2) inString
  | some action =>
      rw [isAction] at counted
      cases action with
      | incrementDelimitedCommentStartCount => cases counted
      | incrementDelimitedCommentEndCount => cases counted
      | incrementDoubleQuoteStartCount =>
          have acted : ∃ answer, doStateAction scan.lexer new =
              (.ofBool answer, { scan.lexer with doubleQuoteStartCount :=
                scan.lexer.doubleQuoteStartCount + 1 }) := by
            rw [doStateAction, isAction]
            simp only [Action.run]
            cases 2 == scan.lexer.doubleQuoteStartCount + 1 with
            | true => exact ⟨_, rfl⟩
            | false => exact ⟨false, rfl⟩
          obtain ⟨answer, acted⟩ := acted
          exact enter_string_of_answer string acted (ofBool _).1
            (fun previous => absurd previous (ofBool _).2)
            (inString.change rfl rfl)
      | incrementDoubleQuoteEndCount =>
          have acted : ∃ answer, answer ≠ .clearPrevious ∧
              answer ≠ .usePrevious ∧ doStateAction scan.lexer new =
                (answer, { scan.lexer with doubleQuoteEndCount :=
                  scan.lexer.doubleQuoteEndCount + 1 }) := by
            by_cases closed : scan.lexer.doubleQuoteEndCount + 1 =
                scan.lexer.doubleQuoteStartCount ∧
                  scan.lexer.doubleQuoteEndCount + 1 ≠ 2
            · refine ⟨.accept, by simp, by simp, ?_⟩
              simp only [doStateAction, isAction, Action.run, if_pos closed]
            · refine ⟨.no, by simp, by simp, ?_⟩
              simp only [doStateAction, isAction, Action.run, if_neg closed]
          obtain ⟨answer, notCleared, notPrevious, acted⟩ := acted
          exact enter_string_of_answer string acted notCleared
            (fun previous => absurd previous notPrevious)
            (inString.change rfl rfl)
      | resetDoubleQuoteEndCount =>
          have acted : ∃ answer, answer ≠ .clearPrevious ∧
              doStateAction scan.lexer new =
                (answer, { scan.lexer with doubleQuoteEndCount := 0 }) := by
            by_cases closed : scan.lexer.doubleQuoteStartCount =
                scan.lexer.doubleQuoteEndCount ∨
                  scan.lexer.doubleQuoteStartCount = 2
            · refine ⟨.usePrevious, by simp, ?_⟩
              simp only [doStateAction, isAction, Action.run, if_pos closed]
            · refine ⟨.no, by simp, ?_⟩
              simp only [doStateAction, isAction, Action.run, if_neg closed]
          obtain ⟨answer, notCleared, acted⟩ := acted
          exact enter_string_of_answer string acted notCleared
            (fun _ => machine_reset new isAction) (inString.change rfl rfl)

/-- The state that begins a comment forgets the operator that was accepted. -/
theorem enter_commentStart (quiet : scan.lexer.doubleQuoteStartCount = 0 ∧
      scan.lexer.doubleQuoteEndCount = 0)
    (opens : opensCounted (contents.drop scan.startPos)) :
    (enter .delimitedCommentStart pos scan).Counting contents
      (contents.drop pos) :=
  ⟨quiet.1, quiet.2, rfl, opens⟩

/-- The `*/` that closes the outermost comment. -/
theorem enter_commentEnd_over
    (closed : scan.lexer.delimitedCommentEndCount + 1 =
      scan.lexer.delimitedCommentStartCount) :
    enter .delimitedCommentEnd pos scan =
      .advance .start ({ scan with
        lexer := { scan.lexer with
          delimitedCommentStartCount := 0
          delimitedCommentEndCount := 0 } }.startOver pos) := by
  simp [enter, doStateAction, machine, conditionallyAcceptingState,
    Action.run, Acceptable.ofBool, closed, Lexer.resetDelimitedComment]

/-- The `*/` that closes an inner comment. -/
theorem enter_commentEnd_goesOn
    (inner : scan.lexer.delimitedCommentEndCount + 1 ≠
      scan.lexer.delimitedCommentStartCount) :
    enter .delimitedCommentEnd pos scan =
      .advance .delimitedCommentEnd { scan with
        lexer := { scan.lexer with delimitedCommentEndCount :=
          scan.lexer.delimitedCommentEndCount + 1 } } := by
  simp [enter, doStateAction, machine, conditionallyAcceptingState,
    Action.run, Acceptable.ofBool, inner]

theorem enter_comment (comment : region new = .comment)
    (inComment : scan.InComment (contents.drop scan.startPos)) :
    (enter new pos scan).Counting contents (contents.drop pos) := by
  have kept : region new = .comment →
      (Next.advance new scan).Counting contents (contents.drop pos) := by
    intro comment
    simp only [Next.Counting, Scan.Counting, comment]
    exact inComment
  cases new with
  | delimitedCommentStart =>
      exact enter_commentStart ⟨inComment.doubleQuoteStartCount,
        inComment.doubleQuoteEndCount⟩ inComment.opens
  | delimitedCommentSlash => exact kept rfl
  | delimitedCommentSlashSlash => exact kept rfl
  | delimitedCommentStar => exact kept rfl
  | delimitedCommentBody => exact kept rfl
  | delimitedCommentEnd =>
      by_cases closed : scan.lexer.delimitedCommentEndCount + 1 =
          scan.lexer.delimitedCommentStartCount
      · rw [enter_commentEnd_over closed]
        exact ⟨⟨inComment.doubleQuoteStartCount,
          inComment.doubleQuoteEndCount, rfl, rfl⟩, rfl, rfl⟩
      · rw [enter_commentEnd_goesOn closed]
        exact ⟨inComment.doubleQuoteStartCount,
          inComment.doubleQuoteEndCount, inComment.builder, inComment.opens⟩
  | _ => cases comment

/-- Entering a state keeps what is counted in order. -/
theorem Scan.Before.enter
    (before : scan.Before (contents.drop scan.startPos) (contents.drop pos)
      new) :
    (enter new pos scan).Counting contents (contents.drop pos) := by
  cases before with
  | plain inPlain quiet trail => exact enter_plain inPlain quiet trail
  | string string inString => exact enter_string string inString
  | comment comment inComment => exact enter_comment comment inComment
  | commentStart quiet opens =>
      exact enter_commentStart
        ⟨quiet.doubleQuoteStartCount, quiet.doubleQuoteEndCount⟩ opens
  | dead isDead either => exact enter_dead isDead either

theorem Scan.InString.congr {other : Scan} (inString : scan.InString text)
    (lexer : other.lexer = scan.lexer)
    (builder : other.builder = scan.builder) : other.InString text := by
  obtain ⟨startCount, endCount, isBuilder, opens⟩ := inString
  rw [← lexer] at startCount endCount
  rw [← builder] at isBuilder
  exact ⟨startCount, endCount, isBuilder, opens⟩

/-- What is counted has nothing to do with lines. -/
theorem Scan.Counting.congr {other : Scan}
    (counting : scan.Counting text rest name)
    (lexer : other.lexer = scan.lexer)
    (builder : other.builder = scan.builder) :
    other.Counting text rest name := by
  rw [Scan.Counting] at counting ⊢
  split
  · next isRegion =>
      simp only [isRegion] at counting
      rw [lexer, builder]
      exact counting
  · next isRegion =>
      simp only [isRegion] at counting
      exact counting.congr lexer builder
  · next isRegion =>
      simp only [isRegion] at counting
      obtain ⟨startCount, endCount, noBuilder, opens⟩ := counting
      rw [← lexer] at startCount endCount
      rw [← builder] at noBuilder
      exact ⟨startCount, endCount, noBuilder, opens⟩
  · next isRegion =>
      simp only [isRegion] at counting
      rw [lexer]
      exact counting.imp id fun inString => inString.congr lexer builder

/-- What is counted at the end of the machine, which does not fail. -/
def Stopped.Settled (contents : List Code) : Stopped → Prop
  | .jammed _ scan => scan.Settled contents
  | .accepted scan => scan.Settled contents
  | .failed _ => False

theorem advance_settled {rest : List Code}
    (counting : scan.Counting (contents.drop scan.startPos) rest name)
    (shape : contents.drop pos = rest) :
    (advance rest name pos scan).Settled contents := by
  induction rest generalizing name pos scan with
  | nil => exact counting.settled
  | cons code rest ih =>
      have tail := drop_succ_of_drop shape
      obtain ⟨lexer, builder, start⟩ := scan.readCode_eq code pos
      have read := counting.congr lexer builder
      rw [← start] at read
      rw [advance]
      split
      · exact counting.settled
      · split
        · exact read.settled
        · next new next =>
            have before := read.before next
            rw [← tail] at before
            have entered := before.enter
            rw [tail] at entered
            split
            · next shape' =>
                rw [shape'] at entered
                exact ih entered tail
            · next shape' =>
                rw [shape'] at entered
                exact entered
            · next shape' =>
                rw [shape'] at entered
                exact entered

end Machine

/-! ## Counting between tokens -/

section Tokens

variable {builders : Builders} {contents : List Code} {lexer : Lexer}
  {location : SourceLocation}

theorem findEndDelimiter_quiet (quiet : lexer.Quiet) (delimiter : Code)
    (rest : List Code) (i : Nat) (prevChar : Code) :
    (findEndDelimiter delimiter rest i prevChar lexer).2.Quiet := by
  induction rest generalizing i prevChar lexer with
  | nil => exact quiet
  | cons char rest ih =>
      rw [findEndDelimiter]
      split
      · exact quiet
      · split
        · apply ih
          exact ⟨quiet.doubleQuoteStartCount, quiet.doubleQuoteEndCount,
            quiet.delimitedCommentStartCount, quiet.delimitedCommentEndCount⟩
        · exact ih quiet _ _

theorem makeHashLiteral_quiet (quiet : lexer.Quiet) :
    (makeHashLiteral contents lexer location).2.Quiet := by
  rw [makeHashLiteral]
  split
  · exact quiet
  · next delimiter rest _ =>
      split
      · next finish _ =>
          have after := findEndDelimiter_quiet quiet finish rest
            (lexer.position + 1) 0
          split
          · next found =>
              rw [found] at after
              exact ⟨after.doubleQuoteStartCount, after.doubleQuoteEndCount,
                after.delimitedCommentStartCount,
                after.delimitedCommentEndCount⟩
          · next missing =>
              rw [missing] at after
              exact after
      · exact ⟨quiet.doubleQuoteStartCount, quiet.doubleQuoteEndCount,
          quiet.delimitedCommentStartCount, quiet.delimitedCommentEndCount⟩

/-- The builders leave nothing counted. -/
theorem build_quiet {builder : Builder}
    (settled : lexer.Quiet ∨ (isString builder = true ∧
      lexer.delimitedCommentStartCount = 0 ∧
        lexer.delimitedCommentEndCount = 0)) :
    (build builders contents lexer location builder).2.Quiet := by
  have comment : lexer.delimitedCommentStartCount = 0 ∧
      lexer.delimitedCommentEndCount = 0 := by
    rcases settled with quiet | ⟨-, counts⟩
    · exact ⟨quiet.delimitedCommentStartCount, quiet.delimitedCommentEndCount⟩
    · exact counts
  have string : ∀ prefixLength escapes builder value,
      (makeString builders contents prefixLength escapes builder value lexer
        location).2.Quiet := by
    intro prefixLength escapes builder value
    have extracted : (extractStringContents builders contents prefixLength
        escapes lexer location).2.Quiet := by
      rw [extractStringContents]
      split
      · exact ⟨rfl, rfl, comment.1, comment.2⟩
      · exact ⟨rfl, rfl, comment.1, comment.2⟩
    rw [makeString]
    split
    · next same =>
        rw [same] at extracted
        exact extracted
    · next same =>
        rw [same] at extracted
        exact extracted
  have others : isString builder = false → lexer.Quiet := by
    intro notString
    rcases settled with quiet | ⟨isString, -⟩
    · exact quiet
    · rw [isString] at notString
      cases notString
  unfold build
  split
  · exact makeHashLiteral_quiet (others rfl)
  · split
    · exact string ..
    · exact string ..
  · exact string ..
  · exact others rfl
  · next notStringish notRaw _ =>
      have quiet : lexer.Quiet := by
        apply others
        cases builder with
        | makeStringishLiteral => exact absurd rfl notStringish
        | makeRawStringLiteral => exact absurd rfl notRaw
        | _ => rfl
      split
      · exact quiet
      · exact quiet

theorem acceptToken_quiet {scan : Scan} {builder : Builder}
    (settled : scan.lexer.Quiet ∨ (isString builder = true ∧
      scan.lexer.delimitedCommentStartCount = 0 ∧
        scan.lexer.delimitedCommentEndCount = 0)) :
    (acceptToken builders contents scan builder).2.Quiet := by
  have moved : scan.moved.Quiet ∨ (isString builder = true ∧
      scan.moved.delimitedCommentStartCount = 0 ∧
        scan.moved.delimitedCommentEndCount = 0) := by
    rcases settled with quiet | counts
    · exact Or.inl ⟨quiet.doubleQuoteStartCount, quiet.doubleQuoteEndCount,
        quiet.delimitedCommentStartCount, quiet.delimitedCommentEndCount⟩
    · exact Or.inr counts
  have built : (build builders contents scan.moved (scan.location
      scan.tokenEnd scan.moved.lineStartPosition) builder).2.Quiet :=
    build_quiet moved
  rw [acceptToken]
  generalize build builders contents scan.moved _ builder = result at built ⊢
  obtain ⟨outcome, after⟩ := result
  cases outcome with
  | error condition => exact built
  | ok fragment =>
      exact ⟨built.doubleQuoteStartCount, built.doubleQuoteEndCount,
        built.delimitedCommentStartCount, built.delimitedCommentEndCount⟩

/-- Between tokens nothing is counted, except after a string or a delimited
comment that was no token. -/
theorem getToken_quiet (quiet : lexer.Quiet) :
    (getToken builders contents lexer).2.Quiet ∨ ∃ location,
      (getToken builders contents lexer).1 =
          .error (.invalidToken location) ∧
        opensCounted (contents.drop location.startPosn) = true := by
  have begun : (Scan.begin lexer).Counting
      (contents.drop (Scan.begin lexer).startPos)
      (contents.drop lexer.position) .start := ⟨quiet, rfl, rfl⟩
  have settled : (scanToken contents lexer).Settled contents :=
    advance_settled begun rfl
  have finish : ∀ pos scan, scan.Settled contents →
      (finishToken builders contents pos scan).2.Quiet ∨ ∃ location,
        (finishToken builders contents pos scan).1 =
            .error (.invalidToken location) ∧
          opensCounted (contents.drop location.startPosn) = true := by
    intro pos scan settled
    rw [finishToken]
    cases found : scan.builder with
    | some builder =>
        left
        apply acceptToken_quiet
        cases settled with
        | quiet quiet => exact Or.inl quiet
        | string isBuilder string startCount endCount =>
            rw [found] at isBuilder
            cases isBuilder
            exact Or.inr ⟨string, startCount, endCount⟩
        | opens noBuilder => simp [found] at noBuilder
    | none =>
        simp only
        split
        · next late =>
            left
            apply acceptToken_quiet
            cases settled with
            | quiet quiet => exact Or.inl quiet
            | string isBuilder => simp [found] at isBuilder
            | opens _ opens =>
                rw [List.drop_eq_nil_of_le late] at opens
                cases opens
        · cases settled with
          | quiet quiet => exact Or.inl quiet
          | string isBuilder => simp [found] at isBuilder
          | opens _ opens => exact Or.inr ⟨_, rfl, opens⟩
  rw [getToken]
  cases scanned : scanToken contents lexer with
  | jammed pos scan =>
      rw [scanned] at settled
      exact finish pos scan settled
  | accepted scan =>
      rw [scanned] at settled
      exact finish _ scan settled
  | failed scan =>
      rw [scanned] at settled
      exact settled.elim

theorem walk_quiet (quiet : lexer.Quiet) (rest : List Code) (i : Nat) :
    (walk rest i lexer).Quiet := by
  induction rest generalizing i lexer with
  | nil =>
      exact ⟨quiet.doubleQuoteStartCount, quiet.doubleQuoteEndCount,
        quiet.delimitedCommentStartCount, quiet.delimitedCommentEndCount⟩
  | cons code rest ih =>
      rw [walk]
      have kept : ∀ position line start : Nat, Lexer.Quiet
          { lexer with
            position := position
            lineNumber := line
            lineStartPosition := start } := fun _ _ _ =>
        ⟨quiet.doubleQuoteStartCount, quiet.doubleQuoteEndCount,
          quiet.delimitedCommentStartCount, quiet.delimitedCommentEndCount⟩
      split
      · simp only
        split
        · exact kept ..
        · exact ih (kept ..) _
      · exact ih quiet _

end Tokens

/-! ## Whole runs -/

/-- A call of `get-token` does not give up on a string or on a delimited
comment. -/
def KeepsCounts (builders : Builders) (contents : List Code)
    (lexer : Lexer) : Prop :=
  ∀ location, (getToken builders contents lexer).1 =
      .error (.invalidToken location) →
    opensCounted (contents.drop location.startPosn) = false

theorem Reached.quiet {builders : Builders} {contents : List Code}
    {lexer : Lexer} (reached : Reached builders contents
      (KeepsCounts builders contents) lexer) : lexer.Quiet := by
  induction reached with
  | made => exact ⟨rfl, rfl, rfl, rfl⟩
  | getToken _ permitted ih =>
      rcases getToken_quiet ih with quiet | ⟨location, invalid, opens⟩
      · exact quiet
      · rw [permitted location invalid] at opens
        cases opens
  | skip _ ih => exact walk_quiet ih _ _

/-- The next token depends on the position of a lexer and on the class of the
token before it, and on nothing else in its history. -/
theorem getToken_history_independent {builders : Builders}
    {contents : List Code} {lexer : Lexer}
    (reached : Reached builders contents (KeepsCounts builders contents)
      lexer) :
    getToken builders contents lexer =
        getToken builders contents
          { Lexer.make lexer.position lexer.lineNumber
              lexer.lineStartPosition with
            previousToken := lexer.previousToken } ∧
      ∀ line start previous, previous.map Fragment.builder =
          lexer.previousToken.map Fragment.builder →
        OutcomeMoved 0 (getToken builders contents lexer).1
          (getToken builders contents
            { Lexer.make lexer.position line start with
              previousToken := previous }).1 := by
  have quiet := reached.quiet
  constructor
  · have same : lexer = { Lexer.make lexer.position lexer.lineNumber
        lexer.lineStartPosition with
          previousToken := lexer.previousToken } := by
      obtain ⟨startCount, endCount, commentStart, commentEnd⟩ := quiet
      cases lexer
      simp only at startCount endCount commentStart commentEnd
      subst startCount endCount commentStart commentEnd
      rfl
    exact congrArg (getToken builders contents) same
  · intro line start previous same
    have moved : lexer.Moved ([] : List Code).length
        { Lexer.make lexer.position line start with
          previousToken := previous } :=
      ⟨⟨quiet.doubleQuoteStartCount.symm, quiet.doubleQuoteEndCount.symm,
        quiet.delimitedCommentStartCount.symm,
        quiet.delimitedCommentEndCount.symm, same⟩, (Nat.zero_add _).symm⟩
    exact (getToken_moved moved).1

/-- The second of two names. -/
theorem getToken_history_independent_second :
    ∃ lexer, Reached plainBuilders (codes "a b")
        (KeepsCounts plainBuilders (codes "a b")) lexer ∧
      lexer.position = 1 ∧
      OutcomeMoved 0 (getToken plainBuilders (codes "a b") lexer).1
        (getToken plainBuilders (codes "a b")
          { Lexer.make lexer.position 7 0 with
            previousToken := lexer.previousToken }).1 := by
  have first : Reached plainBuilders (codes "a b")
      (KeepsCounts plainBuilders (codes "a b"))
      (getToken plainBuilders (codes "a b") (Lexer.make 0 1 0)).2 := by
    refine Reached.getToken Reached.made ?_
    intro location invalid
    have isOk : (getToken plainBuilders (codes "a b")
        (Lexer.make 0 1 0)).1.isOk = true := by decide
    rw [invalid] at isOk
    cases isOk
  exact ⟨_, first, by decide,
    (getToken_history_independent first).2 7 0 _ rfl⟩

/-- After a question mark a name with a colon is a constrained name, which it
is not for a lexer made at its position. -/
theorem getToken_depends_on_previous :
    ∃ lexer, Reached plainBuilders (codes "?x:name") (fun _ => True) lexer ∧
      ((getToken plainBuilders (codes "?x:name") lexer).1.toOption.map
          Fragment.builder ≠
        (getToken plainBuilders (codes "?x:name")
          (Lexer.make lexer.position lexer.lineNumber
            lexer.lineStartPosition)).1.toOption.map Fragment.builder) :=
  ⟨_, Reached.getToken Reached.made trivial, by decide⟩

end OpenDylan.Compiler.Lexer
