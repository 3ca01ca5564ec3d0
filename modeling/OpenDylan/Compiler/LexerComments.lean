import OpenDylan.Compiler.LexerHistory

/-!
# Comments

A line comment goes from `//` to the end of its line.  A delimited comment goes
from `/*` to the `*/` that matches it; other delimited comments may stand in
it, and `//` in it hides the rest of its line.

The machine counts the delimiters of nested comments.  After the `*/` of an
inner comment it passes over one character, whatever that is, so that a
delimiter that follows at once is not seen.  A line comment must be ended by a
line break: at the end of the source its first slash is taken for an operator.
-/

namespace OpenDylan.Compiler.Lexer

/-! ## The grammar of comments -/

/-- A character of `$full-character-set`. -/
def isSource (code : Code) : Bool :=
  covers code fullCharacterSet none false

/-- A character that ends a line. -/
def isLineEnd (code : Code) : Bool :=
  code = 10 || code = 13

/-- A text begins with `*/`, `/*` or `//`. -/
def delimits : List Code → Bool
  | first :: second :: _ =>
      (first = 42 && second = 47) || (first = 47 && second = 42) ||
        (first = 47 && second = 47)
  | _ => false

/-- The text of a delimited comment after its `/*`, with some comments around
it that are to be closed as well.  With `apart`, what follows the end of an
inner comment is no delimiter. -/
inductive CommentBody (apart : Bool) : Nat → List Code → Prop where
  | close : CommentBody apart 0 [42, 47]
  | closeInner {depth : Nat} {rest : List Code}
      (body : CommentBody apart depth rest)
      (free : apart = true → delimits rest = false) :
      CommentBody apart (depth + 1) (42 :: 47 :: rest)
  | openInner {depth : Nat} {rest : List Code}
      (body : CommentBody apart (depth + 1) rest) :
      CommentBody apart depth (47 :: 42 :: rest)
  | line {depth : Nat} {hidden rest : List Code} {lineEnd : Code}
      (isHidden : ∀ code ∈ hidden, isSource code = true ∧
        isLineEnd code = false)
      (ends : isLineEnd lineEnd = true)
      (body : CommentBody apart depth rest) :
      CommentBody apart depth (47 :: 47 :: (hidden ++ lineEnd :: rest))
  | character {depth : Nat} {code : Code} {rest : List Code}
      (source : isSource code = true)
      (other : delimits (code :: rest) = false)
      (body : CommentBody apart depth rest) :
      CommentBody apart depth (code :: rest)

/-- The rest of a source after the `/*` of a delimited comment that is never
closed: the source ends in it, or a character that cannot stand in a source
does. -/
inductive CommentOpen : Nat → List Code → Prop where
  | finish {depth : Nat} : CommentOpen depth []
  | foreign {depth : Nat} {code : Code} {rest : List Code}
      (other : isSource code = false) : CommentOpen depth (code :: rest)
  | closeInner {depth : Nat} {rest : List Code}
      (body : CommentOpen depth rest) (free : delimits rest = false) :
      CommentOpen (depth + 1) (42 :: 47 :: rest)
  | openInner {depth : Nat} {rest : List Code}
      (body : CommentOpen (depth + 1) rest) :
      CommentOpen depth (47 :: 42 :: rest)
  | line {depth : Nat} {hidden rest : List Code} {lineEnd : Code}
      (isHidden : ∀ code ∈ hidden, isSource code = true ∧
        isLineEnd code = false)
      (ends : isLineEnd lineEnd = true)
      (body : CommentOpen depth rest) :
      CommentOpen depth (47 :: 47 :: (hidden ++ lineEnd :: rest))
  | lineOpen {depth : Nat} {hidden rest : List Code}
      (isHidden : ∀ code ∈ hidden, isSource code = true ∧
        isLineEnd code = false)
      (stops : ∀ code ∈ rest.head?, isSource code = false) :
      CommentOpen depth (47 :: 47 :: (hidden ++ rest))
  | character {depth : Nat} {code : Code} {rest : List Code}
      (source : isSource code = true)
      (other : delimits (code :: rest) = false)
      (body : CommentOpen depth rest) :
      CommentOpen depth (code :: rest)

/-! ## The states of comments -/

/-- Where a state of a comment goes on a character. -/
def commentNext (code : Code) : StateName :=
  if code = 47 then .delimitedCommentSlash
  else if code = 42 then .delimitedCommentStar
  else .delimitedCommentBody

/-- The transitions of all states of comments, looked up code by code. -/
theorem comment_transitions : ∀ code : Code,
    (isSource code = true →
      StateName.delimitedCommentStart.next code = some (commentNext code) ∧
      StateName.delimitedCommentBody.next code = some (commentNext code) ∧
      StateName.delimitedCommentStar.next code =
        some (if code = 47 then .delimitedCommentEnd else commentNext code) ∧
      StateName.delimitedCommentSlash.next code =
        some (if code = 47 then .delimitedCommentSlashSlash
          else if code = 42 then .delimitedCommentStart
          else .delimitedCommentBody) ∧
      StateName.delimitedCommentEnd.next code = some .delimitedCommentBody ∧
      StateName.delimitedCommentSlashSlash.next code =
        some (if isLineEnd code then .delimitedCommentBody
          else .delimitedCommentSlashSlash) ∧
      StateName.singleLineComment.next code =
        some (if code = 10 then .singleLineCommentEnd
          else if code = 13 then .singleLineCommentCr
          else .singleLineComment)) ∧
    (isSource code = false →
      StateName.delimitedCommentStart.next code = none ∧
      StateName.delimitedCommentBody.next code = none ∧
      StateName.delimitedCommentStar.next code = none ∧
      StateName.delimitedCommentSlash.next code = none ∧
      StateName.delimitedCommentEnd.next code = none ∧
      StateName.delimitedCommentSlashSlash.next code = none) ∧
    (isLineEnd code = true → isSource code = true) := by
  decide +kernel

theorem start_commentNext (code : Code) (source : isSource code = true) :
    StateName.delimitedCommentStart.next code = some (commentNext code) :=
  ((comment_transitions code).1 source).1

theorem body_commentNext (code : Code) (source : isSource code = true) :
    StateName.delimitedCommentBody.next code = some (commentNext code) :=
  ((comment_transitions code).1 source).2.1

theorem star_next (code : Code) (source : isSource code = true) :
    StateName.delimitedCommentStar.next code =
      some (if code = 47 then .delimitedCommentEnd else commentNext code) :=
  ((comment_transitions code).1 source).2.2.1

theorem delimitedSlash_next (code : Code) (source : isSource code = true) :
    StateName.delimitedCommentSlash.next code =
      some (if code = 47 then .delimitedCommentSlashSlash
        else if code = 42 then .delimitedCommentStart
        else .delimitedCommentBody) :=
  ((comment_transitions code).1 source).2.2.2.1

theorem end_next (code : Code) (source : isSource code = true) :
    StateName.delimitedCommentEnd.next code = some .delimitedCommentBody :=
  ((comment_transitions code).1 source).2.2.2.2.1

theorem slashSlash_next (code : Code) (source : isSource code = true) :
    StateName.delimitedCommentSlashSlash.next code =
      some (if isLineEnd code then .delimitedCommentBody
        else .delimitedCommentSlashSlash) :=
  ((comment_transitions code).1 source).2.2.2.2.2.1

theorem singleLine_next (code : Code) (source : isSource code = true) :
    StateName.singleLineComment.next code =
      some (if code = 10 then .singleLineCommentEnd
        else if code = 13 then .singleLineCommentCr
        else .singleLineComment) :=
  ((comment_transitions code).1 source).2.2.2.2.2.2

theorem body_next_foreign (code : Code) (foreign : isSource code = false) :
    StateName.delimitedCommentStart.next code = none ∧
      StateName.delimitedCommentBody.next code = none ∧
      StateName.delimitedCommentStar.next code = none ∧
      StateName.delimitedCommentSlash.next code = none ∧
      StateName.delimitedCommentEnd.next code = none ∧
      StateName.delimitedCommentSlashSlash.next code = none :=
  (comment_transitions code).2.1 foreign

theorem isSource_lineEnd (code : Code) (ends : isLineEnd code = true) :
    isSource code = true :=
  (comment_transitions code).2.2 ends

/-- A state reads a text as the body of a comment: what was read before is
not part of a delimiter with it, and the end of an inner comment is not
followed by one. -/
def Ready : StateName → List Code → Prop
  | .delimitedCommentStart, _ => True
  | .delimitedCommentBody, _ => True
  | .delimitedCommentStar, text => text.head? ≠ some 47
  | .delimitedCommentSlash, text =>
      text.head? ≠ some 47 ∧ text.head? ≠ some 42
  | .delimitedCommentEnd, text => delimits text = false
  | _, _ => False

theorem Ready.cases {name : StateName} {text : List Code}
    (ready : Ready name text) :
    (name = .delimitedCommentStart ∨ name = .delimitedCommentBody) ∨
    (name = .delimitedCommentStar ∧ text.head? ≠ some 47) ∨
    (name = .delimitedCommentSlash ∧ text.head? ≠ some 47 ∧
      text.head? ≠ some 42) ∨
    (name = .delimitedCommentEnd ∧ delimits text = false) := by
  unfold Ready at ready
  split at ready
  · exact Or.inl (Or.inl rfl)
  · exact Or.inl (Or.inr rfl)
  · exact Or.inr (Or.inl ⟨rfl, ready⟩)
  · exact Or.inr (Or.inr (Or.inl ⟨rfl, ready⟩))
  · exact Or.inr (Or.inr (Or.inr ⟨rfl, ready⟩))
  · exact ready.elim

/-- What follows a star that begins no delimiter. -/
theorem head_of_star {rest : List Code} (other : delimits (42 :: rest) = false) :
    rest.head? ≠ some 47 := by
  cases rest with
  | nil => simp
  | cons second rest => simpa [delimits] using other

/-- What follows a slash that begins no delimiter. -/
theorem head_of_slash {rest : List Code}
    (other : delimits (47 :: rest) = false) :
    rest.head? ≠ some 47 ∧ rest.head? ≠ some 42 := by
  cases rest with
  | nil => simp
  | cons second rest =>
      have both : second ≠ 42 ∧ second ≠ 47 := by
        simpa [delimits] using other
      constructor
      · simpa using both.2
      · simpa using both.1

/-- A character that begins no delimiter. -/
theorem Ready.next {name : StateName} {code : Code} {rest : List Code}
    (ready : Ready name (code :: rest)) (source : isSource code = true)
    (other : delimits (code :: rest) = false) :
    ∃ new, name.next code = some new ∧ Ready new rest ∧
      (new = .delimitedCommentSlash ∨ new = .delimitedCommentStar ∨
        new = .delimitedCommentBody) := by
  have usual : Ready (commentNext code) rest ∧
      (commentNext code = .delimitedCommentSlash ∨
        commentNext code = .delimitedCommentStar ∨
        commentNext code = .delimitedCommentBody) := by
    rw [commentNext]
    split
    · next isSlash =>
        subst isSlash
        exact ⟨head_of_slash other, Or.inl rfl⟩
    · split
      · next isStar =>
          subst isStar
          exact ⟨head_of_star other, Or.inr (Or.inl rfl)⟩
      · exact ⟨trivial, Or.inr (Or.inr rfl)⟩
  rcases ready.cases with (rfl | rfl) | ⟨rfl, notSlash⟩ |
    ⟨rfl, notSlash, notStar⟩ | ⟨rfl, -⟩
  · exact ⟨_, start_commentNext code source, usual⟩
  · exact ⟨_, body_commentNext code source, usual⟩
  · have different : code ≠ 47 := by simpa using notSlash
    refine ⟨_, star_next code source, ?_⟩
    rw [if_neg different]
    exact usual
  · have different : code ≠ 47 := by simpa using notSlash
    have another : code ≠ 42 := by simpa using notStar
    refine ⟨_, delimitedSlash_next code source, ?_⟩
    rw [if_neg different, if_neg another]
    exact ⟨trivial, Or.inr (Or.inr rfl)⟩
  · exact ⟨_, end_next code source, trivial, Or.inr (Or.inr rfl)⟩

/-- The first character of a delimiter. -/
theorem Ready.next_of_delimits {name : StateName} {code second : Code}
    {rest : List Code} (ready : Ready name (code :: second :: rest))
    (delimiter : delimits (code :: second :: rest) = true) :
    name.next code = some (commentNext code) := by
  have isCode : code = 42 ∨ code = 47 := by
    simp only [delimits, Bool.or_eq_true, Bool.and_eq_true,
      decide_eq_true_eq] at delimiter
    rcases delimiter with (⟨isStar, -⟩ | ⟨isSlash, -⟩) | ⟨isSlash, -⟩
    · exact Or.inl isStar
    · exact Or.inr isSlash
    · exact Or.inr isSlash
  have source : isSource code = true := by
    rcases isCode with rfl | rfl <;> decide
  rcases ready.cases with (rfl | rfl) | ⟨rfl, notSlash⟩ |
    ⟨rfl, notSlash, notStar⟩ | ⟨rfl, free⟩
  · exact start_commentNext code source
  · exact body_commentNext code source
  · have different : code ≠ 47 := by simpa using notSlash
    rw [star_next code source, if_neg different]
  · have different : code ≠ 47 := by simpa using notSlash
    have another : code ≠ 42 := by simpa using notStar
    rcases isCode with isStar | isSlash
    · exact absurd isStar another
    · exact absurd isSlash different
  · rw [free] at delimiter
    cases delimiter

/-! ## Skipping comments -/

/-- The local variables inside of a comment with some others around it. -/
structure Scan.Nested (base : Lexer) (depth : Nat) (scan : Scan) : Prop where
  builder : scan.builder = none
  startPos : scan.startPos = base.position
  doubleQuoteStartCount :
    scan.lexer.doubleQuoteStartCount = base.doubleQuoteStartCount
  doubleQuoteEndCount :
    scan.lexer.doubleQuoteEndCount = base.doubleQuoteEndCount
  previousToken : scan.lexer.previousToken = base.previousToken
  nested : scan.lexer.delimitedCommentStartCount =
    scan.lexer.delimitedCommentEndCount + depth + 1

/-- The local variables at the beginning of a token. -/
structure Scan.FreshAt (base : Lexer) (pos : Nat) (scan : Scan) : Prop where
  lexer : base.Alike scan.lexer
  startPos : scan.startPos = pos
  builder : scan.builder = none
  endPos : scan.endPos = none

/-- One step of the machine. -/
theorem advance_of_next {name new after : StateName} {code : Code}
    {rest : List Code} {pos : Nat} {scan scan' : Scan}
    (next : name.next code = some new)
    (entered : enter new (pos + 1) (scan.readCode code pos) =
      .advance after scan') :
    advance (code :: rest) name pos scan =
      advance rest after (pos + 1) scan' := by
  have transitions : (machine name).transitions.isEmpty = false := by
    cases none : (machine name).transitions with
    | nil => simp [StateName.next, none] at next
    | cons first others => rfl
  rw [advance, transitions, next]
  simp only [Bool.false_eq_true, if_false, entered]

section Comments

variable {base : Lexer} {depth : Nat} {scan : Scan} {pos : Nat}
  {rest tail : List Code}

theorem Scan.Nested.readCode (nested : scan.Nested base depth) (code : Code)
    (pos : Nat) : (scan.readCode code pos).Nested base depth := by
  obtain ⟨lexer, builder, start⟩ := scan.readCode_eq code pos
  obtain ⟨noBuilder, position, startCount, endCount, previous, counts⟩ :=
    nested
  rw [← lexer] at startCount endCount previous counts
  exact ⟨builder.trans noBuilder, start.trans position, startCount, endCount,
    previous, counts⟩

/-- The end of an inner comment is counted. -/
theorem Scan.Nested.closeInner (nested : scan.Nested base (depth + 1)) :
    { scan with
      lexer := { scan.lexer with delimitedCommentEndCount :=
        scan.lexer.delimitedCommentEndCount + 1 } }.Nested base depth := by
  have counts := nested.nested
  refine ⟨nested.builder, nested.startPos, nested.doubleQuoteStartCount,
    nested.doubleQuoteEndCount, nested.previousToken, ?_⟩
  simp only
  omega

/-- The beginning of an inner comment is counted. -/
theorem Scan.Nested.openInner (nested : scan.Nested base depth) :
    { scan with
      lexer := { scan.lexer with delimitedCommentStartCount :=
        scan.lexer.delimitedCommentStartCount + 1 }
      }.clearPrevious.Nested base (depth + 1) := by
  have counts := nested.nested
  refine ⟨rfl, nested.startPos, nested.doubleQuoteStartCount,
    nested.doubleQuoteEndCount, nested.previousToken, ?_⟩
  simp only [Scan.clearPrevious]
  omega

/-- One step to a state that neither counts nor accepts. -/
theorem advance_silent {name new : StateName} {code : Code}
    (next : name.next code = some new)
    (noAction : (machine new).action = none)
    (noBuilder : (machine new).fragmentBuilder = none) :
    advance (code :: rest) name pos scan =
      advance rest new (pos + 1) (scan.readCode code pos) := by
  apply advance_of_next next
  rw [enter_of_noAction noAction, noBuilder]

/-- The part of a line that `//` hides inside of a delimited comment. -/
theorem advance_hidden {hidden : List Code} {lineEnd : Code}
    (isHidden : ∀ code ∈ hidden, isSource code = true ∧
      isLineEnd code = false)
    (ends : isLineEnd lineEnd = true) (nested : scan.Nested base depth) :
    ∃ after, advance (hidden ++ lineEnd :: rest) .delimitedCommentSlashSlash
        pos scan =
      advance rest .delimitedCommentBody (pos + hidden.length + 1) after ∧
        after.Nested base depth := by
  induction hidden generalizing pos scan with
  | nil =>
      have next := slashSlash_next lineEnd (isSource_lineEnd lineEnd ends)
      rw [if_pos ends] at next
      exact ⟨_, advance_silent next rfl rfl, nested.readCode lineEnd pos⟩
  | cons code hidden ih =>
      rw [List.forall_mem_cons] at isHidden
      have next := slashSlash_next code isHidden.1.1
      rw [if_neg (by simp [isHidden.1.2])] at next
      obtain ⟨after, result, kept⟩ := ih isHidden.2 (nested.readCode code pos)
      refine ⟨after, ?_, kept⟩
      have position : pos + 1 + hidden.length + 1 =
          pos + (code :: hidden).length + 1 := by
        rw [List.length_cons]
        omega
      rw [List.cons_append, advance_silent next rfl rfl, result, position]

/-- The delimiter `*/`. -/
theorem Ready.advance_close {name after : StateName} {scan' : Scan}
    (ready : Ready name (42 :: 47 :: rest))
    (entered : enter .delimitedCommentEnd (pos + 2)
      ((scan.readCode 42 pos).readCode 47 (pos + 1)) =
        .advance after scan') :
    advance (42 :: 47 :: tail) name pos scan =
      advance tail after (pos + 2) scan' := by
  have first := ready.next_of_delimits rfl
  have second := star_next 47 (by decide)
  rw [advance_silent first rfl rfl]
  exact advance_of_next second entered

/-- The delimiters `/*` and `//`. -/
theorem Ready.advance_slash {name new after : StateName} {second : Code}
    {scan' : Scan} (ready : Ready name (47 :: second :: rest))
    (delimiter : delimits (47 :: second :: rest) = true)
    (next : StateName.delimitedCommentSlash.next second = some new)
    (entered : enter new (pos + 2)
      ((scan.readCode 47 pos).readCode second (pos + 1)) =
        .advance after scan') :
    advance (47 :: second :: tail) name pos scan =
      advance tail after (pos + 2) scan' := by
  have first := ready.next_of_delimits delimiter
  rw [advance_silent first rfl rfl]
  exact advance_of_next next entered

/-- The delimiter `//` of a line in a comment. -/
theorem Ready.advance_line {name : StateName}
    (ready : Ready name (47 :: 47 :: rest)) :
    advance (47 :: 47 :: tail) name pos scan =
      advance tail .delimitedCommentSlashSlash (pos + 2)
        ((scan.readCode 47 pos).readCode 47 (pos + 1)) :=
  ready.advance_slash rfl (delimitedSlash_next 47 (by decide)) rfl

/-- The body of a comment is skipped. -/
theorem CommentBody.advance {text : List Code} {name : StateName}
    (body : CommentBody true depth text) (ready : Ready name text)
    (nested : scan.Nested base depth)
    (quiet : base.delimitedCommentStartCount = 0 ∧
      base.delimitedCommentEndCount = 0) :
    ∃ after, advance (text ++ tail) name pos scan =
        advance tail .start (pos + text.length) after ∧
      after.FreshAt base (pos + text.length) := by
  have position : ∀ {first second : Code} {pos : Nat} (rest : List Code),
      pos + (first :: second :: rest).length = pos + 2 + rest.length := by
    intro first second pos rest
    simp only [List.length_cons]
    omega
  induction body generalizing name pos scan with
  | close =>
      have read := (nested.readCode 42 pos).readCode 47 (pos + 1)
      refine ⟨_, ready.advance_close (enter_commentEnd_over ?_), ?_⟩
      · exact read.nested.symm
      · exact ⟨⟨read.doubleQuoteStartCount, read.doubleQuoteEndCount,
          quiet.1.symm, quiet.2.symm, congrArg _ read.previousToken⟩, rfl,
          rfl, rfl⟩
  | @closeInner depth rest body free ih =>
      have read := (nested.readCode 42 pos).readCode 47 (pos + 1)
      have counts := read.nested
      have after : Ready .delimitedCommentEnd rest := free rfl
      obtain ⟨last, result, fresh⟩ := ih after read.closeInner
      refine ⟨last, ?_, (position rest).symm ▸ fresh⟩
      rw [position rest, ← result]
      exact ready.advance_close (enter_commentEnd_goesOn (by omega))
  | @openInner depth rest body ih =>
      have read := (nested.readCode 47 pos).readCode 42 (pos + 1)
      have after : Ready .delimitedCommentStart rest := trivial
      obtain ⟨last, result, fresh⟩ := ih after read.openInner
      refine ⟨last, ?_, (position rest).symm ▸ fresh⟩
      rw [position rest, ← result]
      exact ready.advance_slash rfl (delimitedSlash_next 42 (by decide)) rfl
  | @line depth hidden rest lineEnd isHidden ends body ih =>
      have read := (nested.readCode 47 pos).readCode 47 (pos + 1)
      have after : Ready .delimitedCommentBody rest := trivial
      obtain ⟨middle, hide, kept⟩ := advance_hidden isHidden ends read
      obtain ⟨last, result, fresh⟩ :=
        @ih middle (pos + 2 + hidden.length + 1) _ after kept
      have length : pos + (47 :: 47 :: (hidden ++ lineEnd :: rest)).length =
          pos + 2 + hidden.length + 1 + rest.length := by
        simp only [List.length_cons, List.length_append]
        omega
      refine ⟨last, ?_, length.symm ▸ fresh⟩
      rw [length, ← result, ← hide, List.cons_append, List.cons_append,
        List.append_assoc, List.cons_append]
      exact ready.advance_line
  | @character depth code rest source other body ih =>
      obtain ⟨new, next, after, silent⟩ := ready.next source other
      obtain ⟨last, result, fresh⟩ :=
        @ih _ (pos + 1) _ after (nested.readCode code pos)
      have length : pos + (code :: rest).length = pos + 1 + rest.length := by
        rw [List.length_cons]
        omega
      refine ⟨last, ?_, length.symm ▸ fresh⟩
      rw [length, ← result]
      rcases silent with rfl | rfl | rfl
      · exact advance_silent next rfl rfl
      · exact advance_silent next rfl rfl
      · exact advance_silent next rfl rfl

/-- The machine jams at a character that has no transition. -/
theorem advance_foreign {name : StateName} {code : Code}
    (none : name.next code = none) (nested : scan.Nested base depth) :
    ∃ place after, advance (code :: rest) name pos scan =
      .jammed place after ∧ after.Nested base depth := by
  rw [advance]
  split
  · exact ⟨_, _, rfl, nested⟩
  · rw [none]
    exact ⟨_, _, rfl, nested.readCode code pos⟩

/-- A line that is never ended inside of a delimited comment. -/
theorem advance_hidden_open {hidden : List Code}
    (isHidden : ∀ code ∈ hidden, isSource code = true ∧
      isLineEnd code = false)
    (stops : ∀ code ∈ rest.head?, isSource code = false)
    (nested : scan.Nested base depth) :
    ∃ place after, advance (hidden ++ rest) .delimitedCommentSlashSlash pos
      scan = .jammed place after ∧ after.Nested base depth := by
  induction hidden generalizing pos scan with
  | nil =>
      cases rest with
      | nil => exact ⟨_, _, rfl, nested⟩
      | cons code rest =>
          have foreign := body_next_foreign code (stops code rfl)
          exact advance_foreign foreign.2.2.2.2.2 nested
  | cons code hidden ih =>
      rw [List.forall_mem_cons] at isHidden
      have next := slashSlash_next code isHidden.1.1
      rw [if_neg (by simp [isHidden.1.2])] at next
      rw [List.cons_append, advance_silent next rfl rfl]
      exact ih isHidden.2 (nested.readCode code pos)

/-- A comment that is never closed is no token. -/
theorem CommentOpen.advance {text : List Code} {name : StateName}
    (body : CommentOpen depth text) (ready : Ready name text)
    (nested : scan.Nested base depth) :
    ∃ depth place after, advance text name pos scan =
      .jammed place after ∧ after.Nested base depth := by
  induction body generalizing name pos scan with
  | finish => exact ⟨_, _, _, rfl, nested⟩
  | @foreign depth code rest other =>
      obtain ⟨start, body, star, slash, finish, -⟩ :=
        body_next_foreign code other
      have none : name.next code = none := by
        rcases ready.cases with (rfl | rfl) | ⟨rfl, -⟩ | ⟨rfl, -⟩ | ⟨rfl, -⟩
        · exact start
        · exact body
        · exact star
        · exact slash
        · exact finish
      exact ⟨_, advance_foreign none nested⟩
  | @closeInner depth rest body free ih =>
      have read := (nested.readCode 42 pos).readCode 47 (pos + 1)
      have counts := read.nested
      have after : Ready .delimitedCommentEnd rest := free
      rw [ready.advance_close (enter_commentEnd_goesOn (by omega))]
      exact ih after read.closeInner
  | @openInner depth rest body ih =>
      have read := (nested.readCode 47 pos).readCode 42 (pos + 1)
      have after : Ready .delimitedCommentStart rest := trivial
      rw [ready.advance_slash rfl (delimitedSlash_next 42 (by decide)) rfl]
      exact ih after read.openInner
  | @line depth hidden rest lineEnd isHidden ends body ih =>
      have read := (nested.readCode 47 pos).readCode 47 (pos + 1)
      have after : Ready .delimitedCommentBody rest := trivial
      obtain ⟨middle, hide, kept⟩ := advance_hidden isHidden ends read
      rw [ready.advance_line, hide]
      exact ih after kept
  | @lineOpen depth hidden rest isHidden stops =>
      have read := (nested.readCode 47 pos).readCode 47 (pos + 1)
      rw [ready.advance_line]
      exact ⟨_, advance_hidden_open isHidden stops read⟩
  | @character depth code rest source other body ih =>
      obtain ⟨new, next, after, silent⟩ := ready.next source other
      have read := nested.readCode code pos
      rcases silent with rfl | rfl | rfl
      · rw [advance_silent next rfl rfl]
        exact ih after read
      · rw [advance_silent next rfl rfl]
        exact ih after read
      · rw [advance_silent next rfl rfl]
        exact ih after read

/-- A line comment that is ended by a line break. -/
theorem advance_lineComment {hidden : List Code} {lineEnd : Code}
    (isHidden : ∀ code ∈ hidden, isSource code = true ∧
      isLineEnd code = false)
    (ends : isLineEnd lineEnd = true) (alike : base.Alike scan.lexer)
    (quiet : base.delimitedCommentStartCount = 0 ∧
      base.delimitedCommentEndCount = 0) :
    ∃ after, advance (hidden ++ lineEnd :: rest) .singleLineComment pos scan =
        advance rest .start (pos + hidden.length + 1) after ∧
      after.FreshAt base (pos + hidden.length + 1) := by
  induction hidden generalizing pos scan with
  | nil =>
      obtain ⟨lexer, -, -⟩ := scan.readCode_eq lineEnd pos
      have next := singleLine_next lineEnd (isSource_lineEnd lineEnd ends)
      have read : base.Alike (scan.readCode lineEnd pos).lexer := lexer ▸ alike
      have fresh : ({ scan.readCode lineEnd pos with
          lexer := (scan.readCode lineEnd pos).lexer.resetDelimitedComment
          }.startOver (pos + 1)).FreshAt base (pos + 1) :=
        ⟨⟨read.doubleQuoteStartCount, read.doubleQuoteEndCount,
          quiet.1.symm, quiet.2.symm, read.previousToken⟩, rfl, rfl, rfl⟩
      refine ⟨_, ?_, fresh⟩
      split at next
      · exact advance_of_next next rfl
      · next notNewline =>
          have isReturn : lineEnd = 13 := by
            simpa [isLineEnd, notNewline] using ends
          rw [if_pos isReturn] at next
          exact advance_of_next next rfl
  | cons code hidden ih =>
      rw [List.forall_mem_cons] at isHidden
      obtain ⟨lexer, -, -⟩ := scan.readCode_eq code pos
      have next := singleLine_next code isHidden.1.1
      have other : code ≠ 10 ∧ code ≠ 13 := by
        simpa [isLineEnd] using isHidden.1.2
      rw [if_neg other.1, if_neg other.2] at next
      have read : base.Alike (scan.readCode code pos).lexer := lexer ▸ alike
      obtain ⟨after, result, fresh⟩ := @ih _ (pos + 1) isHidden.2 read
      have position : pos + (code :: hidden).length + 1 =
          pos + 1 + hidden.length + 1 := by
        rw [List.length_cons]
        omega
      refine ⟨after, ?_, position.symm ▸ fresh⟩
      rw [List.cons_append, advance_silent next rfl rfl, result, position]

/-- A line comment that goes to the end of the source. -/
theorem advance_lineComment_end {hidden : List Code}
    (isHidden : ∀ code ∈ hidden, isSource code = true ∧
      isLineEnd code = false) :
    advance hidden .singleLineComment pos scan =
      .jammed (pos + hidden.length) scan := by
  induction hidden generalizing pos scan with
  | nil => rfl
  | cons code hidden ih =>
      rw [List.forall_mem_cons] at isHidden
      have next := singleLine_next code isHidden.1.1
      have other : code ≠ 10 ∧ code ≠ 13 := by
        simpa [isLineEnd] using isHidden.1.2
      rw [if_neg other.1, if_neg other.2] at next
      have read : scan.readCode code pos = scan := by
        rw [Scan.readCode, if_neg other.1]
      rw [advance_silent next rfl rfl, ih isHidden.2, read, List.length_cons,
        Nat.add_right_comm, Nat.add_assoc]

end Comments

/-! ## The machine at a comment -/

section Machine

variable {contents tail : List Code} {lexer : Lexer}

/-- The machine reads `/` as an operator first. -/
theorem scanToken_slash {rest : List Code}
    (shape : contents.drop lexer.position = 47 :: rest) :
    scanToken contents lexer = advance rest .slash (lexer.position + 1)
      ((Scan.begin lexer).saveAcceptingState (lexer.position + 1)
        .makeBinaryOperator) := by
  have next : StateName.start.next 47 = some .slash := by decide
  rw [scanToken, shape]
  exact advance_of_next next rfl

/-- The beginning of a delimited comment is counted. -/
theorem scanToken_delimited_start {rest : List Code} (quiet : lexer.Quiet)
    (shape : contents.drop lexer.position = 47 :: 42 :: rest) :
    ∃ inside, scanToken contents lexer =
        advance rest .delimitedCommentStart (lexer.position + 2) inside ∧
      inside.Nested lexer 0 := by
  have next : StateName.slash.next 42 = some .delimitedCommentStart := by
    decide
  have nested : Scan.Nested lexer 0
      { (Scan.begin lexer).saveAcceptingState (lexer.position + 1)
          .makeBinaryOperator with
        lexer := { lexer with delimitedCommentStartCount :=
          lexer.delimitedCommentStartCount + 1 } }.clearPrevious := by
    refine ⟨rfl, rfl, rfl, rfl, rfl, ?_⟩
    simp only [Scan.clearPrevious, quiet.delimitedCommentStartCount,
      quiet.delimitedCommentEndCount]
  refine ⟨_, ?_, nested⟩
  rw [scanToken_slash shape]
  exact advance_of_next next rfl

theorem scanToken_delimited {body : List Code} (quiet : lexer.Quiet)
    (shape : contents.drop lexer.position = 47 :: 42 :: (body ++ tail))
    (isBody : CommentBody true 0 body) :
    ∃ after, scanToken contents lexer =
        advance tail .start (lexer.position + 2 + body.length) after ∧
      after.FreshAt lexer (lexer.position + 2 + body.length) := by
  have ready : Ready .delimitedCommentStart body := trivial
  obtain ⟨inside, start, nested⟩ := scanToken_delimited_start quiet shape
  obtain ⟨after, result, fresh⟩ := isBody.advance ready nested
    ⟨quiet.delimitedCommentStartCount, quiet.delimitedCommentEndCount⟩
  exact ⟨after, start.trans result, fresh⟩

theorem scanToken_open {rest : List Code} (quiet : lexer.Quiet)
    (shape : contents.drop lexer.position = 47 :: 42 :: rest)
    (isOpen : CommentOpen 0 rest) :
    ∃ place after, scanToken contents lexer = .jammed place after ∧
      after.builder = none ∧ after.startPos = lexer.position := by
  have ready : Ready .delimitedCommentStart rest := trivial
  obtain ⟨inside, start, nested⟩ := scanToken_delimited_start quiet shape
  obtain ⟨depth, place, after, result, kept⟩ := isOpen.advance ready nested
  exact ⟨place, after, start.trans result, kept.builder, kept.startPos⟩

theorem scanToken_line {hidden : List Code} {lineEnd : Code}
    (quiet : lexer.Quiet)
    (shape : contents.drop lexer.position =
      47 :: 47 :: (hidden ++ lineEnd :: tail))
    (isHidden : ∀ code ∈ hidden, isSource code = true ∧
      isLineEnd code = false)
    (ends : isLineEnd lineEnd = true) :
    ∃ after, scanToken contents lexer =
        advance tail .start (lexer.position + 2 + hidden.length + 1) after ∧
      after.FreshAt lexer (lexer.position + 2 + hidden.length + 1) := by
  have next : StateName.slash.next 47 = some .singleLineComment := by decide
  have alike : lexer.Alike ((Scan.begin lexer).saveAcceptingState
      (lexer.position + 1) .makeBinaryOperator).lexer :=
    ⟨rfl, rfl, rfl, rfl, rfl⟩
  obtain ⟨after, result, fresh⟩ := advance_lineComment isHidden ends alike
    ⟨quiet.delimitedCommentStartCount, quiet.delimitedCommentEndCount⟩
  refine ⟨after, ?_, fresh⟩
  rw [← result, scanToken_slash shape]
  exact advance_silent next rfl rfl

/-- At the end of the source the operator is what was accepted. -/
theorem scanToken_line_end {hidden : List Code}
    (shape : contents.drop lexer.position = 47 :: 47 :: hidden)
    (isHidden : ∀ code ∈ hidden, isSource code = true ∧
      isLineEnd code = false) :
    scanToken contents lexer =
      .jammed (lexer.position + 2 + hidden.length)
        ((Scan.begin lexer).saveAcceptingState (lexer.position + 1)
          .makeBinaryOperator) := by
  have next : StateName.slash.next 47 = some .singleLineComment := by decide
  have read : ((Scan.begin lexer).saveAcceptingState (lexer.position + 1)
      .makeBinaryOperator).readCode 47 (lexer.position + 1) =
        (Scan.begin lexer).saveAcceptingState (lexer.position + 1)
          .makeBinaryOperator := by
    rw [Scan.readCode, if_neg (by decide)]
  rw [scanToken_slash shape, advance_silent next rfl rfl, read]
  exact advance_lineComment_end isHidden

end Machine

/-! ## Where tokens begin -/

/-- A fragment is at the location that it is made for. -/
theorem build_location {builders : Builders} {contents : List Code}
    {lexer : Lexer} {location : SourceLocation} {builder : Builder}
    {fragment : Fragment}
    (built : (build builders contents lexer location builder).1 =
      .ok fragment) : fragment.location = location := by
  have string : ∀ prefixLength escapes builder value,
      (makeString builders contents prefixLength escapes builder value lexer
        location).1 = .ok fragment → fragment.location = location := by
    intro prefixLength escapes builder value made
    rw [makeString] at made
    split at made
    · cases made
    · cases made
      rfl
  unfold build at built
  split at built
  · rw [makeHashLiteral] at built
    split at built
    · cases built
    · split at built
      · split at built
        · cases built
          rfl
        · cases built
          rfl
      · cases built
        rfl
  · split at built
    · exact string _ _ _ _ built
    · exact string _ _ _ _ built
  · exact string _ _ _ _ built
  · simp only [makeConstrainedName] at built
    split at built
    · cases built
    · split at built
      · cases built
        rfl
      · split at built
        · cases built
        · cases built
          rfl
  · split at built
    · cases built
    · cases built
      rfl

/-- Entering a state leaves the beginning of the token or moves it here. -/
theorem enter_startPos {pos : Nat} {scan : Scan} (name : StateName)
    (start : scan.startPos ≤ pos) :
    scan.startPos ≤ (enter name pos scan).last.startPos ∧
      (enter name pos scan).last.startPos ≤ pos := by
  have entered := enter_entered name pos scan
  generalize enter name pos scan = next at entered ⊢
  cases entered with
  | startedOver same => exact ⟨start, Nat.le_refl pos⟩
  | _ => exact ⟨Nat.le_refl _, start⟩

/-- The machine never goes back. -/
theorem advance_startPos {rest : List Code} {name : StateName} {pos : Nat}
    {scan : Scan} (start : scan.startPos ≤ pos) :
    scan.startPos ≤ (advance rest name pos scan).last.startPos := by
  induction rest generalizing name pos scan with
  | nil => exact Nat.le_refl _
  | cons code rest ih =>
      obtain ⟨-, -, same⟩ := scan.readCode_eq code pos
      rw [advance]
      split
      · exact Nat.le_refl _
      · split
        · exact Nat.le_of_eq same.symm
        · next new _ =>
            have entered := enter_startPos new
              (Nat.le_succ_of_le (Nat.le_trans (Nat.le_of_eq same) start))
            rw [same] at entered
            split
            · next shape =>
                rw [shape] at entered
                exact Nat.le_trans entered.1 (ih entered.2)
            · next shape =>
                rw [shape] at entered
                exact entered.1
            · next shape =>
                rw [shape] at entered
                exact entered.1

/-- The location of a token begins where the machine started over last. -/
theorem takeToken_startPosn {builders : Builders} {contents : List Code}
    {stopped : Stopped} {fragment : Fragment}
    (token : (takeToken builders contents stopped).1 = .ok fragment) :
    fragment.location.startPosn = stopped.last.startPos := by
  have accept : ∀ scan builder,
      (acceptToken builders contents scan builder).1 = .ok fragment →
        fragment.location.startPosn = scan.startPos := by
    intro scan builder accepted
    have built : (build builders contents scan.moved (scan.location
        scan.tokenEnd scan.moved.lineStartPosition) builder).1 =
          .ok fragment := by
      rw [acceptToken] at accepted
      generalize build builders contents scan.moved _ builder = result
        at accepted ⊢
      obtain ⟨outcome, after⟩ := result
      cases outcome with
      | error condition => cases accepted
      | ok found => exact accepted
    rw [build_location built]
    rfl
  have finish : ∀ pos scan,
      (finishToken builders contents pos scan).1 = .ok fragment →
        fragment.location.startPosn = scan.startPos := by
    intro pos scan finished
    rw [finishToken] at finished
    split at finished
    · exact accept _ _ finished
    · split at finished
      · rw [accept _ _ finished]
        rfl
      · cases finished
  cases stopped with
  | jammed pos scan => exact finish pos scan token
  | accepted scan => exact finish _ scan token
  | failed scan => cases token

/-! ## Tokens after a comment -/

/-- The next token is the one that is at a position, and nothing before that
position belongs to it. -/
def SkipsTo (builders : Builders) (contents : List Code) (lexer : Lexer)
    (position : Nat) : Prop :=
  (∀ line start, TokenMoved 0
      (getToken builders contents
        { lexer with
          position := position
          lineNumber := line
          lineStartPosition := start })
      (getToken builders contents lexer)) ∧
    ∀ fragment, (getToken builders contents lexer).1 = .ok fragment →
      position ≤ fragment.location.startPosn

section Tokens

variable {builders : Builders} {before contents tail : List Code}
  {lexer : Lexer}

/-- After a comment the machine reads a token of the text that follows. -/
theorem takeToken_freshAt {first : Lexer} {after : Scan}
    (alike : first.Alike lexer)
    (fresh : after.FreshAt lexer (before.length + first.position)) :
    TokenMoved before.length (getToken builders contents first)
      (takeToken builders (before ++ contents)
        (advance (contents.drop first.position) .start
          (before.length + first.position) after)) := by
  apply takeToken_moved
  apply advance_moved
  refine ⟨?_, fresh.startPos, fresh.builder, fresh.endPos,
    fun isSome => by cases isSome⟩
  exact ⟨fresh.lexer.doubleQuoteStartCount.trans alike.doubleQuoteStartCount,
    fresh.lexer.doubleQuoteEndCount.trans alike.doubleQuoteEndCount,
    fresh.lexer.delimitedCommentStartCount.trans
      alike.delimitedCommentStartCount,
    fresh.lexer.delimitedCommentEndCount.trans alike.delimitedCommentEndCount,
    fresh.lexer.previousToken.trans alike.previousToken⟩

theorem skipsTo_of_scanToken {position : Nat} {after : Scan}
    (scanned : scanToken contents lexer =
      advance tail .start position after)
    (fresh : after.FreshAt lexer position)
    (shape : contents.drop position = tail) :
    SkipsTo builders contents lexer position := by
  rw [SkipsTo, getToken.eq_def builders contents lexer, scanned]
  constructor
  · intro line start
    have alike : Lexer.Alike
        { lexer with
          position := position
          lineNumber := line
          lineStartPosition := start } lexer := ⟨rfl, rfl, rfl, rfl, rfl⟩
    have same : ([] : List Code).length + position = position :=
      Nat.zero_add position
    have moved := @takeToken_freshAt builders [] contents lexer _ after alike
      (same.symm ▸ fresh)
    simp only [same, shape] at moved
    exact moved
  · intro fragment token
    rw [takeToken_startPosn token]
    have start := Nat.le_of_eq fresh.startPos
    have later := @advance_startPos tail .start position after start
    rwa [fresh.startPos] at later

/-- A line comment that is ended. -/
theorem skipsTo_line {hidden : List Code} {lineEnd : Code}
    (quiet : lexer.Quiet)
    (shape : contents.drop lexer.position =
      47 :: 47 :: (hidden ++ lineEnd :: tail))
    (isHidden : ∀ code ∈ hidden, isSource code = true ∧
      isLineEnd code = false)
    (ends : isLineEnd lineEnd = true) :
    SkipsTo builders contents lexer
      (lexer.position + 2 + hidden.length + 1) := by
  obtain ⟨after, scanned, fresh⟩ := scanToken_line quiet shape isHidden ends
  apply skipsTo_of_scanToken scanned fresh
  rw [Nat.add_assoc, Nat.add_assoc, ← List.drop_drop, shape,
    Nat.add_comm 2, List.drop_succ_cons, List.drop_succ_cons,
    ← List.drop_drop, List.drop_left]
  rfl

/-- A token at a location. -/
def OutcomeAt (start : Nat) : Except Condition Fragment → Prop
  | .ok fragment => fragment.location.startPosn = start
  | .error (.literal _ location) => location.startPosn = start
  | .error _ => False

/-- A token that is made of its text alone has the location of the token. -/
theorem acceptToken_outcomeAt {scan : Scan} {builder : Builder}
    (plain : builder = .makeBinaryOperator ∨ builder = .eofMarker) :
    OutcomeAt scan.startPos
      (acceptToken builders contents scan builder).1 := by
  rw [acceptToken]
  rcases plain with rfl | rfl
  · rw [build]
    split
    · exact rfl
    · exact rfl
    all_goals exact fun same => by cases same
  · rw [build]
    split
    · exact rfl
    · exact rfl
    all_goals exact fun same => by cases same

theorem OutcomeAt.unique {first second : Nat}
    {one two : Except Condition Fragment} (moved : OutcomeMoved 0 one two)
    (here : OutcomeAt first one) (there : OutcomeAt second two) :
    first = second := by
  cases moved with
  | ok moved =>
      have start := moved.location.startPosn
      rw [Nat.zero_add] at start
      exact here.symm.trans (start.symm.trans there)
  | error moved =>
      cases moved with
      | literal moved =>
          have start := moved.startPosn
          rw [Nat.zero_add] at start
          exact here.symm.trans (start.symm.trans there)
      | _ => exact here.elim

/-- The end of the source is a token. -/
theorem getToken_end (late : contents.length ≤ lexer.position) :
    OutcomeAt lexer.position (getToken builders contents lexer).1 := by
  have atEnd : (Scan.begin lexer).startPos ≥ contents.length := late
  have scanned : scanToken contents lexer =
      .jammed lexer.position (Scan.begin lexer) := by
    rw [scanToken, List.drop_eq_nil_of_le late, advance]
  have noBuilder : (Scan.begin lexer).builder = none := rfl
  rw [getToken, scanned, takeToken, finishToken, noBuilder]
  simp only [if_pos atEnd]
  exact acceptToken_outcomeAt (Or.inr rfl)

/-- A line comment at the end of the source is not skipped. -/
theorem not_skipsTo_line_end {hidden : List Code}
    (shape : contents.drop lexer.position = 47 :: 47 :: hidden)
    (isHidden : ∀ code ∈ hidden, isSource code = true ∧
      isLineEnd code = false) :
    ¬SkipsTo builders contents lexer (lexer.position + 2 + hidden.length) := by
  intro skips
  have length := congrArg List.length shape
  simp only [List.length_drop, List.length_cons] at length
  have operator : OutcomeAt lexer.position
      (getToken builders contents lexer).1 := by
    rw [getToken, scanToken_line_end shape isHidden]
    exact acceptToken_outcomeAt (Or.inl rfl)
  have marker : OutcomeAt (lexer.position + 2 + hidden.length)
      (getToken builders contents
        { lexer with
          position := lexer.position + 2 + hidden.length
          lineNumber := 1
          lineStartPosition := 0 }).1 := by
    apply getToken_end
    simp only
    omega
  have same := OutcomeAt.unique (skips.1 1 0).1 marker operator
  omega

/-- A delimited comment. -/
theorem skipsTo_delimited {body : List Code} (quiet : lexer.Quiet)
    (shape : contents.drop lexer.position = 47 :: 42 :: (body ++ tail))
    (isBody : CommentBody true 0 body) :
    SkipsTo builders contents lexer (lexer.position + 2 + body.length) := by
  obtain ⟨after, scanned, fresh⟩ := scanToken_delimited quiet shape isBody
  apply skipsTo_of_scanToken scanned fresh
  rw [Nat.add_assoc, ← List.drop_drop, shape, Nat.add_comm 2,
    List.drop_succ_cons, List.drop_succ_cons, List.drop_left]

/-- A delimited comment that is never closed. -/
theorem getToken_open {rest : List Code} (quiet : lexer.Quiet)
    (shape : contents.drop lexer.position = 47 :: 42 :: rest)
    (isOpen : CommentOpen 0 rest) :
    ∃ location, (getToken builders contents lexer).1 =
        .error (.invalidToken location) ∧
      location.startPosn = lexer.position := by
  obtain ⟨place, after, scanned, noBuilder, start⟩ :=
    scanToken_open quiet shape isOpen
  have inside := lt_length_of_drop shape
  refine ⟨after.location place after.currentLineStartPos, ?_, start⟩
  rw [getToken, scanned, takeToken, finishToken, noBuilder]
  simp only
  rw [if_neg (by omega)]

end Tokens

/-! ## Sequences of tokens -/

/-- The tokens that calls of `get-token` return, up to a condition or to the
end of the source. -/
def tokens (builders : Builders) (contents : List Code) :
    Nat → Lexer → List (Except Condition Fragment)
  | 0, _ => []
  | count + 1, lexer =>
      match getToken builders contents lexer with
      | (.error condition, _) => [.error condition]
      | (.ok fragment, after) =>
          .ok fragment ::
            if fragment.builder = .eofMarker then []
            else tokens builders contents count after

/-- From a token on, a moved text has the same tokens. -/
theorem tokens_moved {builders : Builders} {before contents : List Code}
    {first second : Lexer}
    (token : TokenMoved before.length (getToken builders contents first)
      (getToken builders (before ++ contents) second)) (count : Nat) :
    List.Forall₂ (OutcomeMoved before.length)
      (tokens builders contents count first)
      (tokens builders (before ++ contents) count second) := by
  induction count generalizing first second with
  | zero => exact List.Forall₂.nil
  | succ count ih =>
      obtain ⟨outcome, later⟩ := token
      rw [tokens, tokens]
      generalize getToken builders contents first = one at outcome later ⊢
      generalize getToken builders (before ++ contents) second = two
        at outcome later ⊢
      obtain ⟨result, lexer⟩ := one
      obtain ⟨result', lexer'⟩ := two
      cases outcome with
      | error moved =>
          exact List.Forall₂.cons (.error moved) List.Forall₂.nil
      | ok moved =>
          apply List.Forall₂.cons (.ok moved)
          rw [moved.builder]
          split
          · exact List.Forall₂.nil
          · exact ih (getToken_moved (later rfl))

/-- A delimited comment before a text does not change its tokens. -/
theorem tokens_comment {builders : Builders} {body text : List Code}
    (isBody : CommentBody true 0 body) (count : Nat) :
    List.Forall₂ (OutcomeMoved (body.length + 2))
      (tokens builders text count (Lexer.make 0 1 0))
      (tokens builders (47 :: 42 :: body ++ text) count
        (Lexer.make 0 1 0)) := by
  have quiet : (Lexer.make 0 1 0).Quiet := ⟨rfl, rfl, rfl, rfl⟩
  have shape : (47 :: 42 :: body ++ text).drop (Lexer.make 0 1 0).position =
      47 :: 42 :: (body ++ text) := rfl
  obtain ⟨after, scanned, fresh⟩ := scanToken_delimited quiet shape isBody
  have length : (47 :: 42 :: body).length + (Lexer.make 0 1 0).position =
      (Lexer.make 0 1 0).position + 2 + body.length := by
    simp only [List.length_cons, Lexer.make]
    omega
  have alike : (Lexer.make 0 1 0).Alike (Lexer.make 0 1 0) :=
    ⟨rfl, rfl, rfl, rfl, rfl⟩
  have token := @takeToken_freshAt builders (47 :: 42 :: body) text
    (Lexer.make 0 1 0) (Lexer.make 0 1 0) after alike (length.symm ▸ fresh)
  rw [length] at token
  apply @tokens_moved builders (47 :: 42 :: body) text
  rw [getToken.eq_def builders (47 :: 42 :: body ++ text), scanned]
  exact token

/-- Comments are skipped, and no character of them belongs to a token: line
comments exactly when they are ended by a line break, and delimited comments
when no delimiter follows the end of an inner comment at once.  What is no
comment because it is never closed is not skipped. -/
theorem comments_are_skipped {builders : Builders} {contents : List Code}
    {lexer : Lexer} (quiet : lexer.Quiet) :
    (∀ hidden ending tail, contents.drop lexer.position =
        47 :: 47 :: (hidden ++ (ending ++ tail)) →
      (∀ code ∈ hidden, isSource code = true ∧ isLineEnd code = false) →
      ((∃ lineEnd, isLineEnd lineEnd = true ∧ ending = [lineEnd]) ∨
        (ending = [] ∧ tail = [])) →
      (SkipsTo builders contents lexer
          (lexer.position + 2 + hidden.length + ending.length) ↔
        ending ≠ [])) ∧
    (∀ body tail, contents.drop lexer.position =
        47 :: 42 :: (body ++ tail) →
      CommentBody true 0 body →
        SkipsTo builders contents lexer
          (lexer.position + 2 + body.length)) ∧
    (∀ rest, contents.drop lexer.position = 47 :: 42 :: rest →
      CommentOpen 0 rest →
        ∃ location, (getToken builders contents lexer).1 =
            .error (.invalidToken location) ∧
          location.startPosn = lexer.position) ∧
    ∀ body text count, CommentBody true 0 body →
      List.Forall₂ (OutcomeMoved (body.length + 2))
        (tokens builders text count (Lexer.make 0 1 0))
        (tokens builders (47 :: 42 :: body ++ text) count
          (Lexer.make 0 1 0)) := by
  refine ⟨?_, ?_, ?_, ?_⟩
  · rintro hidden ending tail shape isHidden
      (⟨lineEnd, ends, rfl⟩ | ⟨rfl, rfl⟩)
    · have skips : SkipsTo builders contents lexer
          (lexer.position + 2 + hidden.length + 1) :=
        skipsTo_line quiet shape isHidden ends
      exact ⟨fun _ => List.cons_ne_nil _ _, fun _ => skips⟩
    · rw [List.append_nil, List.append_nil] at shape
      have stays : ¬SkipsTo builders contents lexer
          (lexer.position + 2 + hidden.length) :=
        not_skipsTo_line_end shape isHidden
      exact ⟨fun skips => absurd skips stays, fun ended => absurd rfl ended⟩
  · intro body tail shape isBody
    exact skipsTo_delimited quiet shape isBody
  · intro rest shape isOpen
    exact getToken_open quiet shape isOpen
  · intro body text count isBody
    exact tokens_comment isBody count

/-- A comment with a comment in it, before a number. -/
theorem comments_are_skipped_nested :
    CommentBody true 0 (codes "a /* b */ */") ∧
      SkipsTo plainBuilders (codes "/*a /* b */ */1") (Lexer.make 0 1 0) 14 ∧
      List.Forall₂ (OutcomeMoved 14)
        (tokens plainBuilders (codes "1") 2 (Lexer.make 0 1 0))
        (tokens plainBuilders (codes "/*a /* b */ */1") 2
          (Lexer.make 0 1 0)) := by
  have quiet : (Lexer.make 0 1 0).Quiet := ⟨rfl, rfl, rfl, rfl⟩
  have body : CommentBody true 0 (codes "a /* b */ */") := by
    apply CommentBody.character (by decide) (by decide)
    apply CommentBody.character (by decide) (by decide)
    apply CommentBody.openInner
    apply CommentBody.character (by decide) (by decide)
    apply CommentBody.character (by decide) (by decide)
    apply CommentBody.character (by decide) (by decide)
    apply CommentBody.closeInner _ (by decide)
    apply CommentBody.character (by decide) (by decide)
    exact CommentBody.close
  have skipped := @comments_are_skipped plainBuilders
    (codes "/*a /* b */ */1") (Lexer.make 0 1 0) quiet
  exact ⟨body, skipped.2.1 _ (codes "1") (by decide) body,
    skipped.2.2.2 _ (codes "1") 2 body⟩

/-- After the end of an inner comment the end of the outer one is not seen, and
a line comment at the end of the source is taken for operators. -/
theorem comments_are_skipped_fails :
    (CommentBody false 0 (codes "/**/*/") ∧
      ¬List.Forall₂ (OutcomeMoved 8)
        (tokens plainBuilders (codes "1") 2 (Lexer.make 0 1 0))
        (tokens plainBuilders (codes "/*/**/*/1") 2 (Lexer.make 0 1 0))) ∧
    ¬SkipsTo plainBuilders (codes "// a") (Lexer.make 0 1 0) 4 := by
  refine ⟨⟨?_, ?_⟩, ?_⟩
  · apply CommentBody.openInner
    apply CommentBody.closeInner CommentBody.close
    intro apart
    cases apart
  · intro same
    have lengths : (tokens plainBuilders (codes "1") 2
        (Lexer.make 0 1 0)).length ≠ (tokens plainBuilders
          (codes "/*/**/*/1") 2 (Lexer.make 0 1 0)).length := by
      decide +kernel
    exact lengths same.length_eq
  · have shape : (codes "// a").drop (Lexer.make 0 1 0).position =
        47 :: 47 :: codes " a" := by decide
    exact not_skipsTo_line_end shape (by decide +kernel)

end OpenDylan.Compiler.Lexer
