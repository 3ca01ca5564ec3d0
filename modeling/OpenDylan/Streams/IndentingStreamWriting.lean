import OpenDylan.Streams.IndentingStream

/-!
# Writing in chunks

The loop of `write` holds back the characters from a start on.  It holds back
nothing while it counts blanks, so that at every element it has got as far as
`write-element` would have, once what it holds back is written.
-/

namespace OpenDylan.Streams.Indenting

variable {stream : IndentingStream} {elements : List Char}

/-! ## Inner streams -/

/-- The stream with another column. -/
def IndentingStream.atColumn (stream : IndentingStream)
    (column : Option Int) : IndentingStream :=
  { stream with isSpaceColumn := column }

@[simp]
theorem writeInner_nil (stream : IndentingStream) :
    stream.writeInner [] = stream := by
  simp [IndentingStream.writeInner]

@[simp]
theorem writeInner_writeInner (stream : IndentingStream)
    (first second : List Char) :
    (stream.writeInner first).writeInner second =
      stream.writeInner (first ++ second) := by
  simp [IndentingStream.writeInner]

@[simp]
theorem atColumn_self (stream : IndentingStream) :
    stream.atColumn stream.isSpaceColumn = stream := rfl

theorem writeInner_atColumn (stream : IndentingStream) (column : Option Int)
    (text : List Char) :
    (stream.atColumn column).writeInner text =
      (stream.writeInner text).atColumn column := rfl

@[simp]
theorem copySequence_self (elements : List Char) (index : Nat) :
    copySequence elements index index = [] := by
  rw [copySequence, List.drop_eq_nil_iff, List.length_take]
  exact Nat.min_le_left ..

theorem copySequence_succ {start index : Nat}
    (inside : index < elements.length) (order : start ≤ index) :
    copySequence elements start (index + 1) =
      copySequence elements start index ++ [elements[index]] := by
  rw [copySequence, List.take_add_one, List.getElem?_eq_getElem inside,
    List.drop_append_of_le_length]
  · rfl
  · rw [List.length_take]
    omega

/-! ## Outcomes -/

@[simp]
theorem done_andThen (stream : IndentingStream)
    (next : IndentingStream → Outcome) :
    (done stream).andThen next = next stream := rfl

theorem andThen_andThen (first : Outcome)
    (second third : IndentingStream → Outcome) :
    (first.andThen second).andThen third =
      first.andThen fun stream => (second stream).andThen third := by
  rcases first with ⟨stream, error⟩
  cases error <;> rfl

/-- Two outcomes pass the same on to the inner stream and signal the same
error; without an error they leave the same stream. -/
structure Outcome.Agrees (first second : Outcome) : Prop where
  error : first.error = second.error
  innerStream : first.stream.innerStream = second.stream.innerStream
  stream : first.error = none → first.stream = second.stream

theorem Outcome.Agrees.refl (outcome : Outcome) : outcome.Agrees outcome :=
  ⟨rfl, rfl, fun _ => rfl⟩

theorem Outcome.Agrees.andThen {first second : Outcome}
    (agrees : first.Agrees second) {next next' : IndentingStream → Outcome}
    (later : ∀ stream, (next stream).Agrees (next' stream)) :
    (first.andThen next).Agrees (second.andThen next') := by
  rcases first with ⟨stream, error⟩
  rcases second with ⟨stream', error'⟩
  have sameError : error = error' := agrees.error
  subst sameError
  cases error with
  | none =>
      have same : stream = stream' := agrees.stream rfl
      subst same
      exact later stream
  | some error => exact ⟨rfl, agrees.innerStream, fun none => by cases none⟩

theorem agrees_signal {first second : IndentingStream} (error : StreamError)
    (same : first.innerStream = second.innerStream) :
    (signal first error).Agrees (signal second error) :=
  ⟨rfl, same, fun none => by cases none⟩

/-! ## Indentations -/

/-- A number of blanks, which is not to be negative. -/
def blankText (blank : Char) (count : Int) :
    List Char × Option StreamError :=
  if 0 ≤ count then (List.replicate count.toNat blank, none)
  else ([], some (.badEnd count))

/-- What `write-indent` writes, and the error that ends it. -/
def indentText (tabWidth : Option Int) (count : Int) :
    List Char × Option StreamError :=
  match tabWidth with
  | none => blankText ' ' count
  | some tabWidth =>
      if count ≥ tabWidth then
        match truncateDivide count tabWidth with
        | none => ([], some .divisionByZero)
        | some (tabs, spaces) =>
            match blankText '\t' tabs with
            | (text, none) =>
                (text ++ (blankText ' ' spaces).1, (blankText ' ' spaces).2)
            | failed => failed
      else
        blankText ' ' count

theorem writeBlanks_eq (blank : Char) {size : Nat} (positive : 0 < size)
    {rounds : Nat} {count : Int} (enough : count.toNat ≤ rounds)
    (stream : IndentingStream) :
    writeBlanks (List.replicate size blank) rounds count stream =
      ⟨stream.writeInner (blankText blank count).1,
        (blankText blank count).2⟩ := by
  induction rounds generalizing count stream with
  | zero =>
      rw [writeBlanks, List.length_replicate, if_neg (by omega)]
      by_cases sign : 0 ≤ count
      · have zero : count = 0 := by omega
        subst zero
        simp [blankText, copySequence, done]
      · simp [blankText, sign, signal]
  | succ rounds inductionHypothesis =>
      rw [writeBlanks, List.length_replicate]
      by_cases long : count > size
      · rw [if_pos long, inductionHypothesis (by omega), blankText, blankText,
          if_pos (by omega), if_pos (by omega), writeInner_writeInner,
          List.replicate_append_replicate]
        have total : size + (count - size).toNat = count.toNat := by omega
        rw [total]
      · rw [if_neg long]
        by_cases sign : 0 ≤ count
        · have short : min count.toNat size = count.toNat := by omega
          simp [blankText, sign, done, copySequence, short]
        · simp [blankText, sign, signal]

theorem writeIndent_eq (stream : IndentingStream) (count : Int) :
    writeIndent stream count =
      ⟨stream.writeInner (indentText stream.isOutputTabWidth count).1,
        (indentText stream.isOutputTabWidth count).2⟩ := by
  have writeSpaces_eq : ∀ count stream, writeSpaces count stream =
      ⟨stream.writeInner (blankText ' ' count).1, (blankText ' ' count).2⟩ :=
    fun count stream =>
      writeBlanks_eq ' ' (by decide) (Nat.le_refl _) stream
  have writeTabs_eq : ∀ count stream, writeTabs count stream =
      ⟨stream.writeInner (blankText '\t' count).1,
        (blankText '\t' count).2⟩ :=
    fun count stream =>
      writeBlanks_eq '\t' (by decide) (Nat.le_refl _) stream
  cases width : stream.isOutputTabWidth with
  | none =>
      simp only [writeIndent, indentText, width]
      exact writeSpaces_eq count stream
  | some tabWidth =>
      simp only [writeIndent, indentText, width]
      by_cases wide : count ≥ tabWidth
      · rw [if_pos wide, if_pos wide]
        cases truncateDivide count tabWidth with
        | none => simp [signal]
        | some parts =>
            simp only [writeTabs_eq]
            rcases blankText '\t' parts.1 with ⟨text, error⟩
            cases error with
            | none => simp [Outcome.andThen, writeSpaces_eq]
            | some error => simp [Outcome.andThen]
      · rw [if_neg wide, if_neg wide]
        exact writeSpaces_eq count stream

/-! ## The loop -/

theorem writeElements_append (front back : List Char)
    (stream : IndentingStream) :
    writeElements (front ++ back) stream =
      (writeElements front stream).andThen (writeElements back) := by
  induction front generalizing stream with
  | nil => rfl
  | cons elt front inductionHypothesis =>
      rw [List.cons_append, writeElements, writeElements, andThen_andThen]
      congr 1
      funext next
      exact inductionHypothesis next

/-- The loop has got as far as single characters, but for what it holds back
and the column that it has not stored. -/
theorem writeLoop_agrees {left index start : Nat} {column : Option Int}
    (inside : index + left ≤ elements.length) (order : start ≤ index)
    (nothing : column ≠ none → start = index) :
    (writeLoop elements left index start column stream).Agrees
      (writeElements ((elements.drop index).take left)
        ((stream.writeInner
          (copySequence elements start index)).atColumn column)) := by
  induction left generalizing index start column stream with
  | zero =>
      rw [writeLoop, List.take_zero, writeElements]
      by_cases same : start = index
      · subst same
        simp only [ne_eq, not_true_eq_false, if_false, copySequence_self,
          writeInner_nil]
        exact Outcome.Agrees.refl _
      · rw [if_pos same]
        exact Outcome.Agrees.refl _
  | succ left inductionHypothesis =>
      have here : index < elements.length := by omega
      have held := copySequence_succ here order
      rw [List.drop_eq_getElem_cons here, List.take_succ_cons, writeElements]
      simp only [writeLoop, List.getElem?_eq_getElem here]
      generalize elements[index] = elt at held
      -- With nothing held back, the next character is the first.
      have fresh : ∀ {column stream},
          (writeLoop elements left (index + 1) (index + 1) column
            stream).Agrees
            (writeElements ((elements.drop (index + 1)).take left)
              (stream.atColumn column)) := by
        intro column stream
        have rest : (writeLoop elements left (index + 1) (index + 1) column
            stream).Agrees _ :=
          inductionHypothesis (by omega) (Nat.le_refl _) (fun _ => rfl)
        rw [copySequence_self, writeInner_nil] at rest
        exact rest
      -- In the middle of a line the character is held back as well.
      have going : ∀ {stream},
          (writeLoop elements left (index + 1) start none stream).Agrees
            (writeElements ((elements.drop (index + 1)).take left)
              ((stream.writeInner
                (copySequence elements start index ++ [elt])).atColumn
                  none)) := by
        intro stream
        rw [← held]
        exact inductionHypothesis (by omega) (by omega) (by simp)
      by_cases isSpace : elt = ' '
      · cases column with
        | some column =>
            have flushed := nothing (by simp)
            subst flushed
            simpa [writeElement, isSpace, IndentingStream.atColumn] using fresh
        | none =>
            simpa [writeElement, isSpace, IndentingStream.atColumn,
              IndentingStream.writeInner] using going
      by_cases isTab : elt = '\t'
      · cases column with
        | some column =>
            have flushed := nothing (by simp)
            subst flushed
            simp only [writeElement, isTab, copySequence_self, writeInner_nil,
              IndentingStream.atColumn]
            cases tabColumn column stream.isInputTabWidth with
            | none => exact agrees_signal _ rfl
            | some column => exact fresh
        | none =>
            simpa [writeElement, isTab, IndentingStream.atColumn,
              IndentingStream.writeInner] using going
      by_cases isNewline : elt = '\n' ∨ elt = '\r'
      · simp only [isSpace, isTab, isNewline, if_true, if_false, writeElement,
          done_andThen, held, ← writeInner_writeInner]
        exact fresh
      simp only [isSpace, isTab, isNewline, if_false, writeElement]
      cases column with
      | some column =>
          have flushed := nothing (by simp)
          subst flushed
          rw [copySequence_self, List.nil_append] at going
          rw [copySequence_self, writeInner_nil, andThen_andThen]
          simp only [IndentingStream.atColumn, writeIndent_eq]
          cases failed :
              (indentText stream.isOutputTabWidth
                (stream.isIndentation + column)).2 with
          | none => exact going
          | some error => exact agrees_signal error rfl
      | none =>
          simp only [← writeInner_writeInner] at going
          exact going

/-- Writing a part of a sequence is writing its elements. -/
theorem write_agrees {start finish : Nat} (inside : finish ≤ elements.length) :
    (write stream elements start finish).Agrees
      (writeElements (copySequence elements start finish) stream) := by
  by_cases order : start ≤ finish
  · have all : (write stream elements start finish).Agrees _ :=
      writeLoop_agrees (by omega) (Nat.le_refl start) (fun _ => rfl)
    rw [copySequence_self, writeInner_nil, atColumn_self] at all
    rw [copySequence, List.drop_take]
    exact all
  · have none : finish - start = 0 := by omega
    have empty : copySequence elements start finish = [] := by
      rw [copySequence, List.drop_eq_nil_iff, List.length_take]
      omega
    rw [write, none, empty, writeLoop]
    simp only [ne_eq, not_true_eq_false, if_false]
    exact Outcome.Agrees.refl _

theorem Chunk.write_agrees {chunk : Chunk} (inBounds : chunk.InBounds) :
    (chunk.write stream).Agrees (writeElements chunk.text stream) := by
  cases chunk with
  | element character =>
      rw [Chunk.write, Chunk.text, writeElements]
      rcases writeElement stream character with ⟨after, error⟩
      cases error <;> exact Outcome.Agrees.refl _
  | part elements start finish => exact Indenting.write_agrees inBounds

/-- A text written in chunks is written as if one character at a time. -/
theorem writeChunks_agrees {chunks : List Chunk}
    (inBounds : ∀ chunk ∈ chunks, chunk.InBounds) :
    (writeChunks chunks stream).Agrees
      (writeElements (chunks.flatMap Chunk.text) stream) := by
  induction chunks generalizing stream with
  | nil => exact Outcome.Agrees.refl _
  | cons chunk chunks inductionHypothesis =>
      rw [writeChunks, List.flatMap_cons, writeElements_append]
      apply (Chunk.write_agrees (inBounds chunk List.mem_cons_self)).andThen
      intro stream
      exact inductionHypothesis fun later member =>
        inBounds later (List.mem_cons_of_mem _ member)

end OpenDylan.Streams.Indenting
