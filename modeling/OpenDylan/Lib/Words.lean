import Mathlib.Data.List.DropRight

/-!
# Words between separators

The words of a text are its parts between separators that are not empty.
Written one after the other with a separator after each they are a text with
the same words, and the text itself when no part of it is empty.
-/

namespace OpenDylan.Lib.Words

variable {Letter : Type*}

/-- The parts of a text between separators that are not empty. -/
def words (isSeparator : Letter → Bool) (text : List Letter) :
    List (List Letter) :=
  (text.splitOnP isSeparator).filter fun part => !part.isEmpty

/-- Words with a separator after each. -/
def written (separator : Letter) (parts : List (List Letter)) :
    List Letter :=
  parts.flatMap fun part => part ++ [separator]

/-- No letter of a text is a separator. -/
def Plain (isSeparator : Letter → Bool) (text : List Letter) : Prop :=
  ∀ letter ∈ text, isSeparator letter = false

/-- What comes before the first separator, or everything. -/
def beforeFirst (isSeparator : Letter → Bool) (text : List Letter) :
    List Letter :=
  text.takeWhile fun letter => !isSeparator letter

/-- What begins with the first separator, or nothing. -/
def fromFirst (isSeparator : Letter → Bool) (text : List Letter) :
    List Letter :=
  text.dropWhile fun letter => !isSeparator letter

/-- What comes before the last separator. -/
def beforeLast (isSeparator : Letter → Bool) (text : List Letter) :
    List Letter :=
  (text.rdropWhile fun letter => !isSeparator letter).dropLast

section Words

variable {isSeparator : Letter → Bool} {text before after : List Letter}
  {separator : Letter}

theorem words_nil : words isSeparator [] = [] := by
  simp [words]

theorem words_append (here : isSeparator separator = true) :
    words isSeparator (before ++ separator :: after) =
      words isSeparator before ++ words isSeparator after := by
  unfold words
  rw [List.splitOnP_append_cons before after here, List.filter_append]

theorem words_cons (here : isSeparator separator = true) :
    words isSeparator (separator :: after) = words isSeparator after := by
  have whole : words isSeparator ([] ++ separator :: after) = _ :=
    words_append here
  rw [words_nil] at whole
  exact whole

theorem words_ended (here : isSeparator separator = true) :
    words isSeparator (before ++ [separator]) = words isSeparator before := by
  rw [words_append here, words_nil, List.append_nil]

theorem words_plain (plain : Plain isSeparator text) (some : text ≠ []) :
    words isSeparator text = [text] := by
  unfold words
  rw [List.splitOnP_eq_singleton plain]
  simp [some]

theorem beforeFirst_append (isSeparator : Letter → Bool)
    (text : List Letter) :
    beforeFirst isSeparator text ++ fromFirst isSeparator text = text :=
  List.takeWhile_append_dropWhile

theorem beforeFirst_plain (plain : Plain isSeparator text) :
    beforeFirst isSeparator text = text := by
  unfold beforeFirst
  rw [List.takeWhile_eq_self_iff]
  intro letter member
  rw [plain letter member]
  rfl

theorem fromFirst_plain (plain : Plain isSeparator text) :
    fromFirst isSeparator text = [] := by
  unfold fromFirst
  rw [List.dropWhile_eq_nil_iff]
  intro letter member
  rw [plain letter member]
  rfl

theorem beforeFirst_split (plain : Plain isSeparator before)
    (here : isSeparator separator = true) :
    beforeFirst isSeparator (before ++ separator :: after) = before := by
  unfold beforeFirst
  rw [List.takeWhile_append_of_pos, List.takeWhile_cons, here]
  · exact List.append_nil before
  · intro letter member
    rw [plain letter member]
    rfl

theorem fromFirst_split (plain : Plain isSeparator before)
    (here : isSeparator separator = true) :
    fromFirst isSeparator (before ++ separator :: after) =
      separator :: after := by
  unfold fromFirst
  rw [List.dropWhile_append_of_pos, List.dropWhile_cons, here]
  · rfl
  · intro letter member
    rw [plain letter member]
    rfl

/-- A text has no separators, or is split at the first of them. -/
theorem split_at_first (isSeparator : Letter → Bool) (text : List Letter) :
    Plain isSeparator text ∨
      ∃ front separator rest, text = front ++ separator :: rest ∧
        Plain isSeparator front ∧ isSeparator separator = true := by
  induction text with
  | nil =>
      apply Or.inl
      intro letter member
      cases member
  | cons first text inductionHypothesis =>
      cases here : isSeparator first with
      | true =>
          refine Or.inr ⟨[], first, text, rfl, ?_, here⟩
          intro letter member
          cases member
      | false =>
          cases inductionHypothesis with
          | inl plain => exact Or.inl (List.forall_mem_cons.mpr ⟨here, plain⟩)
          | inr split =>
              obtain ⟨front, separator, rest, whole, plain, delimiter⟩ :=
                split
              exact Or.inr ⟨first :: front, separator, rest,
                congrArg (List.cons first) whole,
                List.forall_mem_cons.mpr ⟨here, plain⟩, delimiter⟩

theorem fromFirst_begins (isSeparator : Letter → Bool) {letter : Letter}
    (first : (fromFirst isSeparator text).head? = some letter) :
    isSeparator letter = true := by
  cases split_at_first isSeparator text with
  | inl plain =>
      rw [fromFirst_plain plain] at first
      cases first
  | inr split =>
      obtain ⟨front, separator, rest, whole, plain, here⟩ := split
      rw [whole, fromFirst_split plain here] at first
      rw [← Option.some.inj first]
      exact here

/-- A text has no separators, or is split at the last of them. -/
theorem split_at_last (isSeparator : Letter → Bool) (text : List Letter) :
    Plain isSeparator text ∨
      ∃ front separator name, text = front ++ separator :: name ∧
        isSeparator separator = true ∧ Plain isSeparator name := by
  induction text with
  | nil =>
      apply Or.inl
      intro letter member
      cases member
  | cons first text inductionHypothesis =>
      cases inductionHypothesis with
      | inl plain =>
          cases here : isSeparator first with
          | true => exact Or.inr ⟨[], first, text, rfl, here, plain⟩
          | false => exact Or.inl (List.forall_mem_cons.mpr ⟨here, plain⟩)
      | inr split =>
          obtain ⟨front, separator, name, whole, delimiter, plain⟩ := split
          exact Or.inr ⟨first :: front, separator, name,
            congrArg (List.cons first) whole, delimiter, plain⟩

theorem beforeLast_split (here : isSeparator separator = true)
    (plain : Plain isSeparator after) :
    beforeLast isSeparator (before ++ separator :: after) = before := by
  have dropped : (before ++ separator :: after).reverse.dropWhile
      (fun letter => !isSeparator letter) = separator :: before.reverse := by
    rw [List.reverse_append, List.reverse_cons, List.append_assoc,
      List.dropWhile_append_of_pos]
    · show (separator :: before.reverse).dropWhile _ = _
      rw [List.dropWhile_cons, here]
      rfl
    · intro letter member
      rw [plain letter (List.mem_reverse.mp member)]
      rfl
  unfold beforeLast List.rdropWhile
  rw [dropped, List.reverse_cons, List.reverse_reverse, List.dropLast_concat]

/-- The parts of a text have no separators. -/
theorem plain_of_mem {part : List Letter}
    (member : part ∈ text.splitOnP isSeparator) : Plain isSeparator part := by
  induction text generalizing part with
  | nil =>
      rw [List.splitOnP_nil, List.mem_singleton] at member
      subst member
      intro letter member
      cases member
  | cons letter text inductionHypothesis =>
      rw [List.splitOnP_cons_eq_if_modifyHead] at member
      cases here : isSeparator letter with
      | true =>
          rw [here, if_pos rfl] at member
          cases List.mem_cons.mp member with
          | inl empty =>
              subst empty
              intro letter member
              cases member
          | inr later => exact inductionHypothesis later
      | false =>
          rw [here, if_neg Bool.false_ne_true] at member
          cases parts : text.splitOnP isSeparator with
          | nil => exact absurd parts (List.splitOnP_ne_nil isSeparator text)
          | cons first rest =>
              rw [parts, List.modifyHead_cons] at member
              cases List.mem_cons.mp member with
              | inl isFirst =>
                  subst isFirst
                  intro other inside
                  cases List.mem_cons.mp inside with
                  | inl same =>
                      rw [same]
                      exact here
                  | inr later =>
                      have plain : Plain isSeparator first := by
                        apply inductionHypothesis
                        rw [parts]
                        exact List.mem_cons_self
                      exact plain other later
              | inr later =>
                  apply inductionHypothesis
                  rw [parts]
                  exact List.mem_cons_of_mem first later

theorem mem_words {part : List Letter}
    (member : part ∈ words isSeparator text) :
    part ≠ [] ∧ Plain isSeparator part := by
  have both := List.mem_filter.mp member
  exact ⟨by simpa using both.2, plain_of_mem both.1⟩

/-- Words that were written are read back. -/
theorem words_written {parts : List (List Letter)}
    (here : isSeparator separator = true)
    (proper : ∀ part ∈ parts, part ≠ [] ∧ Plain isSeparator part) :
    words isSeparator (written separator parts) = parts := by
  induction parts with
  | nil => exact words_nil
  | cons part parts inductionHypothesis =>
      have first := proper part List.mem_cons_self
      have rest := inductionHypothesis fun other member =>
        proper other (List.mem_cons_of_mem part member)
      show words isSeparator ((part ++ [separator]) ++
        written separator parts) = _
      rw [List.append_assoc, List.singleton_append, words_append here, rest,
        words_plain first.2 first.1]
      rfl

/-- A text whose separators are all the same is its parts, written. -/
theorem written_parts
    (native : ∀ letter ∈ text, isSeparator letter = true →
      letter = separator) :
    written separator (text.splitOnP isSeparator) = text ++ [separator] := by
  induction text with
  | nil => simp [written]
  | cons letter text inductionHypothesis =>
      have rest := inductionHypothesis fun other member =>
        native other (List.mem_cons_of_mem letter member)
      rw [List.splitOnP_cons_eq_if_modifyHead]
      cases here : isSeparator letter with
      | true =>
          rw [if_pos rfl, native letter List.mem_cons_self here]
          show [] ++ [separator] ++ written separator _ = _
          rw [rest]
          rfl
      | false =>
          rw [if_neg Bool.false_ne_true]
          cases parts : text.splitOnP isSeparator with
          | nil => exact absurd parts (List.splitOnP_ne_nil isSeparator text)
          | cons first others =>
              rw [parts] at rest
              rw [List.modifyHead_cons]
              show letter :: (first ++ [separator]) ++
                written separator others = _
              rw [List.cons_append]
              exact congrArg (List.cons letter) rest

theorem words_of_nonempty
    (nonempty : ∀ part ∈ text.splitOnP isSeparator, part ≠ []) :
    words isSeparator text = text.splitOnP isSeparator := by
  unfold words
  rw [List.filter_eq_self]
  intro part member
  simpa using nonempty part member

/-- A text of nothing but separators has no words, and no other. -/
theorem separators_of_no_words (none : words isSeparator text = []) :
    ∀ letter ∈ text, isSeparator letter = true := by
  induction text with
  | nil =>
      intro letter member
      cases member
  | cons letter text inductionHypothesis =>
      cases here : isSeparator letter with
      | true =>
          rw [words_cons here] at none
          intro other member
          cases List.mem_cons.mp member with
          | inl same =>
              rw [same]
              exact here
          | inr later => exact inductionHypothesis none other later
      | false =>
          unfold words at none
          rw [List.splitOnP_cons_eq_if_modifyHead, here,
            if_neg Bool.false_ne_true] at none
          cases parts : text.splitOnP isSeparator with
          | nil => exact absurd parts (List.splitOnP_ne_nil isSeparator text)
          | cons first others =>
              rw [parts] at none
              simp at none

theorem written_ends {parts : List (List Letter)} (some : parts ≠ []) :
    ∃ front, written separator parts = front ++ [separator] := by
  cases List.eq_nil_or_concat parts with
  | inl none => exact absurd none some
  | inr split =>
      obtain ⟨front, last, whole⟩ := split
      refine ⟨written separator front ++ last, ?_⟩
      rw [whole]
      simp [written]

end Words

end OpenDylan.Lib.Words
