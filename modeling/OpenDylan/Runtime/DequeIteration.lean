import OpenDylan.Runtime.DequeRefinement

/-!
# Iterating over deques

The states of an iteration are indices into the vector.  Forward iteration
starts at the first index and subtracts it for the keys; its elements and keys
are those of the list that the deque stands for.  Backward iteration starts
behind the last index, ends at the first index and gives its states for the
keys; it is the reverse of forward iteration for empty deques only.
-/

namespace OpenDylan.Runtime.Deque

open Objects

/-- The values of an iteration protocol. -/
structure IterationProtocol (α : Type) where
  initialState : Int
  limit : Int
  nextState : ObjectDeque α → Int → Int
  finishedState : ObjectDeque α → Int → Int → Bool
  currentKey : ObjectDeque α → Int → Int
  currentElement : ObjectDeque α → Int → Except (Stop α) α
  currentElementSetter :
    α → ObjectDeque α → Int → Except (Stop α) (ObjectDeque α)
  copyState : ObjectDeque α → Int → Int

section Protocols

variable {α : Type}

/-- `identity-copy-state` -/
def identityCopyState (_ : ObjectDeque α) (state : Int) : Int := state

/-- `sequence-next-state` -/
def sequenceNextState (_ : ObjectDeque α) (state : Int) : Int := state + 1

/-- `sequence-previous-state` -/
def sequencePreviousState (_ : ObjectDeque α) (state : Int) : Int := state - 1

/-- `sequence-finished-state?` -/
def sequenceFinishedState (_ : ObjectDeque α) (state limit : Int) : Bool :=
  state = limit

/-- `sequence-current-key` -/
def sequenceCurrentKey (_ : ObjectDeque α) (state : Int) : Int := state

/-- `object-deque-current-key` -/
def objectDequeCurrentKey (deque : ObjectDeque α) (state : Int) : Int :=
  state - deque.representation.firstIndex

/-- `object-deque-current-element` -/
def objectDequeCurrentElement (deque : ObjectDeque α) (state : Int) :
    Except (Stop α) α :=
  deque.representation.element state

/-- `object-deque-current-element-setter` -/
def objectDequeCurrentElementSetter (newValue : α) (deque : ObjectDeque α)
    (state : Int) : Except (Stop α) (ObjectDeque α) := do
  deque.checkType newValue
  let representation ← deque.representation.setElement state newValue
  return { deque with representation }

/-- `forward-iteration-protocol` -/
def forwardIterationProtocol (deque : ObjectDeque α) : IterationProtocol α where
  initialState := deque.representation.firstIndex
  limit := deque.representation.lastIndex + 1
  nextState := sequenceNextState
  finishedState := sequenceFinishedState
  currentKey := objectDequeCurrentKey
  currentElement := objectDequeCurrentElement
  currentElementSetter := objectDequeCurrentElementSetter
  copyState := identityCopyState

/-- `backward-iteration-protocol` -/
def backwardIterationProtocol (deque : ObjectDeque α) : IterationProtocol α where
  initialState := deque.representation.lastIndex + 1
  limit := deque.representation.firstIndex
  nextState := sequencePreviousState
  finishedState := sequenceFinishedState
  currentKey := sequenceCurrentKey
  currentElement := objectDequeCurrentElement
  currentElementSetter := objectDequeCurrentElementSetter
  copyState := identityCopyState

/-- The keys and the elements from a state on, with a bound on the rounds. -/
def iterate (protocol : IterationProtocol α) (deque : ObjectDeque α) :
    (rounds : Nat) → (state : Int) → Except (Stop α) (List (Int × α))
  | 0, _ => .error .endless
  | rounds + 1, state =>
      if protocol.finishedState deque state protocol.limit then
        return []
      else do
        let key := protocol.currentKey deque state
        let element ← protocol.currentElement deque state
        let rest ← iterate protocol deque rounds (protocol.nextState deque state)
        return (key, element) :: rest

/-- The elements of a list with their keys, from a first key on. -/
def entries (first : Int) : List α → List (Int × α)
  | [] => []
  | element :: contents => (first, element) :: entries (first + 1) contents

theorem entries_concat (first : Int) (contents : List α) (element : α) :
    entries first (contents ++ [element]) =
      entries first contents ++ [(first + contents.length, element)] := by
  induction contents generalizing first with
  | nil => simp [entries]
  | cons head contents ih =>
      rw [List.cons_append, entries, ih, entries, List.cons_append]
      simp
      omega

/-! ## What iterations yield -/

section Iteration

variable {deque : ObjectDeque α} {front range back : List α} {rounds : Nat}
  {state : Int}

theorem iterate_finished (protocol : IterationProtocol α)
    (finished : protocol.finishedState deque state protocol.limit = true) :
    iterate protocol deque (rounds + 1) state = .ok [] := by
  rw [iterate, if_pos finished]
  rfl

theorem iterate_step (protocol : IterationProtocol α) {element : α}
    {rest : List (Int × α)}
    (unfinished : protocol.finishedState deque state protocol.limit = false)
    (found : protocol.currentElement deque state = .ok element)
    (later : iterate protocol deque rounds (protocol.nextState deque state) =
      .ok rest) :
    iterate protocol deque (rounds + 1) state =
      .ok ((protocol.currentKey deque state, element) :: rest) := by
  rw [iterate, if_neg (by simp [unfinished]), found]
  simp only [bind, Except.bind, later]
  rfl

theorem iterate_forward {passed : List α}
    (elements : deque.representation.elements =
      front ++ (passed ++ (range ++ back)))
    (first : deque.representation.firstIndex = front.length)
    (last : deque.representation.lastIndex + 1 =
      front.length + passed.length + range.length)
    (stateAt : state = front.length + passed.length)
    (enough : range.length < rounds) :
    iterate (forwardIterationProtocol deque) deque rounds state =
      .ok (entries passed.length range) := by
  obtain ⟨rounds, rfl⟩ : ∃ fewer, rounds = fewer + 1 :=
    ⟨rounds - 1, by omega⟩
  induction range generalizing passed rounds state with
  | nil =>
      apply iterate_finished
      simp only [forwardIterationProtocol, sequenceFinishedState,
        decide_eq_true_eq]
      simp at last
      omega
  | cons element range ih =>
      rw [List.length_cons] at last enough
      have elements' : deque.representation.elements =
          front ++ ((passed ++ [element]) ++ (range ++ back)) := by
        rw [elements]
        simp
      have here : deque.representation.elements =
          (front ++ passed) ++ element :: (range ++ back) := by
        rw [elements]
        simp
      obtain ⟨rounds, rfl⟩ : ∃ fewer, rounds = fewer + 1 :=
        ⟨rounds - 1, by omega⟩
      have later := ih elements' (by simp; omega)
        (by simp; omega : state + 1 = _) rounds (by omega)
      have found : deque.representation.element state = .ok element :=
        element_at here (by rw [List.length_append]; omega)
      have step := iterate_step (forwardIterationProtocol deque)
        (by simp [forwardIterationProtocol, sequenceFinishedState]; omega) found
        later
      rw [step, entries]
      simp only [forwardIterationProtocol, objectDequeCurrentKey,
        List.length_append, List.length_singleton, Int.natCast_add, Int.natCast_one,
        first, stateAt]
      congr 3
      omega

end Iteration

/-! ## Iterating over the elements of a deque -/

/-- The states from the initial one on yield these keys and elements. -/
def Yields (protocol : IterationProtocol α) (deque : ObjectDeque α)
    (entries : List (Int × α)) : Prop :=
  ∃ rounds, iterate protocol deque rounds protocol.initialState = .ok entries

section Contents

variable {elementType : α → Bool} {deque : ObjectDeque α} {contents : List α}

theorem forward_yields (represents : Represents elementType deque contents) :
    Yields (forwardIterationProtocol deque) deque (entries 0 contents) := by
  obtain ⟨front, back, elements, first, last⟩ := represents.holds.split
  have whole : deque.representation.elements =
      front ++ ([] ++ (contents ++ back)) := elements
  exact ⟨contents.length + 1, iterate_forward whole first (by simp; omega)
    (by simp [forwardIterationProtocol, first]) (Nat.lt_succ_self _)⟩

/-- The first state of backward iteration is its first key. -/
theorem backward_key_of_yields {key : Int} {element : α} {rest : List (Int × α)}
    (yields : Yields (backwardIterationProtocol deque) deque
      ((key, element) :: rest)) :
    key = deque.representation.lastIndex + 1 := by
  obtain ⟨rounds, run⟩ := yields
  cases rounds with
  | zero => simp [iterate] at run
  | succ rounds =>
      rw [iterate] at run
      split at run
      · simp [pure, Except.pure] at run
      · simp only [bind, Except.bind] at run
        split at run
        · cases run
        · split at run
          · cases run
          · simp only [pure, Except.pure, Except.ok.injEq, List.cons.injEq,
              Prod.mk.injEq] at run
            exact run.1.1.symm

/-- Forward iteration yields the elements under their keys; backward iteration
yields the same in reverse exactly if there are none. -/
theorem iteration_yields_entries_iff
    (represents : Represents elementType deque contents) :
    Yields (forwardIterationProtocol deque) deque (entries 0 contents) ∧
      (Yields (forwardIterationProtocol deque) deque (entries 0 contents) ∧
          Yields (backwardIterationProtocol deque) deque
            (entries 0 contents).reverse ↔
        contents = []) := by
  refine ⟨forward_yields represents, ?_⟩
  rw [and_iff_right (forward_yields represents)]
  obtain ⟨front, back, elements, first, last⟩ := represents.holds.split
  constructor
  · intro yields
    by_contra nonempty
    obtain ⟨earlier, final, rfl⟩ : ∃ earlier final, contents = earlier ++ [final] :=
      ⟨_, _, (List.dropLast_append_getLast nonempty).symm⟩
    rw [entries_concat, List.reverse_append, List.reverse_singleton,
      List.singleton_append] at yields
    have key := backward_key_of_yields yields
    rw [List.length_append, List.length_singleton] at last
    omega
  · rintro rfl
    refine ⟨1, iterate_finished _ ?_⟩
    simp only [backwardIterationProtocol, sequenceFinishedState,
      decide_eq_true_eq]
    simp at last
    omega

end Contents

/-- A deque of one element in the middle of four slots. -/
def middleDeque : ObjectDeque (Option Nat) where
  elementType _ := true
  representation := ⟨2, 2, [none, none, some 7, none]⟩

theorem middleDeque_represents :
    Represents (fun _ => true) middleDeque [some 7] :=
  ⟨rfl, by decide, [none, none], [none], rfl, by decide, by decide⟩

theorem iteration_yields_entries_iff_middle :
    Yields (forwardIterationProtocol middleDeque) middleDeque [(0, some 7)] ∧
      (Yields (forwardIterationProtocol middleDeque) middleDeque
            [(0, some 7)] ∧
          Yields (backwardIterationProtocol middleDeque) middleDeque
            [(0, some 7)] ↔
        [some 7] = []) :=
  iteration_yields_entries_iff middleDeque_represents

/-- The only element is not met, and the slot behind it comes under key 3. -/
theorem backward_yields_slot_behind :
    Represents (fun _ => true) middleDeque [some 7] ∧
      iterate (backwardIterationProtocol middleDeque) middleDeque 2
        (backwardIterationProtocol middleDeque).initialState =
          .ok [(3, none)] ∧
      ¬ Yields (backwardIterationProtocol middleDeque) middleDeque
        [(0, some 7)] := by
  refine ⟨middleDeque_represents, rfl, ?_⟩
  intro yields
  have key := backward_key_of_yields yields
  exact absurd key (by decide)

end Protocols

end OpenDylan.Runtime.Deque
