import OpenDylan.Lib.Pursuit

/-!
# The size of a list

A list is the empty list or a pair, whose tail is any object.  `size` walks
down the pairs two at a time, with a slower walker behind it, so that it also
comes to an end when the pairs lead back to themselves.
-/

namespace OpenDylan.Collections.PairChains

open OpenDylan.Lib.Pursuit

/-! ## Lists -/

/-- What a tail may be. -/
inductive Object (Pair Other : Type) where
  | emptyList
  | pair (pair : Pair)
  | other (object : Other)
deriving DecidableEq

/-- What stops `size`. -/
inductive SizeError where
  /-- `<improper-list-error>` -/
  | improperList
  /-- The object is no `<list>`, so that no method applies. -/
  | notAList
  /-- The tail of the slow pair is no `<pair>`. -/
  | notAPair
deriving DecidableEq

variable {Pair Other : Type} {tail : Pair → Object Pair Other}

section Size

variable [DecidableEq Pair] [DecidableEq Other]

/-- The loop `sum` of `size`; `none` when the fuel runs out. -/
def sum (tail : Pair → Object Pair Other) :
    Nat → Nat → Pair → Pair → Option (Except SizeError (Option Nat))
  | 0, _, _, _ => none
  | fuel + 1, count, fast, slow =>
      if tail fast = .emptyList then
        some (.ok (some (count + 1)))
      else if fast = slow ∧ count > 0 then
        some (.ok none)
      else
        match tail fast with
        | .pair fastTail =>
            match tail fastTail with
            | .emptyList => some (.ok (some (count + 2)))
            | .pair fastTailTail =>
                match tail slow with
                | .pair slowTail =>
                    sum tail fuel (count + 2) fastTailTail slowTail
                | _ => some (.error .notAPair)
            | .other _ => some (.error .improperList)
        | _ => some (.error .improperList)

/-- `size` -/
def size (tail : Pair → Object Pair Other) (fuel : Nat) :
    Object Pair Other → Option (Except SizeError (Option Nat))
  | .emptyList => some (.ok (some 0))
  | .pair list => sum tail fuel 0 list list
  | .other _ => some (.error .notAList)

/-- `size` comes to an end with an answer. -/
def Answers (tail : Pair → Object Pair Other) (list : Object Pair Other)
    (answer : Except SizeError (Option Nat)) : Prop :=
  ∃ fuel, size tail fuel list = some answer

end Size

/-! ## Chains of pairs -/

/-- A number of pairs lead from an object to one that is no pair. -/
inductive Chain (tail : Pair → Object Pair Other) :
    Object Pair Other → Nat → Object Pair Other → Prop where
  | emptyList : Chain tail .emptyList 0 .emptyList
  | other {object} : Chain tail (.other object) 0 (.other object)
  | pair {first count last} (rest : Chain tail (tail first) count last) :
      Chain tail (.pair first) (count + 1) last

/-- The pair that the tail of a pair is. -/
def nextPair (tail : Pair → Object Pair Other) (pair : Pair) : Option Pair :=
  match tail pair with
  | .pair next => some next
  | _ => none

/-- The pairs lead back to one of them. -/
def CyclicChain (tail : Pair → Object Pair Other)
    (list : Object Pair Other) : Prop :=
  ∃ first, list = .pair first ∧ Cyclic (nextPair tail) first

theorem nextPair_eq_some {pair next : Pair} :
    nextPair tail pair = some next ↔ tail pair = .pair next := by
  rw [nextPair]
  cases tail pair <;> simp

/-- A chain has one number of pairs and one end. -/
theorem Chain.unique {list last last' : Object Pair Other} {count count' : Nat}
    (chain : Chain tail list count last)
    (chain' : Chain tail list count' last') :
    count = count' ∧ last = last' := by
  induction chain generalizing count' last' with
  | emptyList =>
      cases chain'
      exact ⟨rfl, rfl⟩
  | other =>
      cases chain'
      exact ⟨rfl, rfl⟩
  | pair rest inductionHypothesis =>
      cases chain' with
      | pair rest' =>
          have same := inductionHypothesis rest'
          exact ⟨congrArg (· + 1) same.1, same.2⟩

/-- After the pairs of a chain there is no other. -/
theorem Chain.ends {first : Pair} {last : Object Pair Other} {count : Nat}
    (chain : Chain tail (.pair first) count last) :
    after (nextPair tail) count first = none := by
  generalize list_eq : Object.pair first = list at chain
  induction chain generalizing first with
  | emptyList => cases list_eq
  | other => cases list_eq
  | @pair pair count last rest inductionHypothesis =>
      cases list_eq
      rw [after, nextPair]
      cases link : tail pair with
      | emptyList => rfl
      | other object => rfl
      | pair next => exact inductionHypothesis link.symm

theorem Chain.not_cyclic {first : Pair} {last : Object Pair Other}
    {count : Nat} (chain : Chain tail (.pair first) count last) :
    ¬Cyclic (nextPair tail) first := by
  intro cyclic
  rcases cyclic.after_some count with ⟨pair, reached⟩
  rw [chain.ends] at reached
  cases reached

/-- A pair with no pair after it ends a chain. -/
theorem chain_of_ends {count : Nat} {first node : Pair}
    (reached : after (nextPair tail) count first = some node)
    (ends : nextPair tail node = none) :
    Chain tail (.pair first) (count + 1) (tail node) := by
  induction count generalizing first with
  | zero =>
      cases reached
      apply Chain.pair
      rw [nextPair] at ends
      cases link : tail node with
      | emptyList => exact Chain.emptyList
      | other object => exact Chain.other
      | pair next =>
          rw [link] at ends
          cases ends
  | succ count inductionHypothesis =>
      rw [after, Option.bind_eq_some_iff] at reached
      rcases reached with ⟨next, link, reached⟩
      apply Chain.pair
      rw [nextPair_eq_some.mp link]
      exact inductionHypothesis reached

/-! ## Walking -/

variable {start fast slow : Pair}

/-- After a number of rounds the slow walker has taken one link a round, and
the fast walker two. -/
structure Walking (tail : Pair → Object Pair Other) (start : Pair)
    (rounds : Nat) (fast slow : Pair) : Prop where
  slow : after (nextPair tail) rounds start = some slow
  fast : after (nextPair tail) (2 * rounds) start = some fast

theorem Walking.zero (start : Pair) : Walking tail start 0 start start :=
  ⟨rfl, rfl⟩

/-- There is a pair for the slow walker as well. -/
theorem Walking.slow_tail {rounds : Nat} {next : Pair}
    (walking : Walking tail start rounds fast slow)
    (fastTail : tail fast = .pair next) :
    ∃ slowTail, tail slow = .pair slowTail := by
  have further : after (nextPair tail) (2 * rounds + 1) start = some next := by
    rw [after_succ walking.fast]
    exact nextPair_eq_some.mpr fastTail
  have below : rounds + 1 ≤ 2 * rounds + 1 := by omega
  rcases after_of_le further below with ⟨slowTail, reached⟩
  rw [after_succ walking.slow] at reached
  exact ⟨slowTail, nextPair_eq_some.mp reached⟩

theorem Walking.step {rounds : Nat} {next fast' slow' : Pair}
    (walking : Walking tail start rounds fast slow)
    (fastTail : tail fast = .pair next) (fastTailTail : tail next = .pair fast')
    (slowTail : tail slow = .pair slow') :
    Walking tail start (rounds + 1) fast' slow' where
  slow := by
    rw [after_succ walking.slow]
    exact nextPair_eq_some.mpr slowTail
  fast := by
    have further : after (nextPair tail) (2 * rounds + 1) start =
        some next := by
      rw [after_succ walking.fast]
      exact nextPair_eq_some.mpr fastTail
    rw [Nat.mul_succ, after_succ further]
    exact nextPair_eq_some.mpr fastTailTail

theorem Walking.cyclic {rounds : Nat}
    (walking : Walking tail start rounds fast slow) (meet : fast = slow)
    (positive : 0 < rounds) : Cyclic (nextPair tail) start := by
  subst meet
  exact cyclic_of_meeting positive walking.slow walking.fast

/-! ## The answers -/

/-- What an answer says about the pairs from the fast walker on. -/
def Right (tail : Pair → Object Pair Other) (start fast : Pair) (count : Nat) :
    Except SizeError (Option Nat) → Prop
  | .ok (some total) =>
      ∃ rest, total = count + rest ∧ Chain tail (.pair fast) rest .emptyList
  | .ok none => Cyclic (nextPair tail) start
  | .error .improperList =>
      ∃ rest object, Chain tail (.pair fast) (rest + 1) (.other object)
  | .error _ => False

theorem Chain.cons {first : Pair} {rest last : Object Pair Other} {count : Nat}
    (link : tail first = rest) (chain : Chain tail rest count last) :
    Chain tail (.pair first) (count + 1) last := by
  subst link
  exact Chain.pair chain

/-- Two pairs more in front of the fast walker. -/
theorem Right.back {next fast' : Pair} {count : Nat}
    {answer : Except SizeError (Option Nat)}
    (fastTail : tail fast = .pair next) (fastTailTail : tail next = .pair fast')
    (right : Right tail start fast' (count + 2) answer) :
    Right tail start fast count answer := by
  cases answer with
  | ok answer =>
      cases answer with
      | none => exact right
      | some total =>
          rcases right with ⟨rest, same, chain⟩
          refine ⟨rest + 2, by omega, ?_⟩
          exact Chain.cons fastTail (Chain.cons fastTailTail chain)
  | error error =>
      cases error with
      | improperList =>
          rcases right with ⟨rest, object, chain⟩
          refine ⟨rest + 2, object, ?_⟩
          exact Chain.cons fastTail (Chain.cons fastTailTail chain)
      | notAList => exact right
      | notAPair => exact right

section Rounds

variable [DecidableEq Pair] [DecidableEq Other]

/-- What a round of the loop does: it answers, and rightly, or it goes on with
the next round. -/
inductive Round (tail : Pair → Object Pair Other) (start : Pair)
    (rounds : Nat) (fast slow : Pair) : Prop where
  | answer (answer : Except SizeError (Option Nat))
      (right : Right tail start fast (2 * rounds) answer)
      (stops : ∀ fuel, sum tail (fuel + 1) (2 * rounds) fast slow =
        some answer)
  | goOn (next fast' slow' : Pair) (fastTail : tail fast = .pair next)
      (fastTailTail : tail next = .pair fast')
      (apart : ¬(fast = slow ∧ 0 < rounds))
      (walking : Walking tail start (rounds + 1) fast' slow')
      (continues : ∀ fuel, sum tail (fuel + 1) (2 * rounds) fast slow =
        sum tail fuel (2 * (rounds + 1)) fast' slow')

theorem Walking.round {rounds : Nat}
    (walking : Walking tail start rounds fast slow) :
    Round tail start rounds fast slow := by
  cases fastTail : tail fast with
  | emptyList =>
      apply Round.answer (.ok (some (2 * rounds + 1)))
      · exact ⟨1, rfl, Chain.cons fastTail Chain.emptyList⟩
      · intro fuel
        rw [sum, if_pos fastTail]
  | other object =>
      have noEnd : tail fast ≠ .emptyList := by simp [fastTail]
      by_cases meet : fast = slow ∧ 2 * rounds > 0
      · apply Round.answer (.ok none)
        · exact walking.cyclic meet.1 (by omega)
        · intro fuel
          rw [sum, if_neg noEnd, if_pos meet]
      · apply Round.answer (.error .improperList)
        · exact ⟨0, object, Chain.cons fastTail Chain.other⟩
        · intro fuel
          rw [sum, if_neg noEnd, if_neg meet]
          simp only [fastTail]
  | pair next =>
      have noEnd : tail fast ≠ .emptyList := by simp [fastTail]
      by_cases meet : fast = slow ∧ 2 * rounds > 0
      · apply Round.answer (.ok none)
        · exact walking.cyclic meet.1 (by omega)
        · intro fuel
          rw [sum, if_neg noEnd, if_pos meet]
      · cases fastTailTail : tail next with
        | emptyList =>
            apply Round.answer (.ok (some (2 * rounds + 2)))
            · exact ⟨2, rfl, Chain.cons fastTail
                (Chain.cons fastTailTail Chain.emptyList)⟩
            · intro fuel
              rw [sum, if_neg noEnd, if_neg meet]
              simp only [fastTail, fastTailTail]
        | other object =>
            apply Round.answer (.error .improperList)
            · exact ⟨1, object, Chain.cons fastTail
                (Chain.cons fastTailTail Chain.other)⟩
            · intro fuel
              rw [sum, if_neg noEnd, if_neg meet]
              simp only [fastTail, fastTailTail]
        | pair fast' =>
            rcases walking.slow_tail fastTail with ⟨slow', slowTail⟩
            apply Round.goOn next fast' slow' fastTail fastTailTail
            · intro both
              exact meet ⟨both.1, by omega⟩
            · exact walking.step fastTail fastTailTail slowTail
            · intro fuel
              rw [sum, if_neg noEnd, if_neg meet]
              simp only [fastTail, fastTailTail, slowTail, Nat.mul_succ]

/-- Whatever the loop answers is right. -/
theorem sum_right {fuel rounds : Nat}
    {answer : Except SizeError (Option Nat)}
    (walking : Walking tail start rounds fast slow)
    (answered : sum tail fuel (2 * rounds) fast slow = some answer) :
    Right tail start fast (2 * rounds) answer := by
  induction fuel generalizing rounds fast slow with
  | zero => cases answered
  | succ fuel inductionHypothesis =>
      cases walking.round with
      | answer other right stops =>
          rw [stops] at answered
          cases answered
          exact right
      | goOn next fast' slow' fastTail fastTailTail _ later continues =>
          rw [continues] at answered
          apply Right.back fastTail fastTailTail
          exact inductionHypothesis later answered

/-! ## Termination -/

/-- The loop comes to an end. -/
def Ends (tail : Pair → Object Pair Other) (count : Nat) (fast slow : Pair) :
    Prop :=
  ∃ fuel answer, sum tail fuel count fast slow = some answer

theorem Ends.of_answer {count : Nat}
    {answer : Except SizeError (Option Nat)}
    (stops : ∀ fuel, sum tail (fuel + 1) count fast slow = some answer) :
    Ends tail count fast slow :=
  ⟨1, answer, stops 0⟩

theorem Ends.of_next {count count' : Nat} {fast' slow' : Pair}
    (later : Ends tail count' fast' slow')
    (continues : ∀ fuel, sum tail (fuel + 1) count fast slow =
      sum tail fuel count' fast' slow') :
    Ends tail count fast slow := by
  rcases later with ⟨fuel, answer, answered⟩
  exact ⟨fuel + 1, answer, (continues fuel).trans answered⟩

/-- In front of the end of a chain there are two pairs less every round. -/
theorem Chain.sum_ends {count rounds : Nat} {last : Object Pair Other}
    (chain : Chain tail (.pair fast) count last)
    (walking : Walking tail start rounds fast slow) :
    Ends tail (2 * rounds) fast slow := by
  induction count using Nat.strongRecOn generalizing rounds fast slow with
  | ind count inductionHypothesis =>
      cases walking.round with
      | answer answer right stops => exact Ends.of_answer stops
      | goOn next fast' slow' fastTail fastTailTail _ later continues =>
          apply Ends.of_next _ continues
          cases chain with
          | pair rest =>
              rw [fastTail] at rest
              cases rest with
              | @pair _ rest' _ rest =>
                  rw [fastTailTail] at rest
                  exact inductionHypothesis rest' (by omega) rest later

/-- The walkers meet after some round, if not before. -/
theorem Walking.sum_ends_of_meeting {rounds left : Nat} {node : Pair}
    (positive : 0 < rounds + left)
    (slowMeets : after (nextPair tail) (rounds + left) start = some node)
    (fastMeets : after (nextPair tail) (2 * (rounds + left)) start =
      some node)
    (walking : Walking tail start rounds fast slow) :
    Ends tail (2 * rounds) fast slow := by
  induction left generalizing rounds fast slow with
  | zero =>
      cases walking.round with
      | answer answer right stops => exact Ends.of_answer stops
      | goOn next fast' slow' fastTail fastTailTail apart later continues =>
          rw [Nat.add_zero, walking.slow] at slowMeets
          rw [Nat.add_zero, walking.fast] at fastMeets
          rw [← slowMeets, Option.some.injEq] at fastMeets
          exact absurd ⟨fastMeets, positive⟩ apart
  | succ left inductionHypothesis =>
      cases walking.round with
      | answer answer right stops => exact Ends.of_answer stops
      | goOn next fast' slow' fastTail fastTailTail _ later continues =>
          apply Ends.of_next _ continues
          rw [← Nat.add_assoc, Nat.add_right_comm] at positive slowMeets
          rw [← Nat.add_assoc, Nat.add_right_comm] at fastMeets
          exact inductionHypothesis positive slowMeets fastMeets later

/-! ## The size -/

theorem size_right {first : Pair} {answer : Except SizeError (Option Nat)}
    (answered : Answers tail (.pair first) answer) :
    Right tail first first 0 answer := by
  rcases answered with ⟨fuel, answered⟩
  exact sum_right (Walking.zero first) answered

theorem Ends.answers {first : Pair} (ends : Ends tail 0 first first) :
    ∃ answer, Answers tail (.pair first) answer := by
  rcases ends with ⟨fuel, answer, answered⟩
  exact ⟨answer, fuel, answered⟩

theorem Chain.answers {list last : Object Pair Other} {count : Nat}
    (chain : Chain tail list count last) :
    ∃ answer, Answers tail list answer := by
  cases chain with
  | emptyList => exact ⟨_, 0, rfl⟩
  | other => exact ⟨_, 0, rfl⟩
  | @pair first count last rest =>
      exact (Chain.sum_ends (Chain.pair rest) (Walking.zero first)).answers

theorem CyclicChain.answers {list : Object Pair Other}
    (cyclic : CyclicChain tail list) : ∃ answer, Answers tail list answer := by
  rcases cyclic with ⟨first, rfl, cyclic⟩
  rcases cyclic.meets with ⟨left, node, positive, slowMeets, fastMeets⟩
  rw [← Nat.zero_add left] at positive slowMeets fastMeets
  exact ((Walking.zero first).sum_ends_of_meeting positive slowMeets
    fastMeets).answers

/-- An answer, a chain and a cycle exclude each other where they differ. -/
theorem Chain.answer_eq {list last : Object Pair Other} {count : Nat}
    {answer : Except SizeError (Option Nat)}
    (chain : Chain tail list count last) (answered : Answers tail list answer) :
    (last = .emptyList → answer = .ok (some count)) ∧
      (∀ object, last = .other object → 0 < count →
        answer = .error .improperList) := by
  cases chain with
  | emptyList =>
      rcases answered with ⟨fuel, answered⟩
      cases answered
      exact ⟨fun _ => rfl, by simp⟩
  | other => exact ⟨by simp, by simp⟩
  | @pair first rest last chain =>
      have whole := Chain.pair chain
      have right := size_right answered
      cases answer with
      | ok answer =>
          cases answer with
          | none => exact absurd right whole.not_cyclic
          | some total =>
              rcases right with ⟨count, same, other⟩
              have unique := whole.unique other
              constructor
              · intro _
                rw [same, ← unique.1, Nat.zero_add]
              · intro object isOther
                rw [unique.2] at isOther
                cases isOther
      | error error =>
          cases error with
          | improperList =>
              rcases right with ⟨count, object, other⟩
              have unique := whole.unique other
              constructor
              · intro isEmpty
                rw [unique.2] at isEmpty
                cases isEmpty
              · intro _ _ _
                rfl
          | notAList => exact right.elim
          | notAPair => exact right.elim

theorem CyclicChain.answer_eq {list : Object Pair Other}
    {answer : Except SizeError (Option Nat)} (cyclic : CyclicChain tail list)
    (answered : Answers tail list answer) : answer = .ok none := by
  rcases cyclic with ⟨first, rfl, cyclic⟩
  have right := size_right answered
  cases answer with
  | ok answer =>
      cases answer with
      | none => rfl
      | some total =>
          rcases right with ⟨count, _, chain⟩
          exact absurd cyclic chain.not_cyclic
  | error error =>
      cases error with
      | improperList =>
          rcases right with ⟨count, object, chain⟩
          exact absurd cyclic chain.not_cyclic
      | notAList => exact right.elim
      | notAPair => exact right.elim

/-- The number of pairs is the answer for a proper list, `#f` for a cyclic
one, an error for an improper one, and for nothing else; every chain of pairs
has an answer, and in a finite memory everything is one of the three. -/
theorem size_answers (tail : Pair → Object Pair Other)
    (list : Object Pair Other) :
    (∀ count, Answers tail list (.ok (some count)) ↔
        Chain tail list count .emptyList) ∧
      (Answers tail list (.ok none) ↔ CyclicChain tail list) ∧
      (Answers tail list (.error .improperList) ↔
        ∃ count object, Chain tail list (count + 1) (.other object)) ∧
      ((∃ count last, Chain tail list count last) ∨ CyclicChain tail list →
        ∃ answer, Answers tail list answer) ∧
      (Finite Pair →
        (∃ count last, Chain tail list count last) ∨
          CyclicChain tail list) := by
  constructor
  · intro count
    constructor
    · intro answered
      cases list with
      | emptyList =>
          rcases answered with ⟨fuel, answered⟩
          cases answered
          exact Chain.emptyList
      | other object =>
          rcases answered with ⟨fuel, answered⟩
          cases answered
      | pair first =>
          rcases size_right answered with ⟨rest, same, chain⟩
          rw [Nat.zero_add] at same
          exact same ▸ chain
    · intro chain
      rcases chain.answers with ⟨answer, answered⟩
      exact (chain.answer_eq answered).1 rfl ▸ answered
  constructor
  · constructor
    · intro answered
      cases list with
      | emptyList =>
          rcases answered with ⟨fuel, answered⟩
          cases answered
      | other object =>
          rcases answered with ⟨fuel, answered⟩
          cases answered
      | pair first => exact ⟨first, rfl, size_right answered⟩
    · intro cyclic
      rcases cyclic.answers with ⟨answer, answered⟩
      exact cyclic.answer_eq answered ▸ answered
  constructor
  · constructor
    · intro answered
      cases list with
      | emptyList =>
          rcases answered with ⟨fuel, answered⟩
          cases answered
      | other object =>
          rcases answered with ⟨fuel, answered⟩
          cases answered
      | pair first => exact size_right answered
    · rintro ⟨count, object, chain⟩
      rcases chain.answers with ⟨answer, answered⟩
      have same := (chain.answer_eq answered).2 object rfl
        (Nat.succ_pos count)
      exact same ▸ answered
  constructor
  · rintro (⟨count, last, chain⟩ | cyclic)
    · exact chain.answers
    · exact cyclic.answers
  · intro finite
    cases list with
    | emptyList => exact Or.inl ⟨0, _, Chain.emptyList⟩
    | other object => exact Or.inl ⟨0, _, Chain.other⟩
    | pair first =>
        rcases ends_or_cyclic (nextPair tail) first with
          ⟨count, node, reached, ends⟩ | cyclic
        · exact Or.inl ⟨count + 1, _, chain_of_ends reached ends⟩
        · exact Or.inr ⟨first, rfl, cyclic⟩

/-- Two pairs on the way to two that lead to each other. -/
theorem size_answers_circle :
    Answers
      (fun pair : Fin 4 =>
        (.pair (if pair = 3 then 2 else pair + 1) : Object (Fin 4) Empty))
      (.pair 0) (.ok none) :=
  (size_answers _ _).2.1.mpr ⟨0, rfl, 2, 2, 2, by decide, rfl, rfl⟩

end Rounds

end OpenDylan.Collections.PairChains
