import OpenDylan.Lib.Splitting
import Mathlib

/-!
# Splitting and joining sequences

`split` cuts a sequence at the occurrences of a separator, and `join` puts
parts together with a separator between them.  The result of `join` is made as
an instance of the class of the first part, with the size that is needed, and
the parts are then put into it one after the other.  That works for vectors,
strings and deques.  A pair that is made so is no list of that size, and a
range is not made without its keywords.
-/

namespace OpenDylan.Collections.SplitJoin

open OpenDylan.Lib.Splitting

/-- What keeps an operation from returning. -/
inductive Failure where
  /-- `start` and `end` are not within the sequence. -/
  | bounds (start last : Nat)
  /-- `element-range-error` -/
  | elementRange (key : Nat)
  /-- A required init keyword is not supplied. -/
  | missingKeyword
  /-- The tail of what is no list. -/
  | noList
  /-- "cannot split on an empty separator" -/
  | emptySeparator (index : Nat)
  /-- The separators that are found do not come to an end. -/
  | unending
deriving DecidableEq

/-- Sequences, as far as their classes are treated differently: the mutable
ones can be made with a size, and the elements of a finite range are
distinct. -/
inductive Sequence (Element : Type) where
  | mutable (elements : List Element)
  | list (elements : List Element)
  | emptyRange
  | finiteRange (elements : List Element) (nonempty : elements ≠ [])
      (distinct : elements.Nodup)
  | constantRange (value : Element) (size : Nat)

variable {Element : Type}

/-- The elements of a sequence. -/
def Sequence.elements : Sequence Element → List Element
  | .mutable elements => elements
  | .list elements => elements
  | .emptyRange => []
  | .finiteRange elements _ _ => elements
  | .constantRange value size => List.replicate size value

/-- `size` -/
def Sequence.size (sequence : Sequence Element) : Nat :=
  sequence.elements.length

/-- `copy-sequence`; of a range, the first element is read, and a constant
range remains one when it has no elements. -/
def copySequence (sequence : Sequence Element) (start last : Nat) :
    Except Failure (Sequence Element) :=
  match sequence with
  | .mutable elements =>
      if start ≤ last ∧ last ≤ elements.length then
        .ok (.mutable (slice elements start last))
      else
        .error (.bounds start last)
  | .list elements =>
      if start ≤ last ∧ last ≤ elements.length then
        .ok (.list (slice elements start last))
      else
        .error (.bounds start last)
  | .emptyRange => .ok .emptyRange
  | .finiteRange elements _ distinct =>
      if start < elements.length then
        if nonempty : slice elements start last = [] then
          .ok .emptyRange
        else
          .ok (.finiteRange (slice elements start last) nonempty
            (distinct.sublist ((List.take_sublist _ _).trans
              (List.drop_sublist _ _))))
      else
        .error (.elementRange start)
  | .constantRange value size =>
      if start < size then
        .ok (.constantRange value (min last size - start))
      else
        .error (.elementRange start)

/-! ## Splitting -/

/-- The loop of `split` with a function that finds the next separator. -/
def splitLoop (seq : Sequence Element)
    (findSeparator : Nat → Nat → Option (Nat × Nat)) (epos count : Nat)
    (removeIfEmpty : Bool) :
    Nat → Nat → List (Sequence Element) → Nat →
      Except Failure (List (Sequence Element))
  | 0, _, _, _ => .error .unending
  | fuel + 1, bpos, parts, nparts =>
      match findSeparator bpos epos with
      | some (sepStart, sepEnd) =>
          if sepEnd ≤ epos then
            if sepStart = sepEnd then
              .error (.emptySeparator sepStart)
            else do
              let part ← copySequence seq bpos sepStart
              if removeIfEmpty ∧ part.elements = [] then
                splitLoop seq findSeparator epos count removeIfEmpty fuel
                  sepEnd parts nparts
              else if nparts < count then
                splitLoop seq findSeparator epos count removeIfEmpty fuel
                  sepEnd (part :: parts) (nparts + 1)
              else
                let rest ← copySequence seq bpos epos
                return rest :: parts
          else do
            let part ← copySequence seq bpos epos
            return if removeIfEmpty ∧ part.elements = [] then parts
              else part :: parts
      | none => do
          let part ← copySequence seq bpos epos
          return if removeIfEmpty ∧ part.elements = [] then parts
            else part :: parts

/-- `split` with a function that finds the next separator. -/
def splitByFunction (seq : Sequence Element)
    (findSeparator : Nat → Nat → Option (Nat × Nat))
    (start last count : Option Nat) (removeIfEmpty : Bool) :
    Except Failure (List (Sequence Element)) := do
  let epos := last.getD seq.size
  let count := count.getD (epos + 1)
  let parts ← splitLoop seq findSeparator epos count removeIfEmpty
    (epos + 1) (start.getD 0) [] 1
  return parts.reverse

/-- `looking-at?`, for the elements of the pattern that are left. -/
def lookingAt (test : Element → Element → Bool) (big : List Element) :
    List Element → Nat → Bool
  | [], _ => true
  | element :: pattern, bpos =>
      match big[bpos]? with
      | none => false
      | some other =>
          if ¬ test element other then false
          else lookingAt test big pattern (bpos + 1)

/-- The loop of `find-separator`, which is over when the index has passed the
end. -/
def findLoop (test : Element → Element → Bool)
    (seq separator : List Element) (epos : Nat) :
    Nat → Nat → Option (Nat × Nat)
  | 0, _ => none
  | fuel + 1, seqIndex =>
      if (seqIndex : Int) ≤ (epos : Int) - separator.length then
        if lookingAt test seq separator seqIndex then
          some (seqIndex, seqIndex + separator.length)
        else
          findLoop test seq separator epos fuel (seqIndex + 1)
      else
        none

/-- `find-separator` -/
def findSeparator (test : Element → Element → Bool)
    (seq separator : List Element) (bpos epos : Nat) : Option (Nat × Nat) :=
  findLoop test seq separator epos (epos + 1 - bpos) bpos

/-- `split` with a separator sequence. -/
def split (seq separator : Sequence Element)
    (start last count : Option Nat) (test : Element → Element → Bool)
    (removeIfEmpty : Bool) : Except Failure (List (Sequence Element)) :=
  splitByFunction seq (findSeparator test seq.elements separator.elements)
    start last count removeIfEmpty

/-! ## Joining -/

/-- What parts are put into: a sequence, or pairs of which the last one has
`#f` for its tail. -/
inductive Target (Element : Type) where
  | sequence (sequence : Sequence Element)
  | improper (elements : List Element)

/-- `make` of the class of a sequence, with a size. -/
def makeLike (fill : Element) (first : Sequence Element) (size : Nat) :
    Except Failure (Target Element) :=
  match first with
  | .mutable _ => .ok (.sequence (.mutable (List.replicate size fill)))
  | .list [] => .ok (.sequence (.list []))
  | .list (_ :: _) => .ok (.improper [fill])
  | .emptyRange => .ok (.sequence .emptyRange)
  | .finiteRange _ _ _ => .error .missingKeyword
  | .constantRange _ _ => .error .missingKeyword

/-- A number of tails; the empty list has itself for its tail. -/
def tails (proper : Bool) : Nat → List Element →
    Except Failure (List Element)
  | 0, elements => .ok elements
  | count + 1, [] =>
      if proper then tails proper count [] else .error .noList
  | count + 1, _ :: elements => tails proper count elements

/-- The elements of `replace-subsequence!` of a list. -/
def replaceInList (proper : Bool) (target insert : List Element)
    (start last : Nat) : Except Failure (List Element) :=
  if start ≤ target.length then do
    let afterHole ← tails proper (last - start) (target.drop start)
    return target.take start ++ insert ++ afterHole
  else
    .error .noList

/-- `replace-subsequence!` -/
def replaceSubsequence (target : Target Element) (insert : List Element)
    (start last : Nat) : Except Failure (Target Element) :=
  match target with
  | .improper elements => do
      let elements ← replaceInList false elements insert start last
      return .improper elements
  | .sequence (.list elements) => do
      let elements ← replaceInList true elements insert start last
      return .sequence (.list elements)
  | .sequence (.mutable elements) =>
      if start ≤ last ∧ last ≤ elements.length then
        .ok (.sequence (.mutable
          (elements.take start ++ insert ++ elements.drop last)))
      else
        .error (.bounds start last)
  | .sequence range =>
      if start ≤ last ∧ last ≤ range.size then do
        let front ← copySequence range 0 start
        let back ← copySequence range last range.size
        return .sequence (.list (front.elements ++ insert ++ back.elements))
      else
        .error (.bounds start last)

/-- `copy-to-result`, with the result and the index in it. -/
def copyToResult (state : Target Element × Nat) (seq : Sequence Element) :
    Except Failure (Target Element × Nat) := do
  let result ← replaceSubsequence state.1 seq.elements state.2
    (state.2 + seq.size)
  return (result, state.2 + seq.size)

/-- The loop of `join`, for the sequences that are left. -/
def joinLoop (separator : Sequence Element)
    (conjunction : Option (Sequence Element)) :
    List (Sequence Element) → Target Element × Nat →
      Except Failure (Target Element × Nat)
  | [], state => .ok state
  | seq :: rest, state => do
      let between := if rest = [] then conjunction.getD separator
        else separator
      let state ← copyToResult state between
      let state ← copyToResult state seq
      joinLoop separator conjunction rest state

/-- An empty sequence of type `type-for-copy` of another one. -/
def emptyLike : Sequence Element → Sequence Element
  | .mutable _ => .mutable []
  | _ => .list []

/-- `join`; `fill` is what a new sequence is filled with. -/
def join (fill : Element) (sequences : List (Sequence Element))
    (separator : Sequence Element)
    (key : Option (Sequence Element → Sequence Element))
    (conjunction : Option (Sequence Element)) :
    Except Failure (Target Element) :=
  let sequences := match key with
    | some key => sequences.map key
    | none => sequences
  match sequences with
  | [] => .ok (.sequence (emptyLike separator))
  | [only] => .ok (.sequence only)
  | first :: rest => do
      let resultSize : Int :=
        ((first :: rest).map Sequence.size).sum +
          (separator.size * rest.length : Nat) +
          match conjunction with
          | some conjunction => (conjunction.size : Int) - separator.size
          | none => 0
      let result ← makeLike fill first resultSize.toNat
      let state ← copyToResult (result, 0) first
      let state ← joinLoop separator conjunction rest state
      return state.1

/-! ## Copies -/

theorem ok_bind {Value Result : Type} (value : Value)
    (next : Value → Except Failure Result) :
    (Except.ok value >>= next) = next value :=
  rfl

/-- An element is read when a part of a range is copied. -/
def Sequence.Readable (sequence : Sequence Element) (start : Nat) : Prop :=
  match sequence with
  | .finiteRange elements _ _ => start < elements.length
  | .constantRange _ size => start < size
  | _ => True

/-- A copy has the elements between its ends. -/
theorem copySequence_elements {sequence part : Sequence Element}
    {start last : Nat} (le : start ≤ last) (inside : last ≤ sequence.size)
    (copied : copySequence sequence start last = .ok part) :
    part.elements = slice sequence.elements start last := by
  cases sequence with
  | mutable elements =>
      rw [copySequence, if_pos ⟨le, inside⟩] at copied
      cases copied
      rfl
  | list elements =>
      rw [copySequence, if_pos ⟨le, inside⟩] at copied
      cases copied
      rfl
  | emptyRange =>
      cases copied
      simp [Sequence.elements, slice]
  | finiteRange elements nonempty distinct =>
      rw [copySequence] at copied
      split_ifs at copied with readable empty
      · cases copied
        exact empty.symm
      · cases copied
        rfl
  | constantRange value size =>
      rw [copySequence] at copied
      split_ifs at copied with readable
      cases copied
      simp only [Sequence.size, Sequence.elements, List.length_replicate]
        at inside
      rw [Sequence.elements, Sequence.elements, slice, List.drop_replicate,
        List.take_replicate, min_eq_left inside,
        min_eq_left (Nat.sub_le_sub_right inside start)]

/-- What is within a sequence can be copied, if it is readable. -/
theorem exists_copy_iff {sequence : Sequence Element} {start last : Nat}
    (le : start ≤ last) (inside : last ≤ sequence.size) :
    (∃ part, copySequence sequence start last = .ok part) ↔
      sequence.Readable start := by
  cases sequence with
  | mutable elements =>
      rw [copySequence, if_pos ⟨le, inside⟩]
      exact iff_of_true ⟨_, rfl⟩ trivial
  | list elements =>
      rw [copySequence, if_pos ⟨le, inside⟩]
      exact iff_of_true ⟨_, rfl⟩ trivial
  | emptyRange => exact iff_of_true ⟨_, rfl⟩ trivial
  | finiteRange elements nonempty distinct =>
      rw [copySequence, Sequence.Readable]
      split_ifs with readable empty
      · exact iff_of_true ⟨_, rfl⟩ readable
      · exact iff_of_true ⟨_, rfl⟩ readable
      · exact iff_of_false (by rintro ⟨_, copied⟩; cases copied) readable
  | constantRange value size =>
      rw [copySequence, Sequence.Readable]
      split_ifs with readable
      · exact iff_of_true ⟨_, rfl⟩ readable
      · exact iff_of_false (by rintro ⟨_, copied⟩; cases copied) readable

/-- Where an element is, a part can be copied from. -/
theorem readable_of_lt {sequence : Sequence Element} {start : Nat}
    (inside : start < sequence.size) : sequence.Readable start := by
  cases sequence with
  | finiteRange elements nonempty distinct => exact inside
  | constantRange value size =>
      rwa [Sequence.size, Sequence.elements, List.length_replicate] at inside
  | _ => trivial

/-! ## The parts of a sequence -/

section Parts

variable [DecidableEq Element]

/-- The test `==`. -/
def same (one other : Element) : Bool := one = other

theorem lookingAt_iff (big pattern : List Element) (bpos : Nat) :
    lookingAt same big pattern bpos = true ↔ Occurs pattern big bpos := by
  induction pattern generalizing bpos with
  | nil => simp [lookingAt, Occurs]
  | cons element pattern ih =>
      rw [lookingAt]
      cases read : big[bpos]? with
      | none =>
          have beyond : big.drop bpos = [] :=
            List.drop_eq_nil_iff.mpr (List.getElem?_eq_none_iff.mp read)
          simp [Occurs, beyond]
      | some other =>
          obtain ⟨inside, rfl⟩ := List.getElem?_eq_some_iff.mp read
          rw [Occurs, List.drop_eq_getElem_cons inside, List.cons_prefix_cons]
          by_cases equal : element = big[bpos]
          · rw [← Occurs, ← ih]
            simp [same, equal]
          · simp [same, equal]

/-- What the search finds is the first occurrence. -/
theorem findLoop_eq (seq separator : List Element) (epos fuel bpos : Nat)
    (enough : epos < fuel + bpos) :
    (∃ place, bpos ≤ place ∧ place + separator.length ≤ epos ∧
        Occurs separator seq place ∧
        (∀ earlier, bpos ≤ earlier → earlier < place →
          ¬ Occurs separator seq earlier) ∧
        findLoop same seq separator epos fuel bpos =
          some (place, place + separator.length)) ∨
    ((∀ place, bpos ≤ place → place + separator.length ≤ epos →
        ¬ Occurs separator seq place) ∧
      findLoop same seq separator epos fuel bpos = none) := by
  induction fuel generalizing bpos with
  | zero =>
      refine Or.inr ⟨fun place after before => ?_, rfl⟩
      omega
  | succ fuel ih =>
      rw [findLoop]
      by_cases room : (bpos : Int) ≤ (epos : Int) - separator.length
      · rw [if_pos room]
        by_cases here : Occurs separator seq bpos
        · rw [if_pos ((lookingAt_iff _ _ _).mpr here)]
          refine Or.inl ⟨bpos, le_rfl, by omega, here, ?_, rfl⟩
          intro earlier after before
          omega
        · rw [if_neg (mt (lookingAt_iff _ _ _).mp here)]
          have later : ∀ place, bpos ≤ place → Occurs separator seq place →
              bpos + 1 ≤ place := by
            intro place after occurs
            rcases Nat.eq_or_lt_of_le after with rfl | after
            · exact absurd occurs here
            · exact after
          rcases ih (bpos + 1) (by omega) with
            ⟨place, after, before, occurs, first, found⟩ | ⟨missing, found⟩
          · refine Or.inl ⟨place, by omega, before, occurs, ?_, found⟩
            intro earlier atLeast below occursEarlier
            exact first earlier (later earlier atLeast occursEarlier) below
              occursEarlier
          · refine Or.inr ⟨fun place after before occurs => ?_, found⟩
            exact missing place (later place after occurs) before occurs
      · rw [if_neg room]
        refine Or.inr ⟨fun place after before => ?_, rfl⟩
        omega

/-- The copies of the pieces of a sequence. -/
def copies (seq : Sequence Element) (cuts : List (Nat × Nat)) :
    Except Failure (List (Sequence Element)) :=
  cuts.mapM fun cut => copySequence seq cut.1 cut.2

omit [DecidableEq Element] in
theorem copies_cons (seq : Sequence Element) (cut : Nat × Nat)
    (cuts : List (Nat × Nat)) :
    copies seq (cut :: cuts) = (do
      let part ← copySequence seq cut.1 cut.2
      let parts ← copies seq cuts
      return part :: parts) := by
  rw [copies, List.mapM_cons]
  rfl

/-- The loop copies the pieces of the sequence. -/
theorem splitLoop_eq (seq separator : Sequence Element) (epos count : Nat)
    (nonempty : separator.elements ≠ []) (inside : epos ≤ seq.size)
    (fuel bpos : Nat) (parts : List (Sequence Element)) (nparts : Nat)
    (le : bpos ≤ epos) (enough : epos < fuel + bpos)
    (allowed : nparts ≤ count) :
    ∃ cuts, Cuts separator.elements seq.elements epos (count + 1 - nparts)
        bpos cuts ∧
      splitLoop seq (findSeparator same seq.elements separator.elements) epos
          count false fuel bpos parts nparts =
        (do
          let new ← copies seq cuts
          return new.reverse ++ parts) := by
  have length : 0 < separator.elements.length :=
    List.length_pos_iff.mpr nonempty
  induction fuel generalizing bpos parts nparts with
  | zero => omega
  | succ fuel ih =>
      have search := findLoop_eq seq.elements separator.elements epos
        (epos + 1 - bpos) bpos (by omega)
      rw [splitLoop]
      rcases search with
        ⟨place, after, before, occurs, first, found⟩ | ⟨missing, found⟩
      · rw [findSeparator, found]
        dsimp only
        rw [if_pos before, if_neg (by omega)]
        obtain ⟨part, copied⟩ := (exists_copy_iff after (by omega)).mpr
          (@readable_of_lt _ seq bpos (by omega))
        rw [copied, ok_bind, if_neg (by simp)]
        by_cases more : nparts < count
        · obtain ⟨cuts, made, loops⟩ := ih
            (place + separator.elements.length) (part :: parts) (nparts + 1)
            before (by omega) more
          refine ⟨(bpos, place) :: cuts, ?_, ?_⟩
          · have limit : count + 1 - nparts =
                (count + 1 - (nparts + 1)) + 1 := by omega
            rw [limit]
            exact .next (by omega) after before occurs first made
          · rw [if_pos more, loops, copies_cons, copied, ok_bind]
            cases copies seq cuts with
            | error failure => rfl
            | ok new =>
                simp only [ok_bind]
                change Except.ok _ = Except.ok _
                simp
        · refine ⟨[(bpos, epos)], ?_, ?_⟩
          · have limit : count + 1 - nparts = 1 := by omega
            rw [limit]
            exact .limited
          · rw [if_neg more, copies_cons]
            cases copySequence seq bpos epos with
            | error failure => rfl
            | ok rest => rfl
      · rw [findSeparator, found]
        dsimp only
        refine ⟨[(bpos, epos)], .last missing, ?_⟩
        rw [copies_cons]
        cases copySequence seq bpos epos with
        | error failure => rfl
        | ok rest => rfl

end Parts

/-! ## Putting parts together -/

/-- A target has some elements, and room for so many more. -/
inductive Takes : Target Element → List Element → Nat → Prop where
  | mutable {written room} (junk : List Element)
      (length : junk.length = room) :
      Takes (.sequence (.mutable (written ++ junk))) written room
  | list {written room} : Takes (.sequence (.list written)) written room

/-- A sequence is put behind what is there. -/
theorem copyToResult_takes {target : Target Element} {written : List Element}
    {room : Nat} (takes : Takes target written room)
    (seq : Sequence Element) (enough : seq.size ≤ room) :
    ∃ target', copyToResult (target, written.length) seq =
        .ok (target', (written ++ seq.elements).length) ∧
      Takes target' (written ++ seq.elements) (room - seq.size) := by
  rw [List.length_append]
  cases takes with
  | mutable junk length =>
      refine ⟨.sequence (.mutable
        (written ++ seq.elements ++ junk.drop seq.size)), ?_, ?_⟩
      · rw [copyToResult, replaceSubsequence]
        dsimp only
        rw [if_pos ⟨Nat.le_add_right _ _, by
          rw [List.length_append, length]; omega⟩, ok_bind, List.take_left,
          List.drop_append, List.drop_eq_nil_of_le (Nat.le_add_right _ _),
          Nat.add_sub_cancel_left]
        rfl
      · exact .mutable _ (by rw [List.length_drop, length])
  | list =>
      refine ⟨.sequence (.list (written ++ seq.elements)), ?_, .list⟩
      have stays : ∀ count, tails true count ([] : List Element) = .ok [] := by
        intro count
        induction count with
        | zero => rfl
        | succ count ih => exact ih
      rw [copyToResult, replaceSubsequence]
      dsimp only
      rw [replaceInList, if_pos le_rfl, List.drop_length, stays, ok_bind]
      simp only [List.take_length, List.append_nil]
      rfl

/-- The room that is needed for the sequences that are left. -/
def roomFor (separator : Sequence Element) (rest : List (Sequence Element)) :
    Nat :=
  (rest.map fun part => separator.size + part.size).sum

theorem roomFor_cons (separator part : Sequence Element)
    (rest : List (Sequence Element)) :
    roomFor separator (part :: rest) =
      separator.size + part.size + roomFor separator rest := by
  simp [roomFor]

theorem roomFor_eq (separator : Sequence Element)
    (rest : List (Sequence Element)) :
    roomFor separator rest =
      (rest.map Sequence.size).sum + separator.size * rest.length := by
  induction rest with
  | nil => rfl
  | cons part rest ih =>
      rw [roomFor_cons, ih, List.map_cons, List.sum_cons, List.length_cons,
        Nat.mul_succ]
      omega

/-- The sequences that are left are put behind what is there, each behind a
separator. -/
theorem joinLoop_takes (separator : Sequence Element)
    (rest : List (Sequence Element)) {target : Target Element}
    {written : List Element} {room : Nat}
    (takes : Takes target written room)
    (enough : roomFor separator rest ≤ room) :
    ∃ target' index,
      joinLoop separator none rest (target, written.length) =
        .ok (target', index) ∧
      Takes target' (written ++ (rest.map Sequence.elements).flatMap
        (separator.elements ++ ·)) (room - roomFor separator rest) := by
  induction rest generalizing target written room with
  | nil => exact ⟨target, written.length, rfl, by simpa [roomFor] using takes⟩
  | cons part rest ih =>
      rw [roomFor_cons] at enough
      obtain ⟨between, put, takes⟩ :=
        copyToResult_takes takes separator (by omega)
      obtain ⟨after, putPart, takes⟩ :=
        copyToResult_takes takes part (by omega)
      obtain ⟨target', index, loops, takes⟩ := ih takes (by omega)
      refine ⟨target', index, ?_, ?_⟩
      · have same : (if rest = [] then
            (none : Option (Sequence Element)).getD separator
          else separator) = separator := by simp
        rw [joinLoop, same, put, ok_bind, putPart, ok_bind]
        exact loops
      · have left : room - roomFor separator (part :: rest) =
            room - separator.size - part.size - roomFor separator rest := by
          rw [roomFor_cons]
          omega
        rw [left]
        simpa [List.append_assoc] using takes

/-- A target without more room is the sequence of its elements. -/
theorem Takes.finished {target : Target Element} {written : List Element}
    (takes : Takes target written 0) :
    ∃ result, target = .sequence result ∧ result.elements = written := by
  cases takes with
  | mutable junk length =>
      obtain rfl := List.length_eq_zero_iff.mp length
      exact ⟨_, rfl, List.append_nil written⟩
  | list => exact ⟨_, rfl, rfl⟩

/-- Several parts are put into a new sequence. -/
theorem join_several (fill : Element)
    (separator first second : Sequence Element)
    (rest : List (Sequence Element)) :
    join fill (first :: second :: rest) separator none none = (do
      let result ← makeLike fill first
        ((((first :: second :: rest).map Sequence.size).sum : Nat) +
          ((separator.size * (second :: rest).length : Nat) : Int) + 0).toNat
      let state ← copyToResult (result, 0) first
      let state ← joinLoop separator none (second :: rest) state
      return state.1) :=
  rfl

/-- Several parts are joined, if the class of the first one can be made. -/
theorem join_eq (fill : Element) (separator : Sequence Element)
    {first second : Sequence Element} {rest : List (Sequence Element)}
    (makes : (∃ elements, first = .mutable elements) ∨
      first = .list [] ∨ first = .emptyRange) :
    ∃ result, join fill (first :: second :: rest) separator none none =
        .ok (.sequence result) ∧
      result.elements = joined separator.elements
        ((first :: second :: rest).map Sequence.elements) := by
  have size : ((((first :: second :: rest).map Sequence.size).sum : Nat) +
      ((separator.size * (second :: rest).length : Nat) : Int) + 0).toNat =
        first.size + roomFor separator (second :: rest) := by
    rw [roomFor_eq, List.map_cons, List.sum_cons]
    omega
  obtain ⟨target, made, put⟩ : ∃ target, makeLike fill first
      (first.size + roomFor separator (second :: rest)) = .ok target ∧
      ∃ target', copyToResult (target, 0) first =
          .ok (target', first.elements.length) ∧
        Takes target' first.elements (roomFor separator (second :: rest)) := by
    rcases makes with ⟨elements, rfl⟩ | rfl | rfl
    · refine ⟨_, rfl, ?_⟩
      obtain ⟨target', put, takes⟩ := @copyToResult_takes Element _ [] _
        (.mutable (List.replicate _ fill) List.length_replicate)
        (.mutable elements) (Nat.le_add_right _
          (roomFor separator (second :: rest)))
      rw [Nat.add_sub_cancel_left] at takes
      exact ⟨target', put, takes⟩
    · exact ⟨_, rfl, _, rfl, .list⟩
    · exact ⟨_, rfl, _, rfl, .list⟩
  obtain ⟨target', put, takes⟩ := put
  obtain ⟨last, index, loops, takes⟩ :=
    joinLoop_takes separator (second :: rest) takes le_rfl
  rw [Nat.sub_self] at takes
  obtain ⟨result, rfl, elements⟩ := takes.finished
  refine ⟨result, ?_, elements⟩
  rw [join_several, size, made, ok_bind, put, ok_bind, loops]
  rfl

/-- The tails of pairs come to one that is no list. -/
theorem tails_improper {count : Nat} {elements : List Element}
    (beyond : elements.length < count) :
    tails false count elements = .error .noList := by
  induction count generalizing elements with
  | zero => omega
  | succ count ih =>
      cases elements with
      | nil => rfl
      | cons element elements =>
          exact ih (by rw [List.length_cons] at beyond; omega)

/-- A pair that is made with a size does not take two sequences. -/
theorem join_pair (fill : Element) {separator second : Sequence Element}
    {rest : List (Sequence Element)} (value : Element)
    (values : List Element) (nonempty : separator.elements ≠ []) :
    join fill (.list (value :: values) :: second :: rest) separator none
      none = .error .noList := by
  have several : 0 < separator.size := List.length_pos_iff.mpr nonempty
  rw [join_several, makeLike, ok_bind]
  cases values with
  | nil =>
      have put : copyToResult (.improper [fill], 0) (.list [value]) =
          .ok (.improper [value], 1) := rfl
      have beyond : tails false (1 + separator.size - 1)
          ([] : List Element) = .error .noList :=
        tails_improper (by rw [List.length_nil]; omega)
      have stops : copyToResult (.improper [value], 1) separator =
          .error .noList := by
        rw [copyToResult, replaceSubsequence]
        change ((replaceInList false [value] separator.elements 1
          (1 + separator.size) >>= _) >>= _) = _
        rw [replaceInList, if_pos (by simp)]
        change (((tails false (1 + separator.size - 1) [] >>= _) >>= _) >>= _)
          = _
        rw [beyond]
        rfl
      have same : (if rest = [] then
          (none : Option (Sequence Element)).getD separator
        else separator) = separator := by simp
      have loops : joinLoop separator none (second :: rest)
          (.improper [value], 1) = .error .noList := by
        rw [joinLoop, same, stops]
        rfl
      rw [put, ok_bind, loops]
      rfl
  | cons other values =>
      have beyond : tails false (0 + (values.length + 1 + 1) - 0) [fill] =
          .error .noList :=
        tails_improper (by rw [List.length_singleton]; omega)
      have stops : copyToResult (.improper [fill], 0)
          (.list (value :: other :: values)) = .error .noList := by
        rw [copyToResult, replaceSubsequence]
        change (((tails false (0 + (values.length + 1 + 1) - 0) [fill] >>= _)
          >>= _) >>= _) = _
        rw [beyond]
        rfl
      rw [stops]
      rfl

/-! ## Splitting and joining -/

section RoundTrip

variable [DecidableEq Element]

omit [DecidableEq Element] in
/-- The copies of pieces have their elements. -/
theorem copies_elements {seq : Sequence Element} {cuts : List (Nat × Nat)}
    {parts : List (Sequence Element)}
    (within : ∀ cut ∈ cuts, cut.1 ≤ cut.2 ∧ cut.2 ≤ seq.size)
    (copied : copies seq cuts = .ok parts) :
    parts.map Sequence.elements = pieces seq.elements cuts := by
  induction cuts generalizing parts with
  | nil =>
      cases copied
      rfl
  | cons cut cuts ih =>
      rw [copies_cons] at copied
      cases first : copySequence seq cut.1 cut.2 with
      | error failure => rw [first] at copied; cases copied
      | ok part =>
          cases others : copies seq cuts with
          | error failure => rw [first, others] at copied; cases copied
          | ok rest =>
              rw [first, others] at copied
              cases copied
              have inside := within cut (by simp)
              rw [List.map_cons, ih (fun other member =>
                within other (by simp [member])) others,
                copySequence_elements inside.1 inside.2 first]
              rfl

omit [DecidableEq Element] in
/-- Pieces can be copied, if each of them is readable. -/
theorem exists_copies_iff {seq : Sequence Element} {cuts : List (Nat × Nat)}
    (within : ∀ cut ∈ cuts, cut.1 ≤ cut.2 ∧ cut.2 ≤ seq.size) :
    (∃ parts, copies seq cuts = .ok parts) ↔
      ∀ cut ∈ cuts, seq.Readable cut.1 := by
  induction cuts with
  | nil => exact iff_of_true ⟨[], rfl⟩ (by simp)
  | cons cut cuts ih =>
      have inside := within cut (by simp)
      have rest := ih fun other member => within other (by simp [member])
      rw [List.forall_mem_cons, ← rest, ← exists_copy_iff inside.1 inside.2,
        copies_cons]
      constructor
      · rintro ⟨parts, copied⟩
        cases first : copySequence seq cut.1 cut.2 with
        | error failure => rw [first] at copied; cases copied
        | ok part =>
            cases others : copies seq cuts with
            | error failure => rw [first, others] at copied; cases copied
            | ok rest => exact ⟨⟨part, rfl⟩, rest, rfl⟩
      · rintro ⟨⟨part, first⟩, rest, others⟩
        exact ⟨part :: rest, by rw [first, others]; rfl⟩

/-- What is split and joined again gives back what is between the ends; there
are no more parts than may be, and no part has the separator in it, if there
may be any number. -/
def JoinsBack (fill : Element) (seq separator : Sequence Element)
    (start last : Nat) (count : Option Nat) : Prop :=
  ∃ parts joined copied,
    split seq separator (some start) (some last) count same false =
        .ok parts ∧
      join fill parts separator none none = .ok (.sequence joined) ∧
      copySequence seq start last = .ok copied ∧
      joined.elements = copied.elements ∧
      (∀ number, count = some number → parts.length ≤ number) ∧
      (count = none →
        ∀ part ∈ parts, ¬ separator.elements <:+: part.elements)

/-- The separator is at the start. -/
def AtStart (seq separator : Sequence Element) (start last : Nat) : Prop :=
  start + separator.size ≤ last ∧
    Occurs separator.elements seq.elements start

/-- There is nothing to cut. -/
def Whole (seq separator : Sequence Element) (start last : Nat)
    (count : Option Nat) : Prop :=
  count = some 1 ∨ ∀ place, start ≤ place → place + separator.size ≤ last →
    ¬ Occurs separator.elements seq.elements place

/-- When parts of a sequence can be copied and joined: always for a mutable
sequence; for a list, if there is one part or the first part is empty; for a
range, if moreover every part starts before its end. -/
def Joinable (seq separator : Sequence Element) (start last : Nat)
    (count : Option Nat) : Prop :=
  match seq with
  | .mutable _ => True
  | .list _ => Whole seq separator start last count ∨
      AtStart seq separator start last
  | .emptyRange => True
  | .finiteRange elements _ _ => start < elements.length ∧
      (Whole seq separator start last count ∨
        (AtStart seq separator start last ∧
          start + separator.size < elements.length))
  | .constantRange _ size => start < size ∧
      Whole seq separator start last count

/-- The parts of a sequence. -/
theorem split_eq {seq separator : Sequence Element} {start last : Nat}
    {count : Option Nat} (le : start ≤ last) (inside : last ≤ seq.size)
    (positive : ∀ number, count = some number → 0 < number)
    (nonempty : separator.elements ≠ []) :
    ∃ cuts, Cuts separator.elements seq.elements last
        (count.getD (last + 1)) start cuts ∧
      split seq separator (some start) (some last) count same false =
        copies seq cuts := by
  have allowed : 1 ≤ count.getD (last + 1) := by
    cases count with
    | none => exact Nat.le_add_left 1 last
    | some number => exact positive number rfl
  obtain ⟨cuts, made, loops⟩ := splitLoop_eq seq separator last
    (count.getD (last + 1)) nonempty inside (last + 1) start [] 1 le
    (by omega) allowed
  refine ⟨cuts, made, ?_⟩
  rw [split, splitByFunction]
  change (splitLoop seq (findSeparator same seq.elements separator.elements)
    last (count.getD (last + 1)) false (last + 1) start [] 1 >>= _) = _
  rw [loops]
  cases copies seq cuts with
  | error failure => rfl
  | ok new =>
      simp only [ok_bind, List.append_nil]
      change Except.ok new.reverse.reverse = _
      rw [List.reverse_reverse]

/-- One part is the copy of what is between the ends. -/
theorem joinsBack_of_whole (fill : Element)
    {seq separator : Sequence Element} {start last : Nat}
    {count : Option Nat} (le : start ≤ last) (inside : last ≤ seq.size)
    (positive : ∀ number, count = some number → 0 < number)
    (nonempty : separator.elements ≠ [])
    (whole : Whole seq separator start last count) :
    JoinsBack fill seq separator start last count ↔ seq.Readable start := by
  have length : 0 < separator.elements.length :=
    List.length_pos_iff.mpr nonempty
  obtain ⟨cuts, made, splits⟩ := split_eq le inside positive nonempty
  have single : cuts.length = 1 := by
    rw [made.single_iff]
    rcases whole with one | none
    · exact Or.inl (by rw [one]; rfl)
    · exact Or.inr none
  obtain rfl := made.eq_of_single single
  rw [← exists_copy_iff le inside]
  constructor
  · rintro ⟨_, _, copied, _, _, copies, _⟩
    exact ⟨copied, copies⟩
  · rintro ⟨part, copied⟩
    refine ⟨[part], part, part, ?_, rfl, copied, rfl, ?_, ?_⟩
    · rw [splits, copies_cons, copied]
      rfl
    · exact fun number isCount => positive number isCount
    · rintro rfl one member
      obtain rfl := List.mem_singleton.mp member
      rw [copySequence_elements le inside copied]
      exact made.no_infix inside nonempty le (by simp; omega) _
        (by simp [pieces])

omit [DecidableEq Element] in
/-- The copies of several pieces. -/
theorem exists_parts {seq : Sequence Element} {cut : Nat × Nat}
    {cuts : List (Nat × Nat)} {parts : List (Sequence Element)}
    (more : cuts ≠ []) (copied : copies seq (cut :: cuts) = .ok parts) :
    ∃ first second rest, parts = first :: second :: rest ∧
      copySequence seq cut.1 cut.2 = .ok first := by
  obtain ⟨next, cuts, rfl⟩ := List.exists_cons_of_ne_nil more
  rw [copies_cons, copies_cons] at copied
  cases first : copySequence seq cut.1 cut.2 with
  | error failure => rw [first] at copied; cases copied
  | ok part =>
      cases second : copySequence seq next.1 next.2 with
      | error failure => rw [first, second] at copied; cases copied
      | ok nextPart =>
          cases others : copies seq cuts with
          | error failure => rw [first, second, others] at copied; cases copied
          | ok rest =>
              rw [first, second, others] at copied
              cases copied
              exact ⟨part, nextPart, rest, rfl, rfl⟩

omit [DecidableEq Element] in
/-- Several parts are joined only if the class of the first one can be
made. -/
theorem makes_of_join {fill : Element}
    {separator first second : Sequence Element}
    {rest : List (Sequence Element)} {result : Target Element}
    (nonempty : separator.elements ≠ [])
    (joins : join fill (first :: second :: rest) separator none none =
      .ok result) :
    (∃ elements, first = .mutable elements) ∨ first = .list [] ∨
      first = .emptyRange := by
  cases first with
  | mutable elements => exact Or.inl ⟨elements, rfl⟩
  | list elements =>
      cases elements with
      | nil => exact Or.inr (Or.inl rfl)
      | cons value values =>
          rw [join_pair fill value values nonempty] at joins
          cases joins
  | emptyRange => exact Or.inr (Or.inr rfl)
  | finiteRange elements some distinct =>
      rw [join_several, makeLike] at joins
      cases joins
  | constantRange value size =>
      rw [join_several, makeLike] at joins
      cases joins

/-- With several parts, they can all be copied and the first one is of a class
that can be made. -/
theorem joinsBack_of_several (fill : Element)
    {seq separator : Sequence Element} {start last : Nat}
    {count : Option Nat} (le : start ≤ last) (inside : last ≤ seq.size)
    (positive : ∀ number, count = some number → 0 < number)
    (nonempty : separator.elements ≠ [])
    (several : ¬ Whole seq separator start last count) :
    ∃ place cuts, Cuts separator.elements seq.elements last
        (count.getD (last + 1)) start ((start, place) :: cuts) ∧
      cuts ≠ [] ∧
      (place = start ↔ AtStart seq separator start last) ∧
      (JoinsBack fill seq separator start last count ↔
        (∀ cut ∈ (start, place) :: cuts, seq.Readable cut.1) ∧
          ∀ first, copySequence seq start place = .ok first →
            (∃ elements, first = .mutable elements) ∨ first = .list [] ∨
              first = .emptyRange) := by
  have length : 0 < separator.elements.length :=
    List.length_pos_iff.mpr nonempty
  obtain ⟨cuts, made, splits⟩ := split_eq le inside positive nonempty
  have notSingle : cuts.length ≠ 1 := by
    rw [Ne, made.single_iff]
    rintro (one | none)
    · cases count with
      | none =>
          have zero : last = 0 := by simpa using one
          refine several (Or.inr fun place after before => ?_)
          rw [Sequence.size] at before
          omega
      | some number => exact several (Or.inl (congrArg some one))
    · exact several (Or.inr none)
  obtain ⟨place, rest, rfl⟩ := made.head
  have within : ∀ cut ∈ (start, place) :: rest,
      cut.1 ≤ cut.2 ∧ cut.2 ≤ seq.size := by
    intro cut member
    have between := made.within le cut member
    exact ⟨between.2.1, between.2.2.trans inside⟩
  have more : rest ≠ [] := by
    rintro rfl
    exact notSingle rfl
  refine ⟨place, rest, made, more, made.first_empty_iff notSingle rfl, ?_⟩
  rw [← exists_copies_iff within]
  constructor
  · rintro ⟨parts, joined, copied, parted, joins, -⟩
    rw [splits] at parted
    refine ⟨⟨parts, parted⟩, fun first isFirst => ?_⟩
    obtain ⟨_, _, _, rfl, firstCopied⟩ := exists_parts more parted
    rw [isFirst] at firstCopied
    cases firstCopied
    exact makes_of_join nonempty joins
  · rintro ⟨⟨parts, parted⟩, makes⟩
    have elements := copies_elements within parted
    have readable := (exists_copies_iff within).mp ⟨parts, parted⟩
    obtain ⟨copied, copies⟩ := (exists_copy_iff le inside).mpr
      (readable (start, place) (by simp))
    have bound := made.length_le (by
      cases count with
      | none => exact Nat.succ_pos last
      | some number => exact positive number rfl)
    have lengths := congrArg List.length elements
    rw [List.length_map, pieces, List.length_map] at lengths
    rw [← lengths] at bound
    have clean : count = none →
        ∀ part ∈ parts, ¬ separator.elements <:+: part.elements := by
      rintro rfl part member
      refine made.no_infix inside nonempty le (by simp; omega) _ ?_
      rw [← elements]
      exact List.mem_map_of_mem member
    obtain ⟨first, second, others, rfl, firstCopied⟩ :=
      exists_parts more parted
    obtain ⟨result, joins, whole⟩ :=
      @join_eq Element fill separator first second others
        (makes first firstCopied)
    refine ⟨_, result, copied, splits.trans parted, joins, copies, ?_, ?_,
      clean⟩
    · rw [whole, elements, made.joined_pieces le,
        copySequence_elements le inside copies]
    · rintro number rfl
      exact bound

end RoundTrip

end OpenDylan.Collections.SplitJoin
