import OpenDylan.Lib.Ring

/-!
# The work queue of the object database

The queue is a ring in a vector.  When the index where elements are put in
meets the one where they are taken out, the elements move to a vector of twice
the size, with a gap where the indices met.  The vector is accessed without
bounds checks: an access outside it is no outcome here.
-/

namespace OpenDylan.Dood.WorkQueue

open OpenDylan.Lib.Ring

variable {Element : Type}

/-! ## Vectors -/

/-- An element without a bounds check; `none` for an access outside. -/
def element (data : List Element) (index : Nat) : Option Element :=
  data[index]?

/-- The setter without a bounds check; `none` for an access outside. -/
def elementSetter (data : List Element) (index : Nat) (e : Element) :
    Option (List Element) :=
  if index < data.length then some (data.set index e) else none

/-- The copying of `count` elements from an index on to places `delta`
further. -/
def copyElements (oldData : List Element) (delta : Nat) :
    Nat → Nat → List Element → Option (List Element)
  | 0, _, newData => some newData
  | count + 1, i, newData =>
      (element oldData i).bind fun e =>
        (elementSetter newData (i + delta) e).bind
          (copyElements oldData delta count (i + 1))

/-! ## The queue -/

/-- `$dood-queue-initial-size` -/
def initialSize : Nat := 2048

/-- `<dood-queue>` -/
structure DoodQueue (Element : Type) where
  queueData : List Element
  queueOut : Nat
  queueIn : Nat

/-- A new `<dood-queue>`; its vector is filled with an object. -/
def DoodQueue.new (fill : Element) : DoodQueue Element :=
  ⟨List.replicate initialSize fill, 0, 0⟩

/-- `dood-queue-empty?` -/
def DoodQueue.isEmpty (x : DoodQueue Element) : Bool :=
  decide (x.queueOut = x.queueIn)

/-- `next-index` -/
def DoodQueue.nextIndex (x : DoodQueue Element) (i : Nat) : Nat :=
  (i + 1) % x.queueData.length

/-- The part of `dood-queue-push-last` that makes room. -/
def DoodQueue.makeRoom (fill : Element) (x : DoodQueue Element) :
    Option (DoodQueue Element) :=
  let oldData := x.queueData
  let oldSize := oldData.length
  let oldOut := x.queueOut
  let newData := List.replicate (oldSize * 2) fill
  let delta := newData.length - oldSize
  (copyElements oldData 0 oldOut 0 newData).bind fun newData =>
    (copyElements oldData delta (oldSize - oldOut) oldOut newData).map
      fun newData =>
        { x with queueOut := oldOut + delta, queueData := newData }

/-- `dood-queue-push-last` -/
def DoodQueue.pushLast (fill : Element) (x : DoodQueue Element) (e : Element) :
    Option (DoodQueue Element) :=
  (elementSetter x.queueData x.queueIn e).bind fun queueData =>
    let x := { x with queueData }
    let x := { x with queueIn := x.nextIndex x.queueIn }
    if x.queueIn = x.queueOut then x.makeRoom fill else some x

/-- `dood-queue-pop` -/
def DoodQueue.pop (x : DoodQueue Element) :
    Option (Element × DoodQueue Element) :=
  (element x.queueData x.queueOut).map fun e =>
    (e, { x with queueOut := x.nextIndex x.queueOut })

/-! ## Copying -/

theorem elementSetter_inside {data : List Element} {index : Nat}
    (inside : index < data.length) (e : Element) :
    elementSetter data index e = some (data.set index e) :=
  if_pos inside

theorem copyElements_eq (oldData : List Element) (delta : Nat)
    {count i : Nat} {newData : List Element}
    (readable : i + count ≤ oldData.length)
    (writable : i + delta + count ≤ newData.length) :
    copyElements oldData delta count i newData =
      some (newData.take (i + delta) ++ (oldData.drop i).take count ++
        newData.drop (i + delta + count)) := by
  induction count generalizing i newData with
  | zero => simp [copyElements]
  | succ count inductionHypothesis =>
      have inside : i < oldData.length := by omega
      rw [copyElements, element, List.getElem?_eq_getElem inside,
        Option.bind_some, elementSetter_inside (by omega), Option.bind_some,
        inductionHypothesis (by omega) (by rw [List.length_set]; omega)]
      have next : i + 1 + delta = i + delta + 1 := by omega
      rw [next, take_set_succ (by omega), List.drop_set_of_lt (by omega),
        List.drop_eq_getElem_cons inside, List.take_succ_cons]
      simp [Nat.add_assoc, Nat.add_comm 1]

/-- Copying into the middle of three parts. -/
theorem copyElements_append (oldData : List Element) (delta : Nat)
    {count i : Nat} {front middle : List Element} (back : List Element)
    (readable : i + count ≤ oldData.length)
    (start : front.length = i + delta) (room : middle.length = count) :
    copyElements oldData delta count i (front ++ middle ++ back) =
      some (front ++ (oldData.drop i).take count ++ back) := by
  have total : (front ++ middle).length = i + delta + count := by
    rw [List.length_append, start, room]
  rw [copyElements_eq oldData delta readable (by
    rw [List.length_append, total]
    omega)]
  congr 2
  · rw [List.append_assoc, ← start, List.take_left]
  · rw [← total, List.drop_left]

/-- Room is made in the middle. -/
theorem DoodQueue.makeRoom_eq (fill : Element) {x : DoodQueue Element}
    (inside : x.queueOut < x.queueData.length) :
    x.makeRoom fill =
      some ⟨x.queueData.take x.queueOut ++
          List.replicate x.queueData.length fill ++
          x.queueData.drop x.queueOut,
        x.queueOut + x.queueData.length, x.queueIn⟩ := by
  have double : (List.replicate (x.queueData.length * 2) fill).length -
      x.queueData.length = x.queueData.length := by
    rw [List.length_replicate]
    omega
  have first : List.replicate (x.queueData.length * 2) fill =
      [] ++ List.replicate x.queueOut fill ++
        List.replicate (x.queueData.length * 2 - x.queueOut) fill := by
    rw [List.nil_append, List.replicate_append_replicate]
    congr 1
    omega
  have second : List.replicate (x.queueData.length * 2 - x.queueOut) fill =
      List.replicate x.queueData.length fill ++
        List.replicate (x.queueData.length - x.queueOut) fill := by
    rw [List.replicate_append_replicate]
    congr 1
    omega
  have front : (x.queueData.take x.queueOut ++
      List.replicate x.queueData.length fill).length =
        x.queueOut + x.queueData.length := by
    rw [List.length_append, List.length_take, List.length_replicate]
    omega
  have before : copyElements x.queueData 0 x.queueOut 0
      (List.replicate (x.queueData.length * 2) fill) =
        some (x.queueData.take x.queueOut ++
          List.replicate (x.queueData.length * 2 - x.queueOut) fill) := by
    have start : ([] : List Element).length = 0 + 0 := rfl
    rw [first, copyElements_append x.queueData 0 _ (by omega) start
      List.length_replicate]
    rfl
  have after : copyElements x.queueData x.queueData.length
      (x.queueData.length - x.queueOut) x.queueOut
      (x.queueData.take x.queueOut ++
        List.replicate (x.queueData.length * 2 - x.queueOut) fill) =
        some (x.queueData.take x.queueOut ++
          List.replicate x.queueData.length fill ++
          x.queueData.drop x.queueOut) := by
    have rest : (List.replicate (x.queueData.length - x.queueOut)
        fill).length = x.queueData.length - x.queueOut :=
      List.length_replicate
    have all := copyElements_append x.queueData x.queueData.length []
      (by omega) front rest
    rw [List.append_nil, List.append_nil,
      List.take_of_length_le (Nat.le_of_eq List.length_drop)] at all
    rw [second, ← List.append_assoc]
    exact all
  rw [makeRoom]
  simp only [double]
  rw [before, Option.bind_some, after]
  rfl

/-! ## One operation -/

/-- The indices are inside the vector. -/
structure DoodQueue.Sound (x : DoodQueue Element) : Prop where
  outside : x.queueOut < x.queueData.length
  inside : x.queueIn < x.queueData.length

/-- The elements in the queue, the next one to be popped first. -/
def DoodQueue.contents (x : DoodQueue Element) : List Element :=
  between x.queueData x.queueOut x.queueIn

theorem DoodQueue.new_sound (fill : Element) :
    (DoodQueue.new fill).Sound := by
  constructor
  · rw [new, List.length_replicate]
    exact Nat.zero_lt_succ _
  · rw [new, List.length_replicate]
    exact Nat.zero_lt_succ _

theorem DoodQueue.Sound.isEmpty_iff {x : DoodQueue Element} (sound : x.Sound) :
    x.isEmpty = true ↔ x.contents = [] := by
  rw [isEmpty, decide_eq_true_iff, contents,
    between_eq_nil_iff sound.outside sound.inside]

theorem DoodQueue.Sound.pushLast {x : DoodQueue Element} (sound : x.Sound)
    (fill e : Element) :
    ∃ y, x.pushLast fill e = some y ∧ y.Sound ∧
      y.contents = x.contents ++ [e] := by
  have positive : 0 < x.queueData.length := Nat.zero_lt_of_lt sound.outside
  have next : (x.queueIn + 1) % x.queueData.length < x.queueData.length :=
    Nat.mod_lt _ positive
  rw [DoodQueue.pushLast, elementSetter_inside sound.inside, Option.bind_some]
  simp only [nextIndex, List.length_set]
  by_cases meet : (x.queueIn + 1) % x.queueData.length = x.queueOut
  · rw [if_pos meet, makeRoom_eq fill (by
      rw [List.length_set]
      exact sound.outside)]
    refine ⟨_, rfl, ?_, ?_⟩
    · constructor
      · simp only [List.length_append, List.length_take, List.length_set,
          List.length_replicate, List.length_drop]
        omega
      · simp only [List.length_append, List.length_take, List.length_set,
          List.length_replicate, List.length_drop]
        omega
    · have outside : x.queueOut < (x.queueData.set x.queueIn e).length := by
        rw [List.length_set]
        exact sound.outside
      have wide : 0 < (List.replicate (x.queueData.set x.queueIn e).length
          fill).length := by
        rw [List.length_replicate, List.length_set]
        exact positive
      have gap := between_gap _ outside wide
      rw [List.length_replicate] at gap
      simp only [contents]
      rw [between_full sound.inside e meet, ← gap, meet]
  · rw [if_neg meet]
    exact ⟨_, rfl, ⟨by rw [List.length_set]; exact sound.outside,
      by rw [List.length_set]; exact next⟩,
      between_push sound.outside sound.inside e meet⟩

theorem DoodQueue.Sound.pop {x : DoodQueue Element} (sound : x.Sound)
    (nonempty : x.contents ≠ []) :
    ∃ e y, x.pop = some (e, y) ∧ y.Sound ∧ x.contents = e :: y.contents := by
  have apart : x.queueOut ≠ x.queueIn := by
    intro same
    exact nonempty ((between_eq_nil_iff sound.outside sound.inside).mpr same)
  have positive : 0 < x.queueData.length := Nat.zero_lt_of_lt sound.outside
  rw [DoodQueue.pop, element, List.getElem?_eq_getElem sound.outside,
    Option.map_some]
  refine ⟨_, _, rfl, ⟨Nat.mod_lt _ positive, sound.inside⟩, ?_⟩
  exact between_pop sound.outside sound.inside apart

/-! ## Runs -/

inductive Operation (Element : Type) where
  | pushLast (e : Element)
  | pop

/-- The queue after a sequence of operations and the elements popped. -/
def run (fill : Element) : List (Operation Element) → DoodQueue Element →
    Option (DoodQueue Element × List Element)
  | [], x => some (x, [])
  | .pushLast e :: operations, x =>
      (x.pushLast fill e).bind (run fill operations)
  | .pop :: operations, x =>
      x.pop.bind fun answer =>
        (run fill operations answer.2).map fun rest =>
          (rest.1, answer.1 :: rest.2)

/-- The elements that a sequence of operations pushes. -/
def pushed : List (Operation Element) → List Element
  | [] => []
  | .pushLast e :: operations => e :: pushed operations
  | .pop :: operations => pushed operations

/-- The number of pops in a sequence of operations. -/
def pops : List (Operation Element) → Nat
  | [] => 0
  | .pushLast _ :: operations => pops operations
  | .pop :: operations => pops operations + 1

/-- With a number of elements in the queue at the start, no pop is on an empty
queue. -/
def PopsPushed : Nat → List (Operation Element) → Prop
  | _, [] => True
  | inside, .pushLast _ :: operations => PopsPushed (inside + 1) operations
  | inside, .pop :: operations =>
      0 < inside ∧ PopsPushed (inside - 1) operations

theorem DoodQueue.Sound.run {x : DoodQueue Element} (sound : x.Sound)
    (fill : Element) {operations : List (Operation Element)}
    (fits : PopsPushed x.contents.length operations) :
    ∃ y popped, run fill operations x = some (y, popped) ∧ y.Sound ∧
      popped ++ y.contents = x.contents ++ pushed operations ∧
      popped.length = pops operations := by
  induction operations generalizing x with
  | nil => exact ⟨x, [], rfl, sound, (List.append_nil _).symm, rfl⟩
  | cons operation operations inductionHypothesis =>
      cases operation with
      | pushLast e =>
          rcases sound.pushLast fill e with ⟨y, done, sound', contents⟩
          have fits' : PopsPushed y.contents.length operations := by
            rw [contents, List.length_append]
            exact fits
          rcases inductionHypothesis sound' fits' with
            ⟨z, popped, rest, sound'', all, number⟩
          refine ⟨z, popped, ?_, sound'', ?_, number⟩
          · rw [WorkQueue.run, done]
            exact rest
          · rw [all, contents, List.append_assoc]
            rfl
      | pop =>
          have nonempty : x.contents ≠ [] := by
            intro nothing
            have before := fits.1
            rw [nothing] at before
            exact Nat.lt_irrefl 0 before
          rcases sound.pop nonempty with ⟨e, y, done, sound', contents⟩
          have fits' : PopsPushed y.contents.length operations := by
            have later := fits.2
            rw [contents, List.length_cons] at later
            exact later
          rcases inductionHypothesis sound' fits' with
            ⟨z, popped, rest, sound'', all, number⟩
          refine ⟨z, e :: popped, ?_, sound'', ?_, ?_⟩
          · rw [WorkQueue.run, done, Option.bind_some, rest]
            rfl
          · rw [List.cons_append, all, contents]
            rfl
          · rw [List.length_cons, number]
            rfl

/-- The elements are popped in the order in which they are pushed, none of
them lost or twice, and the queue is empty when all have been popped. -/
theorem queue_fifo (fill : Element) (operations : List (Operation Element))
    (fits : PopsPushed 0 operations) :
    ∃ y popped, run fill operations (DoodQueue.new fill) = some (y, popped) ∧
      popped ++ y.contents = pushed operations ∧
      popped = (pushed operations).take (pops operations) ∧
      (y.isEmpty = true ↔ pops operations = (pushed operations).length) := by
  rcases (DoodQueue.new_sound fill).run fill fits with
    ⟨y, popped, done, sound, all, number⟩
  have whole : popped ++ y.contents = pushed operations := all
  refine ⟨y, popped, done, whole, ?_, ?_⟩
  · rw [← whole, ← number, List.take_left]
  · rw [sound.isEmpty_iff, ← whole, ← number, List.length_append,
      ← List.length_eq_zero_iff]
    omega

/-- Two pushes and two pops. -/
theorem queue_fifo_two :
    ∃ y popped,
      run 0 [.pushLast 5, .pushLast 7, .pop, .pop] (DoodQueue.new 0) =
          some (y, popped) ∧
        popped ++ y.contents = [5, 7] ∧ popped = [5, 7] ∧
        (y.isEmpty = true ↔ 2 = 2) :=
  queue_fifo 0 [.pushLast 5, .pushLast 7, .pop, .pop]
    ⟨Nat.zero_lt_succ 1, Nat.zero_lt_succ 0, trivial⟩

end OpenDylan.Dood.WorkQueue
