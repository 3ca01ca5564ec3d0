import OpenDylan.Collections.BitSet
import OpenDylan.Lib.Enumeration

/-!
# Iteration over bit sets

The loops of both protocols look at every bit of the words, also at those past
the size of the member vector.  An iteration that goes forward must leave the
words where the pad begins, and one that goes backward must not begin in the
unused bits.
-/

namespace OpenDylan.Collections.BitSets

open BitVectors Lib.Enumeration

variable {log : Nat}

/-! ## States -/

/-- `<bit-set-iteration-state>` -/
@[ext]
structure IterationState (log : Nat) where
  currentWord : Word log
  wordOffset : Int
  bitOffset : Int
  currentElement : Int

/-- The state that both protocols make from the offsets of a bit. -/
def IterationState.make (currentWord : Word log) (wordOffset bitOffset : Int) :
    IterationState log where
  currentWord := currentWord
  wordOffset := wordOffset
  bitOffset := bitOffset
  currentElement := wordOffset * 2 ^ log + bitOffset

/-! ## Going forward -/

/-- The loop over the bits of a word from an offset on, which counts the
elements that it passes. -/
def scanBits : Nat → Nat → Word log → Int → Option (Nat × Word log) × Int
  | 0, _, _, element => (none, element)
  | count + 1, i, word, element =>
      if word &&& 1 = 1 then
        (some (i, word), element + 1)
      else
        scanBits count (i + 1) (word >>> 1) (element + 1)

/-- The loop over the words from an offset on. -/
def scanWords (vectors : Vectors log) (vector : Nat) :
    Nat → Nat → Int → Option (Nat × Nat × Word log) × Int
  | 0, _, element => (none, element)
  | count + 1, j, element =>
      match scanBits (2 ^ log) 0 (wordAt vectors vector j) element with
      | (some (i, word), element) => (some (j, i, word), element)
      | (none, element) => scanWords vectors vector count (j + 1) element

/-- `bs-fip-initial-state` -/
def fipInitialState (set : Nat) (memory : Memory log) : IterationState log :=
  let vector := memory.memberVector set
  let words := wordSize memory.vectors vector
  match (scanWords memory.vectors vector words 0 0).1 with
  | some (j, i, word) => .make word j i
  | none => .make 0 (words - 1) (2 ^ log)

/-- `bs-fip-limit` -/
def fipLimit (set : Nat) (memory : Memory log) : Nat :=
  size memory.vectors (memory.memberVector set)

/-- `bs-fip-next-state` -/
def fipNextState (set : Nat) (memory : Memory log)
    (state : IterationState log) : IterationState log :=
  let vector := memory.memberVector set
  let words := wordSize memory.vectors vector
  if state.currentElement ≥ size memory.vectors vector then
    { state with currentElement := state.currentElement + 1 }
  else
    let first := (state.bitOffset + 1).toNat
    match scanBits (2 ^ log - first) first (state.currentWord >>> 1)
      state.currentElement with
    | (some (i, word), element) =>
        { state with
          currentWord := word, bitOffset := i, currentElement := element }
    | (none, element) =>
        let next := (state.wordOffset + 1).toNat
        match scanWords memory.vectors vector (words - next) next element with
        | (some (j, i, word), element) => ⟨word, j, i, element⟩
        | (none, _) =>
            { state with currentElement := size memory.vectors vector }

/-- `bs-fip-finished-state?` -/
def fipIsFinishedState (set : Nat) (memory : Memory log) (limit : Nat)
    (state : IterationState log) : Bool :=
  memory.memberVectorPad set = false ∧ state.currentElement ≥ limit

/-- `forward-iteration-protocol` -/
def forwardIterationProtocol (set : Nat) (memory : Memory log) :
    Iteration (IterationState log) where
  start := fipInitialState set memory
  next := fipNextState set memory
  finished state :=
    fipIsFinishedState set memory (fipLimit set memory) state = true
  element state := state.currentElement

/-! ## Going backward -/

/-- The loop over the bits of a word below an offset, which counts the elements
that it passes. -/
def scanBitsDown : Nat → Word log → Int → Option (Nat × Word log) × Int
  | 0, _, element => (none, element)
  | i + 1, word, element =>
      let word := word.rotateLeft 1
      if word &&& 1 = 1 then
        (some (i, word), element - 1)
      else
        scanBitsDown i word (element - 1)

/-- The loop over the words below an offset. -/
def scanWordsDown (vectors : Vectors log) (vector : Nat) :
    Nat → Int → Option (Nat × Nat × Word log) × Int
  | 0, element => (none, element)
  | j + 1, element =>
      match scanBitsDown (2 ^ log) (wordAt vectors vector j) element with
      | (some (i, word), element) => (some (j, i, word), element)
      | (none, element) => scanWordsDown vectors vector j element

/-- `bs-bip-initial-state` -/
def bipInitialState (set : Nat) (memory : Memory log) : IterationState log :=
  let vector := memory.memberVector set
  let words := wordSize memory.vectors vector
  match (scanWordsDown memory.vectors vector words 0).1 with
  | some (j, i, word) => .make word j i
  | none => .make 0 0 (-1)

/-- `bs-bip-next-state` -/
def bipNextState (set : Nat) (memory : Memory log)
    (state : IterationState log) : IterationState log :=
  match scanBitsDown state.bitOffset.toNat state.currentWord
    state.currentElement with
  | (some (i, word), element) =>
      { state with
        currentWord := word, bitOffset := i, currentElement := element }
  | (none, element) =>
      match scanWordsDown memory.vectors (memory.memberVector set)
        state.wordOffset.toNat element with
      | (some (j, i, word), element) => ⟨word, j, i, element⟩
      | (none, _) =>
          { state with
            bitOffset := -1, wordOffset := -1, currentElement := -1 }

/-- `bs-bip-finished-state?` -/
def bipIsFinishedState (state : IterationState log) : Bool :=
  state.currentElement < 0

/-- `BACKWARD-ITERATION-PROTOCOL called on infinite set %=` -/
inductive InfiniteSet where
  | backwardIterationProtocol (set : Nat)

/-- The iteration of `backward-iteration-protocol`. -/
def backwardIteration (set : Nat) (memory : Memory log) :
    Iteration (IterationState log) where
  start := bipInitialState set memory
  next := bipNextState set memory
  finished state := bipIsFinishedState state = true
  element state := state.currentElement

/-- `backward-iteration-protocol` -/
def backwardIterationProtocol (set : Nat) (memory : Memory log) :
    Except InfiniteSet (Iteration (IterationState log)) :=
  if memory.memberVectorPad set = true then
    .error (.backwardIterationProtocol set)
  else
    .ok (backwardIteration set memory)

/-! ## Bits and positions -/

theorem lowBit_iff (word : Word log) :
    word &&& 1 = 1 ↔ word.getLsbD 0 = true := by
  have positive := Nat.two_pow_pos log
  constructor
  · intro same
    have bit := congrArg (fun w : Word log => w.getLsbD 0) same
    simpa [positive] using bit
  · intro set
    apply BitVec.eq_of_getLsbD_eq
    intro index inside
    rw [BitVec.getLsbD_and]
    by_cases zero : index = 0
    · rw [zero, set, Bool.true_and]
    · have high : (1 : Word log).getLsbD index = false := by
        have one : Nat.testBit 1 index = false :=
          Nat.testBit_lt_two_pow (Nat.one_lt_two_pow zero)
        show (BitVec.ofNat _ 1).getLsbD index = false
        rw [BitVec.getLsbD_ofNat, one, Bool.and_false]
      rw [high, Bool.and_false]

theorem offsets_of_position {word bit : Nat} (inside : bit < 2 ^ log) :
    computeWordOffset log (2 ^ log * word + bit) = word ∧
      computeBitOffset log (2 ^ log * word + bit) = bit := by
  rw [computeWordOffset_eq, computeBitOffset_eq]
  exact ⟨by rw [Nat.mul_add_div (Nat.two_pow_pos log),
    Nat.div_eq_of_lt inside, Nat.add_zero], by
    rw [Nat.mul_add_mod, Nat.mod_eq_of_lt inside]⟩

theorem bitAt_position (vectors : Vectors log) (vector : Nat) {word bit : Nat}
    (inside : bit < 2 ^ log) :
    bitAt vectors vector (2 ^ log * word + bit) =
      (wordAt vectors vector word).getLsbD bit := by
  obtain ⟨words, bits⟩ := @offsets_of_position log word bit inside
  rw [bitAt, words, bits]

/-- There are no bits past the words. -/
theorem bitAt_beyond {vectors : Vectors log} {vector index : Nat}
    (beyond : 2 ^ log * wordSize vectors vector ≤ index) :
    bitAt vectors vector index = false := by
  have outside : wordSize vectors vector ≤ computeWordOffset log index := by
    rw [computeWordOffset_eq, Nat.le_div_iff_mul_le (Nat.two_pow_pos log),
      Nat.mul_comm]
    exact beyond
  rw [bitAt, wordAt, List.getD_eq_default _ _ outside]
  simp

/-! ## The loops that go forward -/

/-- The loop over the bits of a word finds the first one that is set. -/
theorem scanBits_cases (count i : Nat) (word : Word log) (element : Int) :
    (∃ k, k < count ∧ word.getLsbD k = true ∧
      (∀ m, m < k → word.getLsbD m = false) ∧
      scanBits count i word element =
        (some (i + k, word >>> k), element + k + 1)) ∨
    ((∀ m, m < count → word.getLsbD m = false) ∧
      scanBits count i word element = (none, element + count)) := by
  induction count generalizing i word element with
  | zero =>
      refine .inr ⟨fun m less => absurd less (Nat.not_lt_zero m), ?_⟩
      rw [scanBits]
      simp
  | succ count inductionHypothesis =>
      rw [scanBits]
      by_cases set : word.getLsbD 0 = true
      · rw [if_pos ((lowBit_iff word).mpr set)]
        refine .inl ⟨0, Nat.succ_pos _, set, ?_, ?_⟩
        · exact fun m less => absurd less (Nat.not_lt_zero m)
        · simp
      · have shifted : ∀ m, (word >>> 1).getLsbD m = word.getLsbD (m + 1) := by
          intro m
          rw [BitVec.getLsbD_ushiftRight, Nat.add_comm]
        have clear : word.getLsbD 0 = false := by simpa using set
        rw [if_neg fun low => set ((lowBit_iff word).mp low)]
        rcases inductionHypothesis (i + 1) (word >>> 1) (element + 1) with
          ⟨k, less, found, before, scanned⟩ | ⟨none, scanned⟩
        · rw [shifted] at found
          refine .inl ⟨k + 1, by omega, found, ?_, ?_⟩
          · intro m below
            cases m with
            | zero => exact clear
            | succ m => rw [← shifted, before m (by omega)]
          · rw [scanned, ← BitVec.shiftRight_add, Nat.add_comm 1 k]
            have index : i + 1 + k = i + (k + 1) := by omega
            have passed : element + 1 + k + 1 =
                element + ((k + 1 : Nat) : Int) + 1 := by
              push_cast
              omega
            rw [index, passed]
        · refine .inr ⟨?_, ?_⟩
          · intro m below
            cases m with
            | zero => exact clear
            | succ m => rw [← shifted, none m (by omega)]
          · rw [scanned]
            push_cast
            rw [Int.add_assoc, Int.add_comm 1]

/-- The word of a bit, shifted so that the bit is the lowest. -/
def wordFrom (vectors : Vectors log) (vector position : Nat) : Word log :=
  wordAt vectors vector (computeWordOffset log position) >>>
    computeBitOffset log position

theorem wordFrom_position (vectors : Vectors log) (vector : Nat)
    {word bit : Nat} (inside : bit < 2 ^ log) :
    wordFrom vectors vector (2 ^ log * word + bit) =
      wordAt vectors vector word >>> bit := by
  obtain ⟨words, bits⟩ := @offsets_of_position log word bit inside
  rw [wordFrom, words, bits]

/-- The loop over words finds the first bit that is set. -/
theorem scanWords_cases (vectors : Vectors log) (vector count j : Nat)
    (element : Int) :
    (∃ p, 2 ^ log * j ≤ p ∧ p < 2 ^ log * (j + count) ∧
      bitAt vectors vector p = true ∧
      (∀ m, 2 ^ log * j ≤ m → m < p → bitAt vectors vector m = false) ∧
      scanWords vectors vector count j element =
        (some (computeWordOffset log p, computeBitOffset log p,
          wordFrom vectors vector p), element + (p - 2 ^ log * j) + 1)) ∨
    ((∀ m, 2 ^ log * j ≤ m → m < 2 ^ log * (j + count) →
      bitAt vectors vector m = false) ∧
      scanWords vectors vector count j element =
        (none, element + 2 ^ log * count)) := by
  induction count generalizing j element with
  | zero =>
      refine .inr ⟨fun m low high => ?_, ?_⟩
      · rw [Nat.add_zero] at high
        omega
      · rw [scanWords]
        simp
  | succ count inductionHypothesis =>
      have split : ∀ m, 2 ^ log * j ≤ m → m < 2 ^ log * (j + 1) →
          ∃ k, k < 2 ^ log ∧ m = 2 ^ log * j + k := by
        intro m low high
        rw [Nat.mul_add_one] at high
        exact ⟨m - 2 ^ log * j, by omega, by omega⟩
      have next := Nat.mul_add_one (2 ^ log) j
      have positive := Nat.two_pow_pos log
      have last : 2 ^ log * (j + 1) ≤ 2 ^ log * (j + (count + 1)) :=
        Nat.mul_le_mul_left _ (by omega)
      rw [scanWords]
      rcases scanBits_cases (2 ^ log) 0 (wordAt vectors vector j) element with
        ⟨k, less, found, before, scanned⟩ | ⟨none, scanned⟩
      · obtain ⟨words, bits⟩ := @offsets_of_position log j k less
        refine .inl ⟨2 ^ log * j + k, by omega, by omega, ?_, ?_, ?_⟩
        · rw [bitAt_position _ _ less, found]
        · intro m low high
          obtain ⟨bit, inside, rfl⟩ := split m low (by omega)
          rw [bitAt_position _ _ inside, before bit (by omega)]
        · rw [scanned, words, bits, wordFrom_position _ _ less]
          have passed : element + k + 1 = element +
              (((2 ^ log * j + k : Nat) : Int) - 2 ^ log * j) + 1 := by
            push_cast
            omega
          rw [← passed, Nat.zero_add]
      · have here : ∀ m, 2 ^ log * j ≤ m → m < 2 ^ log * (j + 1) →
            bitAt vectors vector m = false := by
          intro m low high
          obtain ⟨bit, inside, rfl⟩ := split m low high
          rw [bitAt_position _ _ inside, none bit inside]
        have count_eq : j + (count + 1) = j + 1 + count := by omega
        rw [count_eq] at last ⊢
        rw [scanned]
        rcases inductionHypothesis (j + 1) (element + (2 ^ log : Nat)) with
          ⟨p, low, high, found, before, further⟩ | ⟨rest, further⟩
        · refine .inl ⟨p, by omega, high, found, ?_, ?_⟩
          · intro m lowest less
            rcases Nat.lt_or_ge m (2 ^ log * (j + 1)) with within | past
            · exact here m lowest within
            · exact before m past less
          · have passed : element + ((2 ^ log : Nat) : Int) +
                (p - 2 ^ log * ((j + 1 : Nat) : Int)) + 1 =
                element + (p - 2 ^ log * j) + 1 := by
              push_cast
              rw [mul_add]
              omega
            rw [← passed]
            exact further
        · refine .inr ⟨?_, ?_⟩
          · intro m lowest less
            rcases Nat.lt_or_ge m (2 ^ log * (j + 1)) with within | past
            · exact here m lowest within
            · exact rest m past less
          · have passed : element + ((2 ^ log : Nat) : Int) +
                2 ^ log * count = element + 2 ^ log * ((count + 1 : Nat)) := by
              push_cast
              rw [mul_add]
              omega
            rw [← passed]
            exact further

/-! ## States that go forward -/

/-- The state at a bit that is set. -/
def stateAt (vectors : Vectors log) (vector position : Nat) :
    IterationState log where
  currentWord := wordFrom vectors vector position
  wordOffset := computeWordOffset log position
  bitOffset := computeBitOffset log position
  currentElement := position

theorem make_eq_stateAt (vectors : Vectors log) (vector position : Nat) :
    IterationState.make (wordFrom vectors vector position)
      (computeWordOffset log position) (computeBitOffset log position) =
      stateAt vectors vector position := by
  have sum := offsets_add log position
  have element : (computeWordOffset log position : Int) * 2 ^ log +
      computeBitOffset log position = position := by
    rw [mul_comm]
    exact_mod_cast sum
  rw [IterationState.make, element]
  rfl

/-- The size of a member vector does not go past its words. -/
theorem size_le_words (vectors : Vectors log) (vector : Nat) :
    BitVectors.size vectors vector ≤ 2 ^ log * wordSize vectors vector := by
  rw [wordSize_eq]
  by_contra more
  exact absurd (lt_wordCount_iff.mpr (Nat.lt_of_not_le more)) (Nat.lt_irrefl _)

theorem lt_words_of_bitAt {vectors : Vectors log} {vector position : Nat}
    (set : bitAt vectors vector position = true) :
    position < 2 ^ log * wordSize vectors vector := by
  by_contra beyond
  rw [bitAt_beyond (Nat.le_of_not_lt beyond)] at set
  cases set

/-- The initial state is at the first bit that is set. -/
theorem fipInitialState_cases (set : Nat) (memory : Memory log) :
    (∃ p, bitAt memory.vectors (memory.memberVector set) p = true ∧
      (∀ m, m < p →
        bitAt memory.vectors (memory.memberVector set) m = false) ∧
      fipInitialState set memory =
        stateAt memory.vectors (memory.memberVector set) p) ∨
    ((∀ m, bitAt memory.vectors (memory.memberVector set) m = false) ∧
      (fipInitialState set memory).currentElement =
        2 ^ log * wordSize memory.vectors (memory.memberVector set)) := by
  unfold fipInitialState
  dsimp only
  rcases scanWords_cases memory.vectors (memory.memberVector set)
    (wordSize memory.vectors (memory.memberVector set)) 0 0 with
    ⟨p, -, -, found, before, scanned⟩ | ⟨none, scanned⟩
  · rw [scanned]
    refine .inl ⟨p, found, fun m less => before m (by omega) less, ?_⟩
    exact make_eq_stateAt _ _ _
  · rw [scanned]
    refine .inr ⟨fun m => ?_, ?_⟩
    · rcases Nat.lt_or_ge m
        (2 ^ log * wordSize memory.vectors (memory.memberVector set))
        with within | beyond
      · exact none m (by omega) (by rwa [Nat.zero_add])
      · exact bitAt_beyond beyond
    · show ((wordSize memory.vectors (memory.memberVector set) : Int) - 1) *
        2 ^ log + 2 ^ log = _
      ring

theorem exists_position (log position : Nat) :
    ∃ word bit, bit < 2 ^ log ∧ position = 2 ^ log * word + bit :=
  ⟨_, _, computeBitOffset_lt log position, (offsets_add log position).symm⟩

/-- The bits of a word above a bit. -/
theorem getLsbD_wordFrom (vectors : Vectors log) (vector : Nat)
    {word bit k : Nat} (inside : bit + 1 + k < 2 ^ log) :
    (wordFrom vectors vector (2 ^ log * word + bit) >>> 1).getLsbD k =
      bitAt vectors vector (2 ^ log * word + bit + 1 + k) := by
  have position : 2 ^ log * word + bit + 1 + k =
      2 ^ log * word + (bit + 1 + k) := by omega
  have index : bit + (1 + k) = bit + 1 + k := by omega
  rw [wordFrom_position _ _ (by omega), BitVec.getLsbD_ushiftRight,
    BitVec.getLsbD_ushiftRight, position, bitAt_position _ _ inside, index]

/-- The next state is at the next bit that is set, or leaves the words. -/
theorem fipNextState_cases {set : Nat} {memory : Memory log} {p : Nat}
    (inside : p < BitVectors.size memory.vectors (memory.memberVector set)) :
    (∃ q, p < q ∧ bitAt memory.vectors (memory.memberVector set) q = true ∧
      (∀ m, p < m → m < q →
        bitAt memory.vectors (memory.memberVector set) m = false) ∧
      fipNextState set memory
          (stateAt memory.vectors (memory.memberVector set) p) =
        stateAt memory.vectors (memory.memberVector set) q) ∨
    ((∀ m, p < m →
        bitAt memory.vectors (memory.memberVector set) m = false) ∧
      (fipNextState set memory
        (stateAt memory.vectors (memory.memberVector set) p)).currentElement =
        BitVectors.size memory.vectors (memory.memberVector set)) := by
  obtain ⟨j, b, small, rfl⟩ := exists_position log p
  obtain ⟨words, bits⟩ := @offsets_of_position log j b small
  have goesOn : ¬ (stateAt memory.vectors (memory.memberVector set)
      (2 ^ log * j + b)).currentElement ≥
        BitVectors.size memory.vectors (memory.memberVector set) := by
    show ¬ ((2 ^ log * j + b : Nat) : Int) ≥ _
    omega
  have next := Nat.mul_add_one (2 ^ log) j
  have wordInside : j < wordSize memory.vectors (memory.memberVector set) := by
    have bound := size_le_words memory.vectors (memory.memberVector set)
    by_contra past
    have grows : 2 ^ log * wordSize memory.vectors (memory.memberVector set) ≤
        2 ^ log * j := Nat.mul_le_mul_left _ (Nat.le_of_not_lt past)
    omega
  have first : ((stateAt memory.vectors (memory.memberVector set)
      (2 ^ log * j + b)).bitOffset + 1).toNat = b + 1 := by
    show ((computeBitOffset log (2 ^ log * j + b) : Int) + 1).toNat = b + 1
    rw [bits]
    omega
  have following : ((stateAt memory.vectors (memory.memberVector set)
      (2 ^ log * j + b)).wordOffset + 1).toNat = j + 1 := by
    show ((computeWordOffset log (2 ^ log * j + b) : Int) + 1).toNat = j + 1
    rw [words]
    omega
  have rest : ∀ m, 2 ^ log * j + b < m → m < 2 ^ log * (j + 1) →
      ∃ k, b + 1 + k < 2 ^ log ∧ m = 2 ^ log * j + b + 1 + k := by
    intro m low high
    exact ⟨m - (2 ^ log * j + b + 1), by omega, by omega⟩
  unfold fipNextState
  dsimp only
  rw [if_neg goesOn, first, following]
  rcases scanBits_cases (2 ^ log - (b + 1)) (b + 1)
    ((stateAt memory.vectors (memory.memberVector set)
      (2 ^ log * j + b)).currentWord >>> 1)
    (stateAt memory.vectors (memory.memberVector set)
      (2 ^ log * j + b)).currentElement with
    ⟨k, less, found, before, scanned⟩ | ⟨none, scanned⟩
  · rw [scanned]
    have position : 2 ^ log * j + b + 1 + k = 2 ^ log * j + (b + 1 + k) := by
      omega
    obtain ⟨words', bits'⟩ :=
      @offsets_of_position log j (b + 1 + k) (by omega)
    refine .inl ⟨2 ^ log * j + b + 1 + k, by omega, ?_, ?_, ?_⟩
    · rw [← getLsbD_wordFrom _ _ (by omega)]
      exact found
    · intro m low high
      obtain ⟨index, within, rfl⟩ := rest m low (by omega)
      rw [← getLsbD_wordFrom _ _ within]
      exact before index (by omega)
    · rw [position]
      refine IterationState.ext ?_ ?_ ?_ ?_
      · show wordFrom _ _ (2 ^ log * j + b) >>> 1 >>> k = wordFrom _ _ _
        rw [wordFrom_position _ _ small, wordFrom_position _ _ (by omega),
          ← BitVec.shiftRight_add, ← BitVec.shiftRight_add]
        exact congrArg _ (by omega)
      · show ((computeWordOffset log (2 ^ log * j + b) : Nat) : Int) =
          (computeWordOffset log _ : Nat)
        rw [words, words']
      · show ((b + 1 + k : Nat) : Int) = (computeBitOffset log _ : Nat)
        rw [bits']
      · show ((2 ^ log * j + b : Nat) : Int) + k + 1 = (_ : Nat)
        omega
  · rw [scanned]
    have rests : ∀ m, 2 ^ log * j + b < m → m < 2 ^ log * (j + 1) →
        bitAt memory.vectors (memory.memberVector set) m = false := by
      intro m low high
      obtain ⟨index, within, rfl⟩ := rest m low high
      rw [← getLsbD_wordFrom _ _ within]
      exact none index (by omega)
    have all : j + 1 + (wordSize memory.vectors (memory.memberVector set) -
        (j + 1)) = wordSize memory.vectors (memory.memberVector set) := by
      omega
    dsimp only
    rcases scanWords_cases memory.vectors (memory.memberVector set)
      (wordSize memory.vectors (memory.memberVector set) - (j + 1)) (j + 1)
      ((stateAt memory.vectors (memory.memberVector set)
        (2 ^ log * j + b)).currentElement + ((2 ^ log - (b + 1) : Nat) : Int))
      with ⟨q, low, -, found, before, further⟩ | ⟨beyond, further⟩
    · rw [further]
      refine .inl ⟨q, by omega, found, ?_, ?_⟩
      · intro m above less
        rcases Nat.lt_or_ge m (2 ^ log * (j + 1)) with within | past
        · exact rests m above within
        · exact before m past less
      · refine IterationState.ext rfl rfl rfl ?_
        show ((2 ^ log * j + b : Nat) : Int) + ((2 ^ log - (b + 1) : Nat) : Int)
          + (q - 2 ^ log * ((j + 1 : Nat) : Int)) + 1 = (q : Int)
        have cast : (2 : Int) ^ log * ((j + 1 : Nat) : Int) =
            ((2 ^ log * (j + 1) : Nat) : Int) := by
          push_cast
          rfl
        rw [cast]
        omega
    · rw [further]
      refine .inr ⟨?_, rfl⟩
      intro m above
      rw [all] at beyond
      rcases Nat.lt_or_ge m (2 ^ log * (j + 1)) with within | past
      · exact rests m above within
      · rcases Nat.lt_or_ge m
          (2 ^ log * wordSize memory.vectors (memory.memberVector set))
          with less | outside
        · exact beyond m past less
        · exact bitAt_beyond outside

/-! ## Where the pad begins -/

section Forward

variable {set : Nat} {memory : Memory log}

/-- The element from which on an iteration counts, once it has left the
bits. -/
structure Lands (set : Nat) (memory : Memory log) (landing : Nat) : Prop where
  beyond : BitVectors.size memory.vectors (memory.memberVector set) ≤ landing
  start : (∀ m, m < BitVectors.size memory.vectors (memory.memberVector set) →
      bitAt memory.vectors (memory.memberVector set) m = false) →
    (fipInitialState set memory).currentElement = landing
  next : ∀ p, p < BitVectors.size memory.vectors (memory.memberVector set) →
    bitAt memory.vectors (memory.memberVector set) p = true →
    (∀ m, p < m →
      m < BitVectors.size memory.vectors (memory.memberVector set) →
      bitAt memory.vectors (memory.memberVector set) m = false) →
    (fipNextState set memory
      (stateAt memory.vectors (memory.memberVector set) p)).currentElement =
      landing

/-- An unused bit that is set is taken for a member. -/
theorem lands_of_set {position : Nat}
    (beyond : BitVectors.size memory.vectors (memory.memberVector set) ≤
      position)
    (isSet : bitAt memory.vectors (memory.memberVector set) position = true)
    (least : ∀ m,
      BitVectors.size memory.vectors (memory.memberVector set) ≤ m →
      m < position →
      bitAt memory.vectors (memory.memberVector set) m = false) :
    Lands set memory position where
  beyond := beyond
  start none := by
    rcases fipInitialState_cases set memory with
      ⟨p, found, before, state⟩ | ⟨clear, -⟩
    · have same : p = position := by
        rcases Nat.lt_trichotomy p position with less | same | more
        · rcases Nat.lt_or_ge p
            (BitVectors.size memory.vectors (memory.memberVector set))
            with within | past
          · rw [none p within] at found
            cases found
          · rw [least p past less] at found
            cases found
        · exact same
        · rw [before position more] at isSet
          cases isSet
      rw [state, same]
      rfl
    · rw [clear position] at isSet
      cases isSet
  next p inside _ none := by
    rcases fipNextState_cases inside with
      ⟨q, low, found, before, state⟩ | ⟨clear, -⟩
    · have same : q = position := by
        rcases Nat.lt_trichotomy q position with less | same | more
        · rcases Nat.lt_or_ge q
            (BitVectors.size memory.vectors (memory.memberVector set))
            with within | past
          · rw [none q low within] at found
            cases found
          · rw [least q past less] at found
            cases found
        · exact same
        · rw [before position (by omega) more] at isSet
          cases isSet
      rw [state, same]
      rfl
    · rw [clear position (by omega)] at isSet
      cases isSet

/-- Without unused bits that are set, a step from the last member goes to the
size. -/
theorem lands_of_members {member : Nat}
    (inside : member < BitVectors.size memory.vectors
      (memory.memberVector set))
    (isSet : bitAt memory.vectors (memory.memberVector set) member = true)
    (unused : ∀ m,
      BitVectors.size memory.vectors (memory.memberVector set) ≤ m →
      bitAt memory.vectors (memory.memberVector set) m = false) :
    Lands set memory
      (BitVectors.size memory.vectors (memory.memberVector set)) where
  beyond := Nat.le_refl _
  start none := by
    rw [none member inside] at isSet
    cases isSet
  next p within _ none := by
    rcases fipNextState_cases within with ⟨q, low, found, -, -⟩ | ⟨-, state⟩
    · rcases Nat.lt_or_ge q
        (BitVectors.size memory.vectors (memory.memberVector set))
        with less | past
      · rw [none q low less] at found
        cases found
      · rw [unused q past] at found
        cases found
    · exact state

/-- Without any bit that is set, an iteration begins past the words. -/
theorem fipInitialState_clear
    (clear : ∀ m, bitAt memory.vectors (memory.memberVector set) m = false) :
    (fipInitialState set memory).currentElement =
      (2 ^ log * wordSize memory.vectors (memory.memberVector set) : Nat) := by
  rcases fipInitialState_cases set memory with
    ⟨p, found, -, -⟩ | ⟨-, state⟩
  · rw [clear p] at found
    cases found
  · rw [state]
    push_cast
    rfl

/-! ## Going forward -/

/-- What an iteration visits: the members within the bits and, if the set is
infinite, all numbers from the landing on. -/
def visited (set : Nat) (memory : Memory log) (landing : Nat) : Set Int :=
  {number | (∃ p, p < BitVectors.size memory.vectors
        (memory.memberVector set) ∧
      bitAt memory.vectors (memory.memberVector set) p = true ∧
      number = (p : Int)) ∨
    (memory.memberVectorPad set = true ∧ (landing : Int) ≤ number)}

/-- A state is at the first member from a number on, or at the landing. -/
def Arrives (set : Nat) (memory : Memory log) (landing first : Nat)
    (state : IterationState log) : Prop :=
  (∃ q, first ≤ q ∧
    q < BitVectors.size memory.vectors (memory.memberVector set) ∧
    bitAt memory.vectors (memory.memberVector set) q = true ∧
    (∀ m, first ≤ m → m < q →
      bitAt memory.vectors (memory.memberVector set) m = false) ∧
    state = stateAt memory.vectors (memory.memberVector set) q) ∨
  ((∀ m, first ≤ m →
      m < BitVectors.size memory.vectors (memory.memberVector set) →
      bitAt memory.vectors (memory.memberVector set) m = false) ∧
    state.currentElement = landing)

theorem Lands.arrives_start {landing : Nat} (lands : Lands set memory landing) :
    Arrives set memory landing 0 (fipInitialState set memory) := by
  by_cases clear : ∀ m,
      m < BitVectors.size memory.vectors (memory.memberVector set) →
      bitAt memory.vectors (memory.memberVector set) m = false
  · exact .inr ⟨fun m _ => clear m, lands.start clear⟩
  · push Not at clear
    obtain ⟨m, inside, isSet⟩ := clear
    rcases fipInitialState_cases set memory with
      ⟨p, found, before, state⟩ | ⟨none, -⟩
    · have le : p ≤ m := by
        by_contra more
        exact isSet (before m (by omega))
      exact .inl ⟨p, Nat.zero_le p, by omega, found,
        fun m _ less => before m less, state⟩
    · exact absurd (none m) isSet

theorem Lands.arrives_next {landing p : Nat} (lands : Lands set memory landing)
    (inside : p < BitVectors.size memory.vectors (memory.memberVector set))
    (here : bitAt memory.vectors (memory.memberVector set) p = true) :
    Arrives set memory landing (p + 1) (fipNextState set memory
      (stateAt memory.vectors (memory.memberVector set) p)) := by
  by_cases clear : ∀ m, p < m →
      m < BitVectors.size memory.vectors (memory.memberVector set) →
      bitAt memory.vectors (memory.memberVector set) m = false
  · exact .inr ⟨clear, lands.next p inside here clear⟩
  · push Not at clear
    obtain ⟨m, low, within, isSet⟩ := clear
    rcases fipNextState_cases inside with
      ⟨q, above, found, before, state⟩ | ⟨none, -⟩
    · have le : q ≤ m := by
        by_contra more
        exact isSet (before m low (by omega))
      exact .inl ⟨q, above, by omega, found, fun m => before m, state⟩
    · exact absurd (none m low) isSet

theorem fipNextState_past {state : IterationState log}
    (past : (BitVectors.size memory.vectors (memory.memberVector set) : Int) ≤
      state.currentElement) :
    (fipNextState set memory state).currentElement =
      state.currentElement + 1 := by
  unfold fipNextState
  dsimp only
  rw [if_pos past]

/-- What holds of every state before the end. -/
def Sits (set : Nat) (memory : Memory log) (landing : Nat)
    (state : IterationState log) : Prop :=
  (landing : Int) ≤ state.currentElement ∨
    ∃ p, p < BitVectors.size memory.vectors (memory.memberVector set) ∧
      bitAt memory.vectors (memory.memberVector set) p = true ∧
      state = stateAt memory.vectors (memory.memberVector set) p

theorem Arrives.sits {landing first : Nat} {state : IterationState log}
    (arrives : Arrives set memory landing first state) :
    Sits set memory landing state := by
  rcases arrives with ⟨q, -, inside, isSet, -, same⟩ | ⟨-, landed⟩
  · exact .inr ⟨q, inside, isSet, same⟩
  · exact .inl (Int.le_of_eq landed.symm)

theorem finished_iff (state : IterationState log) :
    (forwardIterationProtocol set memory).finished state ↔
      memory.memberVectorPad set = false ∧
        (BitVectors.size memory.vectors (memory.memberVector set) : Int) ≤
          state.currentElement := by
  show decide _ = true ↔ _
  rw [decide_eq_true_iff]
  rfl

/-- A state that arrives is not past any member that is left. -/
theorem Arrives.least {landing first : Nat} {state : IterationState log}
    (arrives : Arrives set memory landing first state)
    (beyond : BitVectors.size memory.vectors (memory.memberVector set) ≤
      landing)
    {number : Int} (isVisited : number ∈ visited set memory landing)
    (left : (first : Int) ≤ number) :
    ¬ (forwardIterationProtocol set memory).finished state ∧
      state.currentElement ≤ number := by
  rw [finished_iff]
  rcases arrives with ⟨q, -, inside, isSet, before, same⟩ | ⟨clear, landed⟩
  · have element : state.currentElement = q := by rw [same]; rfl
    rw [element]
    refine ⟨fun ended => by omega, ?_⟩
    rcases isVisited with ⟨p, -, found, rfl⟩ | ⟨-, past⟩
    · by_contra less
      rw [before p (by omega) (by omega)] at found
      cases found
    · omega
  · rcases isVisited with ⟨p, within, found, rfl⟩ | ⟨infinite, past⟩
    · rw [clear p (by omega) within] at found
      cases found
    · rw [landed, infinite]
      exact ⟨fun ended => Bool.noConfusion ended.1, past⟩

/-- A forward iteration visits the members within the bits in ascending order,
and then all numbers from the landing on. -/
theorem forward_ascends {landing : Nat} (lands : Lands set memory landing) :
    Ascends (forwardIterationProtocol set memory) (visited set memory landing)
      (Sits set memory landing) where
  start := lands.arrives_start.sits
  keeps state sits goesOn := by
    rcases sits with past | ⟨p, inside, isSet, rfl⟩
    · have beyond := lands.beyond
      refine .inl ?_
      show _ ≤ (fipNextState set memory state).currentElement
      rw [fipNextState_past (by omega)]
      omega
    · exact (lands.arrives_next inside isSet).sits
  member state sits goesOn := by
    rw [finished_iff] at goesOn
    rcases sits with past | ⟨p, inside, isSet, rfl⟩
    · refine .inr ⟨?_, past⟩
      have := lands.beyond
      by_contra finite
      exact goesOn ⟨by simpa using finite, by omega⟩
    · exact .inl ⟨p, inside, isSet, rfl⟩
  first number isVisited := by
    refine lands.arrives_start.least lands.beyond isVisited ?_
    rcases isVisited with ⟨p, -, -, rfl⟩ | ⟨-, past⟩ <;> omega
  least state sits goesOn number isVisited less := by
    have beyond := lands.beyond
    rw [finished_iff] at goesOn
    rcases sits with past | ⟨p, inside, isSet, rfl⟩
    · have infinite : memory.memberVectorPad set ≠ false :=
        fun finite => goesOn ⟨finite, by omega⟩
      rw [finished_iff]
      refine ⟨fun ended => infinite ended.1, ?_⟩
      show (fipNextState set memory state).currentElement ≤ number
      rw [fipNextState_past (by omega)]
      exact less
    · exact (lands.arrives_next inside isSet).least beyond isVisited less
  grows state sits goesOn _ := by
    have beyond := lands.beyond
    show state.currentElement < (fipNextState set memory state).currentElement
    rcases sits with past | ⟨p, inside, isSet, rfl⟩
    · rw [fipNextState_past (by omega)]
      omega
    · show (p : Int) < _
      rcases lands.arrives_next inside isSet with
        ⟨q, low, -, -, -, same⟩ | ⟨-, landed⟩
      · rw [same]
        show (p : Int) < q
        omega
      · rw [landed]
        omega

/-- The members of a set, as integers. -/
def members (memory : Memory log) (set : Nat) : Set Int :=
  {number | ∃ n ∈ elements memory set, number = (n : Int)}

theorem mem_members (number : Int) :
    number ∈ members memory set ↔
      (∃ p, p < BitVectors.size memory.vectors (memory.memberVector set) ∧
        bitAt memory.vectors (memory.memberVector set) p = true ∧
        number = (p : Int)) ∨
      (memory.memberVectorPad set = true ∧
        (BitVectors.size memory.vectors (memory.memberVector set) : Int) ≤
          number) := by
  constructor
  · rintro ⟨n, isElement, rfl⟩
    have padded : paddedBit memory.vectors (memory.memberVector set)
      (memory.memberVectorPad set) n = true := isElement
    rcases Nat.lt_or_ge n
      (BitVectors.size memory.vectors (memory.memberVector set))
      with inside | outside
    · rw [paddedBit_inside inside] at padded
      exact .inl ⟨n, inside, padded, rfl⟩
    · rw [paddedBit_outside outside] at padded
      exact .inr ⟨padded, by omega⟩
  · rintro (⟨p, inside, isSet, rfl⟩ | ⟨infinite, past⟩)
    · refine ⟨p, ?_, rfl⟩
      show paddedBit _ _ _ _ = true
      rw [paddedBit_inside inside]
      exact isSet
    · refine ⟨number.toNat, ?_, by omega⟩
      show paddedBit _ _ _ _ = true
      rw [paddedBit_outside (by omega)]
      exact infinite

/-- A finite set is visited as it is. -/
theorem visited_eq_of_finite (finite : memory.memberVectorPad set = false)
    (landing : Nat) : visited set memory landing = members memory set := by
  ext number
  rw [mem_members]
  show (_ ∨ _) ↔ _
  simp [finite]

/-- An infinite set is visited as it is only if the landing is its size. -/
theorem visited_eq_iff {landing : Nat}
    (infinite : memory.memberVectorPad set = true)
    (beyond : BitVectors.size memory.vectors (memory.memberVector set) ≤
      landing) :
    visited set memory landing = members memory set ↔
      landing = BitVectors.size memory.vectors (memory.memberVector set) := by
  constructor
  · intro same
    have isMember : (BitVectors.size memory.vectors
        (memory.memberVector set) : Int) ∈ members memory set :=
      (mem_members _).mpr (.inr ⟨infinite, Int.le_refl _⟩)
    rw [← same] at isMember
    rcases isMember with ⟨p, inside, -, equal⟩ | ⟨-, past⟩
    · omega
    · omega
  · rintro rfl
    ext number
    rw [mem_members]
    rfl

/-- Where an infinite set is left at its size: it has no unused bits, or the
first of them is set, or it has members within its bits and no unused bit is
set. -/
def LeavesAtSize (set : Nat) (memory : Memory log) : Prop :=
  BitVectors.size memory.vectors (memory.memberVector set) =
      2 ^ log * wordSize memory.vectors (memory.memberVector set) ∨
    bitAt memory.vectors (memory.memberVector set)
      (BitVectors.size memory.vectors (memory.memberVector set)) = true ∨
    ((∃ p, p < BitVectors.size memory.vectors (memory.memberVector set) ∧
      bitAt memory.vectors (memory.memberVector set) p = true) ∧
    ∀ p, BitVectors.size memory.vectors (memory.memberVector set) ≤ p →
      bitAt memory.vectors (memory.memberVector set) p = false)

/-- Every set has a landing, which is the size only under one condition. -/
theorem exists_lands (set : Nat) (memory : Memory log) :
    ∃ landing, Lands set memory landing ∧
      (landing = BitVectors.size memory.vectors (memory.memberVector set) ↔
        LeavesAtSize set memory) := by
  classical
  have bounded := size_le_words memory.vectors (memory.memberVector set)
  by_cases unused : ∃ p,
      BitVectors.size memory.vectors (memory.memberVector set) ≤ p ∧
      bitAt memory.vectors (memory.memberVector set) p = true
  · obtain ⟨past, isSet⟩ := Nat.find_spec unused
    have least := fun m => @Nat.find_min _ _ unused m
    generalize Nat.find unused = first at *
    have clear : ∀ m,
        BitVectors.size memory.vectors (memory.memberVector set) ≤ m →
        m < first →
        bitAt memory.vectors (memory.memberVector set) m = false := by
      intro m low less
      by_contra found
      exact least m less ⟨low, by simpa using found⟩
    refine ⟨first, lands_of_set past isSet clear, ?_⟩
    constructor
    · rintro rfl
      exact .inr (.inl isSet)
    · rintro (full | begins | ⟨-, none⟩)
      · have within := lt_words_of_bitAt isSet
        omega
      · by_contra more
        exact least _ (by omega) ⟨Nat.le_refl _, begins⟩
      · rw [none first past] at isSet
        cases isSet
  · push Not at unused
    have clear : ∀ p,
        BitVectors.size memory.vectors (memory.memberVector set) ≤ p →
        bitAt memory.vectors (memory.memberVector set) p = false :=
      fun p past => by simpa using unused p past
    by_cases some : ∃ p,
        p < BitVectors.size memory.vectors (memory.memberVector set) ∧
        bitAt memory.vectors (memory.memberVector set) p = true
    · obtain ⟨p, inside, isSet⟩ := some
      exact ⟨_, lands_of_members inside isSet clear,
        fun _ => .inr (.inr ⟨⟨p, inside, isSet⟩, clear⟩), fun _ => rfl⟩
    · push Not at some
      have none : ∀ p, bitAt memory.vectors (memory.memberVector set) p =
          false := by
        intro p
        rcases Nat.lt_or_ge p
          (BitVectors.size memory.vectors (memory.memberVector set))
          with inside | past
        · simpa using some p inside
        · exact clear p past
      refine ⟨2 ^ log * wordSize memory.vectors (memory.memberVector set),
        ⟨bounded, fun _ => fipInitialState_clear none, ?_⟩, ?_⟩
      · intro p _ isSet
        rw [none p] at isSet
        cases isSet
      · constructor
        · exact fun full => .inl full.symm
        · rintro (full | begins | ⟨⟨p, -, found⟩, -⟩)
          · exact full.symm
          · rw [none] at begins
            cases begins
          · rw [none p] at found
            cases found

/-- The forward iteration enumerates every finite set, and an infinite one only
if it is left at its size. -/
theorem forward_enumerates_iff (set : Nat) (memory : Memory log) :
    Enumerates (forwardIterationProtocol set memory) (· < ·)
        (members memory set) ↔
      (memory.memberVectorPad set = false ∨ LeavesAtSize set memory) := by
  obtain ⟨landing, lands, atSize⟩ := exists_lands set memory
  rw [(forward_ascends lands).enumerates.iff_eq]
  cases pad : memory.memberVectorPad set with
  | false => exact ⟨fun _ => .inl rfl, fun _ => visited_eq_of_finite pad landing⟩
  | true =>
      rw [visited_eq_iff pad lands.beyond, atSize]
      exact ⟨.inr, fun holds => holds.resolve_left Bool.noConfusion⟩

end Forward

/-! ## The loops that go backward -/

/-- A word that has been rotated until the bit at an offset is the lowest. -/
def Rotated (original : Word log) (offset : Nat) (word : Word log) : Prop :=
  ∀ m, m < 2 ^ log →
    word.getLsbD m = original.getLsbD ((m + offset) % 2 ^ log)

theorem Rotated.whole (original : Word log) :
    Rotated original (2 ^ log) original := by
  intro m inside
  rw [Nat.add_mod_right, Nat.mod_eq_of_lt inside]

theorem Rotated.step {original word : Word log} {offset : Nat}
    (rotated : Rotated original (offset + 1) word) :
    Rotated original offset (word.rotateLeft 1) := by
  intro m inside
  rw [BitVec.getLsbD_rotateLeft]
  rcases Nat.lt_or_ge 1 (2 ^ log) with wide | narrow
  · rw [Nat.mod_eq_of_lt wide]
    cases m with
    | zero =>
        have wrapped : 2 ^ log - 1 + 0 + (offset + 1) = offset + 2 ^ log := by
          omega
        show word.getLsbD (2 ^ log - 1 + 0) = _
        rw [rotated _ (by omega), wrapped, Nat.add_mod_right, Nat.zero_add]
    | succ m =>
        have index : m + (offset + 1) = m + 1 + offset := by omega
        have past : decide (m + 1 < 1) = false := by simp
        rw [past, decide_eq_true inside]
        show word.getLsbD (m + 1 - 1) = _
        rw [Nat.add_sub_cancel, rotated m (by omega), index]
  · have one : 2 ^ log = 1 := by
      have := Nat.two_pow_pos log
      omega
    have all : ∀ index : Nat, index % 2 ^ log = 0 := by
      intro index
      rw [one]
      exact Nat.mod_one index
    have zero : m = 0 := by omega
    rw [all, all, zero]
    show (decide (0 < 2 ^ log) && word.getLsbD 0) = _
    rw [rotated 0 (by omega), all, decide_eq_true (by omega), Bool.true_and]

theorem Rotated.lowBit {original word : Word log} {offset : Nat}
    (rotated : Rotated original offset word) (inside : offset < 2 ^ log) :
    word.getLsbD 0 = original.getLsbD offset := by
  rw [rotated 0 (Nat.two_pow_pos log), Nat.zero_add, Nat.mod_eq_of_lt inside]

/-- The loop over the bits of a word finds the last one that is set. -/
theorem scanBitsDown_cases {original : Word log} (i : Nat) {word : Word log}
    (element : Int) (bounded : i ≤ 2 ^ log)
    (rotated : Rotated original i word) :
    (∃ k found, k < i ∧ original.getLsbD k = true ∧
      (∀ m, k < m → m < i → original.getLsbD m = false) ∧
      Rotated original k found ∧
      scanBitsDown i word element =
        (some (k, found), element - ((i : Int) - k))) ∨
    ((∀ m, m < i → original.getLsbD m = false) ∧
      scanBitsDown i word element = (none, element - i)) := by
  induction i generalizing word element with
  | zero =>
      refine .inr ⟨fun m less => absurd less (Nat.not_lt_zero m), ?_⟩
      rw [scanBitsDown]
      simp
  | succ i inductionHypothesis =>
      have next := rotated.step
      have low := next.lowBit (by omega)
      rw [scanBitsDown]
      by_cases set : original.getLsbD i = true
      · rw [if_pos ((lowBit_iff _).mpr (low.trans set))]
        refine .inl ⟨i, _, by omega, set, fun m above below => by omega, next,
          ?_⟩
        have passed : element - (((i + 1 : Nat) : Int) - i) = element - 1 := by
          omega
        rw [passed]
      · have clear : original.getLsbD i = false := by simpa using set
        rw [if_neg fun isLow => set (low.symm.trans ((lowBit_iff _).mp isLow))]
        rcases inductionHypothesis (element - 1) (by omega) next with
          ⟨k, found, less, isSet, before, last, scanned⟩ | ⟨none, scanned⟩
        · refine .inl ⟨k, found, by omega, isSet, ?_, last, ?_⟩
          · intro m above below
            rcases Nat.lt_or_ge m i with within | here
            · exact before m above within
            · have same : m = i := by omega
              rw [same, clear]
          · have passed : element - (((i + 1 : Nat) : Int) - k) =
                element - 1 - ((i : Int) - k) := by omega
            rw [scanned, passed]
        · refine .inr ⟨?_, ?_⟩
          · intro m below
            rcases Nat.lt_or_ge m i with within | here
            · exact none m within
            · have same : m = i := by omega
              rw [same, clear]
          · have passed : element - ((i + 1 : Nat) : Int) =
                element - 1 - i := by omega
            rw [scanned, passed]

/-- The word of a bit, rotated so that the bit is the lowest. -/
def RotatedAt (vectors : Vectors log) (vector position : Nat)
    (word : Word log) : Prop :=
  Rotated (wordAt vectors vector (computeWordOffset log position))
    (computeBitOffset log position) word

/-- The loop over words finds the last bit that is set. -/
theorem scanWordsDown_cases (vectors : Vectors log) (vector j : Nat)
    (element : Int) :
    (∃ p word, p < 2 ^ log * j ∧ bitAt vectors vector p = true ∧
      (∀ m, p < m → m < 2 ^ log * j → bitAt vectors vector m = false) ∧
      RotatedAt vectors vector p word ∧
      scanWordsDown vectors vector j element =
        (some (computeWordOffset log p, computeBitOffset log p, word),
          element - (2 ^ log * j - p))) ∨
    ((∀ m, m < 2 ^ log * j → bitAt vectors vector m = false) ∧
      scanWordsDown vectors vector j element =
        (none, element - 2 ^ log * j)) := by
  induction j generalizing element with
  | zero =>
      refine .inr ⟨fun m less => by simp at less, ?_⟩
      rw [scanWordsDown]
      simp
  | succ j inductionHypothesis =>
      have next := Nat.mul_add_one (2 ^ log) j
      have positive := Nat.two_pow_pos log
      have split : ∀ m, 2 ^ log * j ≤ m → m < 2 ^ log * (j + 1) →
          ∃ k, k < 2 ^ log ∧ m = 2 ^ log * j + k := by
        intro m low high
        exact ⟨m - 2 ^ log * j, by omega, by omega⟩
      rw [scanWordsDown]
      rcases scanBitsDown_cases (2 ^ log) element (Nat.le_refl _)
        (Rotated.whole (wordAt vectors vector j)) with
        ⟨k, word, less, isSet, before, last, scanned⟩ | ⟨none, scanned⟩
      · obtain ⟨words, bits⟩ := @offsets_of_position log j k less
        refine .inl ⟨2 ^ log * j + k, word, by omega, ?_, ?_, ?_, ?_⟩
        · rw [bitAt_position _ _ less, isSet]
        · intro m above below
          obtain ⟨bit, inside, rfl⟩ := split m (by omega) below
          rw [bitAt_position _ _ inside, before bit (by omega) inside]
        · rw [RotatedAt, words, bits]
          exact last
        · have passed : element - (((2 ^ log : Nat) : Int) - k) = element -
              (2 ^ log * ((j + 1 : Nat) : Int) - ((2 ^ log * j + k : Nat) : Int))
              := by
            push_cast
            rw [mul_add]
            omega
          rw [scanned, words, bits, passed]
      · have here : ∀ m, 2 ^ log * j ≤ m → m < 2 ^ log * (j + 1) →
            bitAt vectors vector m = false := by
          intro m low high
          obtain ⟨bit, inside, rfl⟩ := split m low high
          rw [bitAt_position _ _ inside, none bit inside]
        rw [scanned]
        rcases inductionHypothesis (element - ((2 ^ log : Nat) : Int)) with
          ⟨p, word, less, isSet, before, last, further⟩ | ⟨rest, further⟩
        · refine .inl ⟨p, word, by omega, isSet, ?_, last, ?_⟩
          · intro m above below
            rcases Nat.lt_or_ge m (2 ^ log * j) with within | past
            · exact before m above within
            · exact here m past below
          · have passed : element - ((2 ^ log : Nat) : Int) -
                (2 ^ log * j - p) =
                element - (2 ^ log * ((j + 1 : Nat) : Int) - p) := by
              push_cast
              rw [mul_add]
              omega
            rw [← passed]
            exact further
        · refine .inr ⟨?_, ?_⟩
          · intro m below
            rcases Nat.lt_or_ge m (2 ^ log * j) with within | past
            · exact rest m within
            · exact here m past below
          · have passed : element - ((2 ^ log : Nat) : Int) - 2 ^ log * j =
                element - 2 ^ log * ((j + 1 : Nat) : Int) := by
              push_cast
              rw [mul_add]
              omega
            rw [← passed]
            exact further

/-! ## Going backward -/

section Backward

variable {set : Nat} {memory : Memory log}

/-- A state is at a bit that is set. -/
structure DownAt (set : Nat) (memory : Memory log) (position : Nat)
    (state : IterationState log) : Prop where
  isSet : bitAt memory.vectors (memory.memberVector set) position = true
  wordOffset : state.wordOffset = computeWordOffset log position
  bitOffset : state.bitOffset = computeBitOffset log position
  element : state.currentElement = position
  word : RotatedAt memory.vectors (memory.memberVector set) position
    state.currentWord

/-- A state is at the last bit below a bound that is set, or at the end. -/
def ArrivesDown (set : Nat) (memory : Memory log) (bound : Nat)
    (state : IterationState log) : Prop :=
  (∃ p, p < bound ∧
    (∀ m, p < m → m < bound →
      bitAt memory.vectors (memory.memberVector set) m = false) ∧
    DownAt set memory p state) ∨
  ((∀ m, m < bound →
      bitAt memory.vectors (memory.memberVector set) m = false) ∧
    state.currentElement = -1)

theorem bipInitialState_arrives :
    ArrivesDown set memory
      (2 ^ log * wordSize memory.vectors (memory.memberVector set))
      (bipInitialState set memory) := by
  unfold bipInitialState
  dsimp only
  rcases scanWordsDown_cases memory.vectors (memory.memberVector set)
    (wordSize memory.vectors (memory.memberVector set)) 0 with
    ⟨p, word, less, isSet, before, last, scanned⟩ | ⟨none, scanned⟩
  · rw [scanned]
    refine .inl ⟨p, less, before, isSet, rfl, rfl, ?_, last⟩
    have sum := offsets_add log p
    show (computeWordOffset log p : Int) * 2 ^ log + computeBitOffset log p = p
    rw [mul_comm]
    exact_mod_cast sum
  · rw [scanned]
    exact .inr ⟨none, by simp [IterationState.make]⟩

/-- The next state is at the bit that is set before. -/
theorem bipNextState_arrives {position : Nat} {state : IterationState log}
    (down : DownAt set memory position state) :
    ArrivesDown set memory position (bipNextState set memory state) := by
  obtain ⟨j, b, small, rfl⟩ := exists_position log position
  obtain ⟨words, bits⟩ := @offsets_of_position log j b small
  have bitOffset : state.bitOffset.toNat = b := by
    rw [down.bitOffset, bits]
    exact Int.toNat_natCast b
  have wordOffset : state.wordOffset.toNat = j := by
    rw [down.wordOffset, words]
    exact Int.toNat_natCast j
  have rotated := down.word
  rw [RotatedAt, words, bits] at rotated
  have split : ∀ m, 2 ^ log * j ≤ m → m < 2 ^ log * j + b →
      ∃ k, k < b ∧ m = 2 ^ log * j + k := by
    intro m low high
    exact ⟨m - 2 ^ log * j, by omega, by omega⟩
  unfold bipNextState
  rw [bitOffset, wordOffset]
  rcases scanBitsDown_cases b state.currentElement small.le rotated with
    ⟨k, word, less, isSet, before, last, scanned⟩ | ⟨none, scanned⟩
  · have inside : k < 2 ^ log := by omega
    obtain ⟨words', bits'⟩ := @offsets_of_position log j k inside
    rw [scanned]
    refine .inl ⟨2 ^ log * j + k, by omega, ?_, ?_, ?_, ?_, ?_, ?_⟩
    · intro m above below
      obtain ⟨bit, within, rfl⟩ := split m (by omega) below
      rw [bitAt_position _ _ (by omega), before bit (by omega) within]
    · rw [bitAt_position _ _ inside, isSet]
    · show state.wordOffset = _
      rw [down.wordOffset, words, words']
    · show (k : Int) = _
      rw [bits']
    · show state.currentElement - ((b : Int) - k) = _
      rw [down.element]
      push_cast
      omega
    · rw [RotatedAt, words', bits']
      exact last
  · have here : ∀ m, 2 ^ log * j ≤ m → m < 2 ^ log * j + b →
        bitAt memory.vectors (memory.memberVector set) m = false := by
      intro m low high
      obtain ⟨bit, within, rfl⟩ := split m low high
      rw [bitAt_position _ _ (by omega), none bit within]
    rw [scanned]
    dsimp only
    rcases scanWordsDown_cases memory.vectors (memory.memberVector set) j
      (state.currentElement - b) with
      ⟨p, word, less, isSet, before, last, further⟩ | ⟨rest, further⟩
    · rw [further]
      refine .inl ⟨p, by omega, ?_, isSet, rfl, rfl, ?_, last⟩
      · intro m above below
        rcases Nat.lt_or_ge m (2 ^ log * j) with within | past
        · exact before m above within
        · exact here m past below
      · show state.currentElement - b - (2 ^ log * (j : Int) - p) = p
        rw [down.element]
        push_cast
        omega
    · rw [further]
      refine .inr ⟨?_, rfl⟩
      intro m below
      rcases Nat.lt_or_ge m (2 ^ log * j) with within | past
      · exact rest m within
      · exact here m past below

/-- All bits of the words that are set, also those past the size. -/
def allSet (set : Nat) (memory : Memory log) : Set Int :=
  {number | ∃ p : Nat,
    bitAt memory.vectors (memory.memberVector set) p = true ∧ number = p}

theorem finishedDown_iff (set : Nat) (memory : Memory log)
    (state : IterationState log) :
    (backwardIteration set memory).opposite.finished state ↔
      state.currentElement < 0 := by
  show decide _ = true ↔ _
  rw [decide_eq_true_iff]

/-- A state that arrives is not before any bit that is left. -/
theorem ArrivesDown.greatest {bound : Nat} {state : IterationState log}
    (arrives : ArrivesDown set memory bound state) {p : Nat}
    (isSet : bitAt memory.vectors (memory.memberVector set) p = true)
    (left : p < bound) :
    ¬ state.currentElement < 0 ∧ (p : Int) ≤ state.currentElement := by
  rcases arrives with ⟨q, -, before, down⟩ | ⟨clear, -⟩
  · rw [down.element]
    refine ⟨by omega, ?_⟩
    by_contra more
    rw [before p (by omega) left] at isSet
    cases isSet
  · rw [clear p left] at isSet
    cases isSet

/-- What holds of every state of a backward iteration. -/
def SitsDown (set : Nat) (memory : Memory log) (state : IterationState log) :
    Prop :=
  state.currentElement = -1 ∨ ∃ p, DownAt set memory p state

theorem ArrivesDown.sits {bound : Nat} {state : IterationState log}
    (arrives : ArrivesDown set memory bound state) :
    SitsDown set memory state := by
  rcases arrives with ⟨p, -, -, down⟩ | ⟨-, ended⟩
  · exact .inr ⟨p, down⟩
  · exact .inl ended

/-- A backward iteration visits all bits that are set in descending order. -/
theorem backward_ascends :
    Ascends (backwardIteration set memory).opposite
      (Neg.neg '' allSet set memory) (SitsDown set memory) where
  start := bipInitialState_arrives.sits
  keeps state sits goesOn := by
    rcases sits with ended | ⟨p, down⟩
    · exact absurd ((finishedDown_iff set memory state).mpr (by omega)) goesOn
    · exact (bipNextState_arrives down).sits
  member state sits goesOn := by
    rcases sits with ended | ⟨p, down⟩
    · exact absurd ((finishedDown_iff set memory state).mpr (by omega)) goesOn
    · refine ⟨p, ⟨p, down.isSet, rfl⟩, ?_⟩
      show -(p : Int) = -state.currentElement
      rw [down.element]
  first number isMember := by
    obtain ⟨_, ⟨p, isSet, rfl⟩, rfl⟩ := isMember
    obtain ⟨goesOn, le⟩ :=
      bipInitialState_arrives.greatest isSet (lt_words_of_bitAt isSet)
    exact ⟨fun ended => goesOn ((finishedDown_iff set memory _).mp ended),
      Int.neg_le_neg le⟩
  least state sits goesOn number isMember less := by
    obtain ⟨_, ⟨p, isSet, rfl⟩, rfl⟩ := isMember
    rcases sits with ended | ⟨q, down⟩
    · exact absurd ((finishedDown_iff set memory state).mpr (by omega)) goesOn
    · have below : (p : Int) < state.currentElement := Int.neg_lt_neg_iff.mp less
      rw [down.element] at below
      obtain ⟨nextGoesOn, le⟩ :=
        (bipNextState_arrives down).greatest isSet (by omega)
      exact ⟨fun ended => nextGoesOn ((finishedDown_iff set memory _).mp ended),
        Int.neg_le_neg le⟩
  grows state sits goesOn nextGoesOn := by
    rcases sits with ended | ⟨q, down⟩
    · exact absurd ((finishedDown_iff set memory state).mpr (by omega)) goesOn
    · refine Int.neg_lt_neg ?_
      show (bipNextState set memory state).currentElement < state.currentElement
      rw [down.element]
      rcases bipNextState_arrives down with ⟨p, less, -, next⟩ | ⟨-, ended⟩
      · rw [next.element]
        omega
      · omega

/-- The backward iteration enumerates a finite set only if no unused bit is
set. -/
theorem backward_enumerates_iff (finite : memory.memberVectorPad set = false) :
    Enumerates (backwardIteration set memory) (· > ·) (members memory set) ↔
      ∀ p, BitVectors.size memory.vectors (memory.memberVector set) ≤ p →
        bitAt memory.vectors (memory.memberVector set) p = false := by
  rw [(Enumerates.of_opposite backward_ascends.enumerates).iff_eq]
  constructor
  · intro same p past
    by_contra found
    have isSet : bitAt memory.vectors (memory.memberVector set) p = true := by
      simpa using found
    have isMember : (p : Int) ∈ members memory set := by
      rw [← same]
      exact ⟨p, isSet, rfl⟩
    rcases (mem_members _).mp isMember with ⟨q, inside, -, equal⟩ | ⟨pad, -⟩
    · omega
    · rw [finite] at pad
      cases pad
  · intro clear
    ext number
    rw [mem_members]
    constructor
    · rintro ⟨p, isSet, rfl⟩
      refine .inl ⟨p, ?_, isSet, rfl⟩
      by_contra past
      rw [clear p (Nat.le_of_not_lt past)] at isSet
      cases isSet
    · rintro (⟨p, -, isSet, rfl⟩ | ⟨pad, -⟩)
      · exact ⟨p, isSet, rfl⟩
      · rw [finite] at pad
        cases pad

end Backward

/-! ## Both protocols -/

/-- The forward iteration enumerates the members in ascending order and, if the
set is finite, the backward iteration enumerates them in descending order. -/
def Iterates (set : Nat) (memory : Memory log) : Prop :=
  Enumerates (forwardIterationProtocol set memory) (· < ·)
      (members memory set) ∧
    (memory.memberVectorPad set = false →
      ∃ iteration, backwardIterationProtocol set memory = .ok iteration ∧
        Enumerates iteration (· > ·) (members memory set))

/-- No unused bit of the last word is set. -/
def UnusedBitsClear (set : Nat) (memory : Memory log) : Prop :=
  ∀ p, BitVectors.size memory.vectors (memory.memberVector set) ≤ p →
    bitAt memory.vectors (memory.memberVector set) p = false

/-- A finite set is iterated over if its unused bits are clear, and an infinite
one if its iteration leaves the bits at their size. -/
theorem iterates_iff (set : Nat) (memory : Memory log) :
    Iterates set memory ↔
      if memory.memberVectorPad set = true then LeavesAtSize set memory
      else UnusedBitsClear set memory := by
  unfold Iterates
  rw [forward_enumerates_iff]
  cases pad : memory.memberVectorPad set with
  | true =>
      rw [if_pos rfl]
      exact ⟨fun both => both.1.resolve_left Bool.noConfusion,
        fun leaves => ⟨.inr leaves, fun finite => Bool.noConfusion finite⟩⟩
  | false =>
      have given : backwardIterationProtocol set memory =
          .ok (backwardIteration set memory) := by
        unfold backwardIterationProtocol
        rw [if_neg (by rw [pad]; exact Bool.noConfusion)]
      rw [if_neg Bool.noConfusion, given]
      constructor
      · rintro ⟨-, backward⟩
        obtain ⟨iteration, same, enumerates⟩ := backward rfl
        cases same
        exact (backward_enumerates_iff pad).mp enumerates
      · intro clear
        exact ⟨.inl rfl, fun _ => ⟨_, rfl,
          (backward_enumerates_iff pad).mpr clear⟩⟩

/-- All numbers from five on, and the set of two with an unused bit that is
set. -/
def fromFive : Memory 6 where
  vectors := [⟨5, [0], rfl⟩, ⟨5, [BitVec.ofNat 64 (2 ^ 60 + 4)], rfl⟩]
  sets := [⟨true, 0⟩, ⟨false, 1⟩]

/-- The iteration over all numbers from five on begins with the number of bits
in a word, and the iteration backward over a finite set with an unused bit. -/
theorem not_iterates_fromFive :
    ¬ Iterates 0 fromFive ∧ ¬ Iterates 1 fromFive ∧
      (fipInitialState 0 fromFive).currentElement = 64 ∧
      (bipInitialState 1 fromFive).currentElement = 60 := by
  have infinite : ¬ LeavesAtSize 0 fromFive := by
    rintro (full | begins | ⟨⟨p, inside, isSet⟩, -⟩)
    · exact absurd full (by decide)
    · exact absurd begins (by decide)
    · have none : ∀ p, p < 5 → bitAt fromFive.vectors 0 p = false := by decide
      exact Bool.noConfusion ((none p inside).symm.trans isSet)
  have finite : ¬ UnusedBitsClear 1 fromFive :=
    fun clear => absurd (clear 60 (by decide)) (by decide)
  refine ⟨?_, ?_, by decide +kernel, by decide +kernel⟩
  · rintro ⟨forward, -⟩
    rw [forward_enumerates_iff] at forward
    exact infinite (forward.resolve_left (by decide))
  · rintro ⟨-, backward⟩
    obtain ⟨iteration, same, enumerates⟩ := backward rfl
    cases same
    exact finite ((backward_enumerates_iff rfl).mp enumerates)

end OpenDylan.Collections.BitSets
