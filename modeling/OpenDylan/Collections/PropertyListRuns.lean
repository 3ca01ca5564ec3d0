import OpenDylan.Collections.PropertyLists
import OpenDylan.Lib.PairList

/-!
# Runs of operations on property lists

A property list stands for its entries.  Reading and storing do the same to the
entries in every representation.  Removing does not: a list loses the first
entry of the indicator, whose value is the answer, and a vector loses all of
its entries, and the value of the last one is the answer.  So the three
representations go on together as long as no indicator is removed that has
more than one entry.
-/

namespace OpenDylan.Collections.PropertyLists

open OpenDylan.Lib.Chain

variable {Object : Type}

/-! ## Entries -/

/-- The indicators and values of entries, one after the other. -/
def plistOf : List (Object × Object) → List Object
  | [] => []
  | (indicator, value) :: entries => indicator :: value :: plistOf entries

@[simp]
theorem plistOf_length (entries : List (Object × Object)) :
    (plistOf entries).length = 2 * entries.length := by
  induction entries with
  | nil => rfl
  | cons entry entries ih =>
      rw [plistOf, List.length_cons, List.length_cons, ih, List.length_cons]
      omega

@[simp]
theorem plistOf_append (front back : List (Object × Object)) :
    plistOf (front ++ back) = plistOf front ++ plistOf back := by
  induction front with
  | nil => rfl
  | cons entry front ih => simp [plistOf, ih]

/-- The entries that a sequence of even length consists of. -/
def entriesOf : List Object → List (Object × Object)
  | indicator :: value :: rest => (indicator, value) :: entriesOf rest
  | _ => []

theorem plistOf_entriesOf :
    ∀ sequence : List Object, sequence.length % 2 = 0 →
      plistOf (entriesOf sequence) = sequence
  | [], _ => rfl
  | [_], odd => by simp at odd
  | indicator :: value :: rest, even => by
      have shorter : rest.length % 2 = 0 := by
        simp only [List.length_cons] at even
        omega
      rw [entriesOf, plistOf, plistOf_entriesOf rest shorter]

section Specification

variable [DecidableEq Object]

/-- The value of the first entry of an indicator, or the default. -/
def firstValue (indicator default : Object) :
    List (Object × Object) → Object
  | [] => default
  | entry :: entries =>
      if entry.1 = indicator then entry.2
      else firstValue indicator default entries

/-- The value of the last entry of an indicator, or the default. -/
def lastValue (indicator : Object) :
    Object → List (Object × Object) → Object
  | default, [] => default
  | default, entry :: entries =>
      lastValue indicator
        (if entry.1 = indicator then entry.2 else default) entries

/-- The first entry of an indicator gets a value, or there is a new entry. -/
def stored (indicator value : Object) :
    List (Object × Object) → List (Object × Object)
  | [] => [(indicator, value)]
  | entry :: entries =>
      if entry.1 = indicator then (entry.1, value) :: entries
      else entry :: stored indicator value entries

/-- The entries of all other indicators. -/
def others (indicator : Object) (entries : List (Object × Object)) :
    List (Object × Object) :=
  entries.filter fun entry => entry.1 ≠ indicator

/-- The entries without the first one of an indicator. -/
def withoutFirst (indicator : Object) (entries : List (Object × Object)) :
    List (Object × Object) :=
  entries.eraseP fun entry => entry.1 = indicator

/-- The number of the entries of an indicator. -/
def multiplicity (indicator : Object) (entries : List (Object × Object)) :
    Nat :=
  entries.countP fun entry => entry.1 = indicator

/-- What an operation is for: its answer, and the entries after it. -/
def meaning (false : Object) (entries : List (Object × Object)) :
    Operation Object → Option Object × List (Object × Object)
  | .getProperty indicator default =>
      (some (firstValue indicator default entries), entries)
  | .putProperty indicator value => (none, stored indicator value entries)
  | .removeProperty indicator =>
      (some (firstValue indicator false entries), others indicator entries)

/-- What a run of operations is for. -/
def meanings (false : Object) :
    List (Object × Object) → List (Operation Object) →
      List (Option Object) × List (Object × Object)
  | entries, [] => ([], entries)
  | entries, operation :: operations =>
      let (answer, entries) := meaning false entries operation
      let (answers, entries) := meanings false entries operations
      (answer :: answers, entries)

/-- An operation removes no indicator that has more than one entry. -/
def RemovesSingle (entries : List (Object × Object)) :
    Operation Object → Prop
  | .removeProperty indicator => multiplicity indicator entries ≤ 1
  | _ => True

/-- No operation of a run removes an indicator that has more than one entry
at that time. -/
def AllRemoveSingle (false : Object) :
    List (Object × Object) → List (Operation Object) → Prop
  | _, [] => True
  | entries, operation :: operations =>
      RemovesSingle entries operation ∧
        AllRemoveSingle false (meaning false entries operation).2 operations

theorem others_cons_same {indicator : Object} {entry : Object × Object}
    (same : entry.1 = indicator) (entries : List (Object × Object)) :
    others indicator (entry :: entries) = others indicator entries :=
  List.filter_cons_of_neg (by simpa using same)

theorem others_cons_other {indicator : Object} {entry : Object × Object}
    (different : ¬ entry.1 = indicator) (entries : List (Object × Object)) :
    others indicator (entry :: entries) =
      entry :: others indicator entries :=
  List.filter_cons_of_pos (by simpa using different)

/-- After the entries of an indicator are gone, the default is the answer. -/
theorem firstValue_others (indicator default : Object)
    (entries : List (Object × Object)) :
    firstValue indicator default (others indicator entries) = default := by
  induction entries with
  | nil => rfl
  | cons entry entries ih =>
      by_cases same : entry.1 = indicator
      · rwa [others_cons_same same]
      · rw [others_cons_other same, firstValue, if_neg same]
        exact ih

/-- Storing keeps the entries of all other indicators. -/
theorem others_stored (indicator value : Object)
    (entries : List (Object × Object)) :
    others indicator (stored indicator value entries) =
      others indicator entries := by
  induction entries with
  | nil => simp [others, stored]
  | cons entry entries ih =>
      by_cases same : entry.1 = indicator
      · simp [others, stored, same]
      · rw [stored, if_neg same, others_cons_other same, ih,
          others_cons_other same]

theorem multiplicity_cons (indicator : Object) (entry : Object × Object)
    (entries : List (Object × Object)) :
    multiplicity indicator (entry :: entries) =
      multiplicity indicator entries +
        if entry.1 = indicator then 1 else 0 := by
  simp [multiplicity, List.countP_cons]

/-- An indicator without entries: nothing is found, nothing goes. -/
theorem none_left {indicator : Object} {entries : List (Object × Object)}
    (absent : multiplicity indicator entries = 0) (default : Object) :
    lastValue indicator default entries = default ∧
      others indicator entries = entries := by
  induction entries with
  | nil => exact ⟨rfl, rfl⟩
  | cons entry entries ih =>
      rw [multiplicity_cons] at absent
      have different : ¬ entry.1 = indicator := by
        intro same
        rw [if_pos same] at absent
        omega
      rw [if_neg different, Nat.add_zero] at absent
      refine ⟨?_, ?_⟩
      · rw [lastValue, if_neg different]
        exact (ih absent).1
      · rw [others_cons_other different, (ih absent).2]

/-- With at most one entry, the last value is the first one. -/
theorem lastValue_eq {indicator : Object} {entries : List (Object × Object)}
    (single : multiplicity indicator entries ≤ 1) (default : Object) :
    lastValue indicator default entries =
      firstValue indicator default entries := by
  induction entries with
  | nil => rfl
  | cons entry entries ih =>
      rw [multiplicity_cons] at single
      by_cases same : entry.1 = indicator
      · rw [if_pos same] at single
        rw [lastValue, firstValue, if_pos same, if_pos same]
        exact (none_left (by omega) _).1
      · rw [if_neg same] at single
        rw [lastValue, firstValue, if_neg same, if_neg same]
        exact ih (by omega)

/-- What is left without the first entry of an indicator is what all other
indicators have, exactly if it has at most one entry. -/
theorem withoutFirst_eq_others_iff (indicator : Object)
    (entries : List (Object × Object)) :
    withoutFirst indicator entries = others indicator entries ↔
      multiplicity indicator entries ≤ 1 := by
  induction entries with
  | nil => simp [withoutFirst, others, multiplicity]
  | cons entry entries ih =>
      rw [multiplicity_cons]
      by_cases same : entry.1 = indicator
      · have erased : withoutFirst indicator (entry :: entries) = entries := by
          simp [withoutFirst, same]
        rw [if_pos same, erased, others_cons_same same]
        constructor
        · intro equal
          have counted : multiplicity indicator entries = 0 := by
            rw [equal, multiplicity, others, List.countP_filter]
            simp
          omega
        · intro single
          exact (none_left (by omega) indicator).2.symm
      · have erased : withoutFirst indicator (entry :: entries) =
            entry :: withoutFirst indicator entries := by
          simp [withoutFirst, same]
        rw [if_neg same, erased, others_cons_other same, Nat.add_zero, ← ih]
        simp

end Specification

/-! ## Vectors -/

/-- What returns goes on. -/
theorem ok_bind {Value Result : Type} (value : Value)
    (next : Value → Except Failure Result) :
    (Except.ok value >>= next) = next value :=
  rfl

section Vectors

theorem vectorElement_at {key : Nat} (front back : List Object)
    (element : Object) (place : key = front.length) :
    vectorElement (front ++ element :: back) key = .ok element := by
  subst place
  simp [vectorElement]

theorem setVectorElement_at {key : Nat} (front back : List Object)
    (old value : Object) (place : key = front.length) :
    setVectorElement value (front ++ old :: back) key =
      .ok (front ++ value :: back) := by
  subst place
  simp [setVectorElement]

/-- A place that comes later takes what is kept. -/
theorem setVectorElement_keep (done junk back : List Object)
    (item : Object) {key : Nat} (place : key = done.length) :
    ∃ rest : List Object, rest.length = junk.length ∧
      setVectorElement item (done ++ (junk ++ item :: back)) key =
        .ok ((done ++ [item]) ++ (rest ++ back)) := by
  cases junk with
  | nil =>
      refine ⟨[], rfl, ?_⟩
      rw [List.nil_append, setVectorElement_at done back item item place]
      simp
  | cons first junk =>
      refine ⟨junk ++ [item], by simp, ?_⟩
      rw [List.cons_append, setVectorElement_at done _ first item place]
      simp

theorem assertEven_plistOf (entries : List (Object × Object)) :
    assertEven (plistOf entries) = .ok () := by
  rw [assertEven, plistOf_length, if_pos (by omega)]

variable [DecidableEq Object]

theorem vectorGetLoop_eq (indicator default : Object)
    (entries : List (Object × Object)) (front : List Object) :
    vectorGetLoop (front ++ plistOf entries) indicator default
        entries.length front.length =
      .ok (firstValue indicator default entries) := by
  induction entries generalizing front with
  | nil => rfl
  | cons entry entries ih =>
      have next := ih (front ++ [entry.1, entry.2])
      rw [List.append_assoc, List.length_append] at next
      rw [List.length_cons, vectorGetLoop, plistOf,
        vectorElement_at front _ entry.1 rfl, ok_bind, firstValue]
      by_cases same : entry.1 = indicator
      · rw [if_pos same, if_pos same]
        have split : front ++ entry.1 :: entry.2 :: plistOf entries =
            (front ++ [entry.1]) ++ entry.2 :: plistOf entries := by simp
        rw [split, vectorElement_at _ _ entry.2 (by simp)]
      · rw [if_neg same, if_neg same]
        exact next

/-- `get-property` of a vector reads the first entry of the indicator. -/
theorem vectorGetProperty_eq (entries : List (Object × Object))
    (indicator default : Object) :
    vectorGetProperty (plistOf entries) indicator default =
      .ok (firstValue indicator default entries) := by
  rw [vectorGetProperty, assertEven_plistOf, plistOf_length,
    Nat.mul_div_cancel_left _ (by omega)]
  exact vectorGetLoop_eq indicator default entries []

theorem vectorPutLoop_eq (indicator value : Object)
    (entries : List (Object × Object)) (front : List Object) :
    vectorPutLoop (front ++ plistOf entries) indicator value
        entries.length front.length =
      .ok (front ++ plistOf (stored indicator value entries)) := by
  induction entries generalizing front with
  | nil => simp [vectorPutLoop, plistOf, stored]
  | cons entry entries ih =>
      have next := ih (front ++ [entry.1, entry.2])
      rw [List.append_assoc, List.append_assoc, List.length_append] at next
      rw [List.length_cons, vectorPutLoop, plistOf,
        vectorElement_at front _ entry.1 rfl, ok_bind, stored]
      by_cases same : entry.1 = indicator
      · rw [if_pos same, if_pos same]
        have split : front ++ entry.1 :: entry.2 :: plistOf entries =
            (front ++ [entry.1]) ++ entry.2 :: plistOf entries := by simp
        rw [split, setVectorElement_at _ _ entry.2 value (by simp)]
        simp [plistOf]
      · rw [if_neg same, if_neg same]
        exact next

/-- `do-put-property!` of a vector stores at the first entry. -/
theorem vectorPutProperty_eq (entries : List (Object × Object))
    (indicator value : Object) :
    vectorPutProperty (plistOf entries) indicator value =
      .ok (plistOf (stored indicator value entries)) := by
  rw [vectorPutProperty, assertEven_plistOf, plistOf_length,
    Nat.mul_div_cancel_left _ (by omega)]
  exact vectorPutLoop_eq indicator value entries []

/-- The loop keeps the other entries behind what has been kept before. -/
theorem stretchyRemoveLoop_eq (indicator value : Object)
    (entries : List (Object × Object)) (done junk : List Object) :
    ∃ rest : List Object,
      stretchyRemoveLoop indicator entries.length
          (done.length + junk.length) done.length value
          (done ++ (junk ++ plistOf entries)) =
        .ok (lastValue indicator value entries,
          (done ++ plistOf (others indicator entries)).length,
          done ++ plistOf (others indicator entries) ++ rest) := by
  induction entries generalizing done junk value with
  | nil => exact ⟨junk, by simp [stretchyRemoveLoop, lastValue, others,
      plistOf]⟩
  | cons entry entries ih =>
      have first : vectorElement
          (done ++ (junk ++ plistOf (entry :: entries)))
          (done.length + junk.length) = .ok entry.1 := by
        rw [plistOf, ← List.append_assoc]
        exact vectorElement_at _ _ _ (by simp)
      rw [List.length_cons, stretchyRemoveLoop, first, ok_bind, lastValue]
      by_cases same : entry.1 = indicator
      · have second : vectorElement
            (done ++ (junk ++ plistOf (entry :: entries)))
            (done.length + junk.length + 1) = .ok entry.2 := by
          have split : done ++ (junk ++ plistOf (entry :: entries)) =
              (done ++ junk ++ [entry.1]) ++ entry.2 :: plistOf entries := by
            simp [plistOf]
          rw [split]
          exact vectorElement_at _ _ _ (by simp [Nat.add_assoc])
        obtain ⟨rest, loops⟩ := ih entry.2 done (junk ++ [entry.1, entry.2])
        rw [List.length_append, ← Nat.add_assoc, List.append_assoc] at loops
        refine ⟨rest, ?_⟩
        rw [if_pos same, if_pos same, second, ok_bind, others_cons_same same]
        exact loops
      · obtain ⟨junk₁, length₁, write₁⟩ := setVectorElement_keep done junk
          (entry.2 :: plistOf entries) entry.1 rfl
        obtain ⟨junk₂, length₂, write₂⟩ :=
          @setVectorElement_keep _ (done ++ [entry.1]) junk₁ (plistOf entries)
            entry.2 (done.length + 1) (by simp)
        have second : vectorElement
            ((done ++ [entry.1]) ++ (junk₁ ++ entry.2 :: plistOf entries))
            (done.length + junk.length + 1) = .ok entry.2 := by
          rw [← List.append_assoc]
          refine vectorElement_at _ _ _ ?_
          simp only [List.length_append, List.length_singleton]
          omega
        obtain ⟨rest, loops⟩ := ih value (done ++ [entry.1] ++ [entry.2]) junk₂
        have place : (done ++ [entry.1] ++ [entry.2]).length + junk₂.length =
            done.length + junk.length + 2 := by
          simp only [List.length_append, List.length_singleton]
          omega
        rw [place] at loops
        refine ⟨rest, ?_⟩
        rw [if_neg same, if_neg same, others_cons_other same, ok_bind, plistOf,
          write₁, ok_bind, second, ok_bind, write₂, ok_bind]
        simpa [plistOf] using loops

/-- `do-remove-property!` of a stretchy vector removes all entries of the
indicator and answers the value of the last one. -/
theorem stretchyRemoveProperty_eq (entries : List (Object × Object))
    (false indicator : Object) :
    stretchyRemoveProperty (plistOf entries) false indicator =
      .ok (lastValue indicator false entries,
        plistOf (others indicator entries)) := by
  obtain ⟨rest, loops⟩ := stretchyRemoveLoop_eq indicator false entries [] []
  simp only [List.nil_append, List.length_nil, Nat.add_zero] at loops
  rw [stretchyRemoveProperty, assertEven_plistOf, ok_bind, plistOf_length,
    Nat.mul_div_cancel_left _ (by omega), loops, ok_bind]
  simp only [List.take_left]
  rfl

theorem countLoop_eq (indicator : Object) (entries : List (Object × Object))
    (front : List Object) (count : Nat) :
    countLoop (front ++ plistOf entries) indicator entries.length
        front.length count =
      .ok (count + 2 * multiplicity indicator entries) := by
  induction entries generalizing front count with
  | nil => rfl
  | cons entry entries ih =>
      have next := ih (front ++ [entry.1, entry.2])
      rw [List.append_assoc, List.length_append] at next
      rw [List.length_cons, countLoop, plistOf,
        vectorElement_at front _ entry.1 rfl, ok_bind, multiplicity_cons]
      by_cases same : entry.1 = indicator
      · rw [if_pos same, if_pos same]
        refine (next (count + 2)).trans ?_
        congr 1
        omega
      · rw [if_neg same, if_neg same]
        exact next count

/-- The loop copies the other entries behind what has been copied before. -/
theorem copyLoop_eq (indicator value : Object)
    (entries : List (Object × Object)) (front done blank : List Object)
    (room : blank.length = 2 * (others indicator entries).length) :
    copyLoop (front ++ plistOf entries) indicator entries.length
        front.length done.length value (done ++ blank) =
      .ok (lastValue indicator value entries,
        done ++ plistOf (others indicator entries)) := by
  induction entries generalizing front done blank value with
  | nil =>
      have empty : blank = [] := List.length_eq_zero_iff.mp room
      rw [empty]
      rfl
  | cons entry entries ih =>
      have next := fun value => ih value (front ++ [entry.1, entry.2])
      simp only [List.append_assoc, List.length_append] at next
      have second : vectorElement (front ++ plistOf (entry :: entries))
          (front.length + 1) = .ok entry.2 := by
        have split : front ++ plistOf (entry :: entries) =
            (front ++ [entry.1]) ++ entry.2 :: plistOf entries := by
          simp [plistOf]
        rw [split]
        exact vectorElement_at _ _ _ (by simp)
      rw [plistOf] at second
      rw [List.length_cons, copyLoop, plistOf,
        vectorElement_at front _ entry.1 rfl, ok_bind, lastValue]
      by_cases same : entry.1 = indicator
      · rw [others_cons_same same] at room
        rw [if_pos same, if_pos same, second, ok_bind, others_cons_same same]
        exact next entry.2 done blank room
      · rw [others_cons_other same, List.length_cons] at room
        rcases blank with _ | ⟨one, _ | ⟨two, blank⟩⟩
        · simp at room
        · simp at room
          omega
        · have left : blank.length = 2 * (others indicator entries).length := by
            simp only [List.length_cons] at room
            omega
          have write : setVectorElement entry.2
              (done ++ entry.1 :: two :: blank) (done.length + 1) =
                .ok (done ++ [entry.1, entry.2] ++ blank) := by
            have split : done ++ entry.1 :: two :: blank =
                (done ++ [entry.1]) ++ two :: blank := by simp
            rw [split, setVectorElement_at _ _ two entry.2 (by simp)]
            simp
          have copied := next value (done ++ [entry.1, entry.2]) blank left
          rw [if_neg same, if_neg same, others_cons_other same, ok_bind,
            setVectorElement_at done _ one entry.1 rfl, ok_bind, second,
            ok_bind, write, ok_bind, plistOf]
          simpa using copied

theorem length_others (indicator : Object)
    (entries : List (Object × Object)) :
    (others indicator entries).length + multiplicity indicator entries =
      entries.length := by
  induction entries with
  | nil => rfl
  | cons entry entries ih =>
      rw [multiplicity_cons, List.length_cons]
      by_cases same : entry.1 = indicator
      · rw [others_cons_same same, if_pos same]
        omega
      · rw [others_cons_other same, if_neg same, List.length_cons]
        omega

/-- `do-remove-property!` of a simple object vector removes all entries of the
indicator and answers the value of the last one. -/
theorem vectorRemoveProperty_eq (entries : List (Object × Object))
    (false indicator : Object) :
    vectorRemoveProperty (plistOf entries) false indicator =
      .ok (lastValue indicator false entries,
        plistOf (others indicator entries)) := by
  have counted := countLoop_eq indicator entries [] 0
  simp only [List.nil_append, List.length_nil, Nat.zero_add] at counted
  rw [vectorRemoveProperty, assertEven_plistOf, ok_bind]
  simp only [plistOf_length]
  rw [Nat.mul_div_cancel_left _ (by omega), counted, ok_bind]
  by_cases absent : 2 * multiplicity indicator entries = 0
  · have unchanged := @none_left Object _ indicator entries (by omega) false
    rw [if_pos absent, unchanged.1, unchanged.2]
    rfl
  · have sizes := length_others indicator entries
    rw [if_neg absent]
    exact copyLoop_eq indicator false entries [] []
      (List.replicate _ false) (by rw [List.length_replicate]; omega)

end Vectors

/-! ## Lists -/

/-- The pairs of a list, which are all different. -/
structure Visits (heap : Heap Object) (plist : Option Nat)
    (pairs : List Nat) : Prop where
  segment : Segment heap.tail plist pairs none
  nodup : pairs.Nodup
  allocated : ∀ pair ∈ pairs, pair < heap.fresh

/-- A list has given elements. -/
def Holds (heap : Heap Object) (plist : Option Nat)
    (elements : List Object) : Prop :=
  ∃ pairs, Visits heap plist pairs ∧ pairs.map heap.head = elements

/-- The pairs of a list that starts with an entry. -/
theorem exists_pairs {heap : Heap Object} {pairs : List Nat}
    {entry : Object × Object} {entries : List (Object × Object)}
    (heads : pairs.map heap.head = plistOf (entry :: entries)) :
    ∃ one two rest, pairs = one :: two :: rest ∧ heap.head one = entry.1 ∧
      heap.head two = entry.2 ∧ rest.map heap.head = plistOf entries := by
  obtain ⟨one, pairs, rfl, first, heads⟩ := List.map_eq_cons_iff.mp heads
  obtain ⟨two, rest, rfl, second, heads⟩ := List.map_eq_cons_iff.mp heads
  exact ⟨one, two, rest, rfl, first, second, heads⟩

/-- The entries of a list are no more than the pairs there are. -/
theorem Visits.fuel {heap : Heap Object} {plist : Option Nat}
    {pairs : List Nat} {entries : List (Object × Object)}
    (visits : Visits heap plist pairs)
    (heads : pairs.map heap.head = plistOf entries) :
    entries.length < heap.fresh + 1 := by
  have bound := Lib.PairList.length_le_of_allocated visits.nodup
    visits.allocated
  have lengths := congrArg List.length heads
  rw [List.length_map, plistOf_length] at lengths
  omega

section Lists

variable [DecidableEq Object]

theorem listGetLoop_eq (heap : Heap Object) (indicator default : Object)
    (entries : List (Object × Object)) {plist : Option Nat}
    {pairs : List Nat} {fuel : Nat}
    (segment : Segment heap.tail plist pairs none)
    (heads : pairs.map heap.head = plistOf entries)
    (enough : entries.length < fuel) :
    listGetLoop heap indicator default fuel plist =
      .ok (firstValue indicator default entries) := by
  induction entries generalizing plist pairs fuel with
  | nil =>
      obtain ⟨fuel, rfl⟩ := Nat.exists_eq_add_of_lt enough
      obtain rfl := List.map_eq_nil_iff.mp heads
      rw [segment_nil.mp segment]
      rfl
  | cons entry entries ih =>
      obtain ⟨one, two, rest, rfl, first, second, heads⟩ := exists_pairs heads
      obtain ⟨rfl, link, segment⟩ := segment
      obtain ⟨fuel, rfl⟩ : ∃ less, fuel = less + 1 :=
        Nat.exists_eq_succ_of_ne_zero (by omega)
      rw [listGetLoop, if_neg (Option.some_ne_none one)]
      simp only [Heap.headOf, Heap.tailOf, first, link, second]
      rw [firstValue]
      by_cases same : entry.1 = indicator
      · rw [if_pos same, if_pos same]
      · rw [if_neg same, if_neg same]
        exact ih segment heads (by rw [List.length_cons] at enough; omega)

/-- `get-property` of a list reads the first entry of the indicator. -/
theorem listGetProperty_eq {heap : Heap Object} {plist : Option Nat}
    {entries : List (Object × Object)}
    (holds : Holds heap plist (plistOf entries))
    (indicator default : Object) :
    listGetProperty heap plist indicator default =
      .ok (firstValue indicator default entries) := by
  obtain ⟨pairs, visits, heads⟩ := holds
  exact listGetLoop_eq heap indicator default entries visits.segment heads
    (visits.fuel heads)

/-- The loop stores at the first entry, or there is none. -/
theorem listPutLoop_eq (heap : Heap Object) (indicator value : Object)
    (entries : List (Object × Object)) {plist : Option Nat}
    {pairs : List Nat} {fuel : Nat}
    (segment : Segment heap.tail plist pairs none) (nodup : pairs.Nodup)
    (heads : pairs.map heap.head = plistOf entries)
    (enough : entries.length < fuel) :
    (listPutLoop heap indicator value fuel plist = .ok none ∧
      stored indicator value entries = entries ++ [(indicator, value)]) ∨
    ∃ pair ∈ pairs,
      listPutLoop heap indicator value fuel plist =
        .ok (some { heap with head := Function.update heap.head pair value }) ∧
      pairs.map (Function.update heap.head pair value) =
        plistOf (stored indicator value entries) := by
  induction entries generalizing plist pairs fuel with
  | nil =>
      obtain ⟨fuel, rfl⟩ := Nat.exists_eq_add_of_lt enough
      obtain rfl := List.map_eq_nil_iff.mp heads
      rw [segment_nil.mp segment]
      exact Or.inl ⟨rfl, rfl⟩
  | cons entry entries ih =>
      obtain ⟨one, two, rest, rfl, first, second, heads⟩ := exists_pairs heads
      obtain ⟨rfl, link, segment⟩ := segment
      obtain ⟨oneFresh, nodup⟩ := List.nodup_cons.mp nodup
      obtain ⟨twoFresh, nodup⟩ := List.nodup_cons.mp nodup
      obtain ⟨fuel, rfl⟩ : ∃ less, fuel = less + 1 :=
        Nat.exists_eq_succ_of_ne_zero (by omega)
      rw [listPutLoop, if_neg (Option.some_ne_none one)]
      simp only [Heap.headOf, Heap.tailOf, first, link]
      rw [stored]
      by_cases same : entry.1 = indicator
      · rw [if_pos same, if_pos same]
        refine Or.inr ⟨two, by simp, rfl, ?_⟩
        have apart : one ≠ two := fun equal => oneFresh (by simp [equal])
        have unchanged : rest.map (Function.update heap.head two value) =
            rest.map heap.head := by
          refine List.map_congr_left fun pair member => ?_
          refine Function.update_of_ne ?_ _ _
          rintro rfl
          exact twoFresh member
        rw [List.map_cons, List.map_cons, unchanged, heads,
          Function.update_self, Function.update_of_ne apart, first, plistOf]
      · rw [if_neg same, if_neg same]
        have shorter : entries.length < fuel := by
          rw [List.length_cons] at enough
          omega
        rcases ih segment nodup heads shorter with
          ⟨missing, appended⟩ | ⟨pair, member, found, changed⟩
        · exact Or.inl ⟨missing, by rw [appended]; rfl⟩
        · refine Or.inr ⟨pair, by simp [member], found, ?_⟩
          have notOne : one ≠ pair := fun equal =>
            oneFresh (by simp [equal, member])
          have notTwo : two ≠ pair := fun equal =>
            twoFresh (by rwa [equal])
          rw [List.map_cons, List.map_cons, changed,
            Function.update_of_ne notOne, Function.update_of_ne notTwo, first,
            second, plistOf]

omit [DecidableEq Object] in
/-- The last pair gets the tail. -/
theorem findTail_eq (heap : Heap Object) (x : Option Nat) (front : List Nat)
    (last : Nat) {p : Option Nat} {fuel : Nat}
    (segment : Segment heap.tail p (front ++ [last]) none)
    (enough : front.length < fuel) :
    findTail heap x fuel p =
      .ok { heap with tail := Function.update heap.tail last x } := by
  induction front generalizing p fuel with
  | nil =>
      obtain ⟨fuel, rfl⟩ := Nat.exists_eq_add_of_lt enough
      obtain ⟨rfl, link⟩ := segment
      exact if_pos (segment_nil.mp link)
  | cons pair front ih =>
      obtain ⟨fuel, rfl⟩ : ∃ less, fuel = less + 1 :=
        Nat.exists_eq_succ_of_ne_zero (by omega)
      obtain ⟨rfl, segment⟩ := segment
      have more : heap.tail pair ≠ none := by
        intro ended
        rw [ended] at segment
        cases front with
        | nil => exact absurd segment.1 (by simp)
        | cons => exact absurd segment.1 (by simp)
      rw [findTail, Heap.tailOf, if_neg more]
      exact ih segment (by rw [List.length_cons] at enough; omega)

omit [DecidableEq Object] in
/-- A new list of two objects, behind the pairs of a list. -/
theorem concatenateLists_eq {heap : Heap Object} {plist : Option Nat}
    {pairs : List Nat} (visits : Visits heap plist pairs)
    (one two : Object) :
    ∃ heap' plist',
      concatenateLists (heap.list one two).1 plist (heap.list one two).2 =
        .ok (heap', plist') ∧
      Holds heap' plist' (pairs.map heap.head ++ [one, two]) := by
  have old : ∀ pair ∈ pairs, pair ≠ heap.fresh ∧ pair ≠ heap.fresh + 1 := by
    intro pair member
    have below := visits.allocated pair member
    exact ⟨by omega, by omega⟩
  have tails : ∀ pair ∈ pairs,
      (heap.list one two).1.tail pair = heap.tail pair := by
    intro pair member
    simp [Heap.list, Heap.pair, Function.update_of_ne, old pair member]
  have heads : pairs.map (heap.list one two).1.head =
      pairs.map heap.head := by
    refine List.map_congr_left fun pair member => ?_
    simp [Heap.list, Heap.pair, Function.update_of_ne, old pair member]
  have segment := segment_congr tails visits.segment
  have new : Segment (heap.list one two).1.tail (some (heap.fresh + 1))
      [heap.fresh + 1, heap.fresh] none := by
    simp [Heap.list, Heap.pair]
  have headsNew : [heap.fresh + 1, heap.fresh].map
      (heap.list one two).1.head = [one, two] := by
    simp [Heap.list, Heap.pair]
  rcases List.eq_nil_or_concat' pairs with rfl | ⟨front, last, rfl⟩
  · rw [segment_nil.mp visits.segment]
    refine ⟨_, _, rfl, [heap.fresh + 1, heap.fresh], ⟨new, by simp, ?_⟩,
      headsNew⟩
    intro pair member
    simp only [List.mem_cons, List.not_mem_nil, or_false] at member
    change pair < heap.fresh + 2
    omega
  · have parts := List.nodup_append.mp visits.nodup
    have fresh : last ∉ front := fun member =>
      parts.2.2 last member last (by simp) rfl
    have notNew : last ∉ [heap.fresh + 1, heap.fresh] := by
      have different := old last (by simp)
      simp [different.1, different.2]
    have found : plist ≠ none := by
      rintro rfl
      obtain ⟨_, before, rfl, -⟩ := segment_append.mp segment
      cases front with
      | nil => exact absurd (segment_nil.mp before) (by simp)
      | cons => exact absurd before.1 (by simp)
    have bound := Lib.PairList.length_le_of_allocated visits.nodup
      visits.allocated
    rw [List.length_append, List.length_singleton] at bound
    have linked := @findTail_eq Object (heap.list one two).1
      (heap.list one two).2 front last plist
      ((heap.list one two).1.fresh + 1) segment (by
        change front.length < heap.fresh + 2 + 1
        omega)
    refine ⟨{ (heap.list one two).1 with
      tail := Function.update (heap.list one two).1.tail last
        (heap.list one two).2 }, plist, ?_,
      (front ++ [last]) ++ [heap.fresh + 1, heap.fresh], ⟨?_, ?_, ?_⟩, ?_⟩
    · rw [concatenateLists, if_neg found, linked]
      rfl
    · refine segment_append.mpr ⟨some (heap.fresh + 1), ?_, ?_⟩
      · exact segment_update_last segment fresh
      · exact (segment_update_of_notMem notNew).mpr new
    · refine List.nodup_append.mpr ⟨visits.nodup, by simp, ?_⟩
      intro pair member other isNew
      have different := old pair member
      simp only [List.mem_cons, List.not_mem_nil, or_false] at isNew
      rcases isNew with rfl | rfl
      · exact different.2
      · exact different.1
    · intro pair member
      change pair < heap.fresh + 2
      rcases List.mem_append.mp member with member | member
      · have below := visits.allocated pair member
        omega
      · simp only [List.mem_cons, List.not_mem_nil, or_false] at member
        omega
    · rw [List.map_append, headsNew, heads]

/-- `do-put-property!` of a list stores at the first entry. -/
theorem listPutProperty_eq {heap : Heap Object} {plist : Option Nat}
    {entries : List (Object × Object)}
    (holds : Holds heap plist (plistOf entries))
    (indicator value : Object) :
    ∃ heap' plist',
      listPutProperty heap plist indicator value = .ok (heap', plist') ∧
      Holds heap' plist' (plistOf (stored indicator value entries)) := by
  obtain ⟨pairs, visits, heads⟩ := holds
  rcases listPutLoop_eq heap indicator value entries visits.segment
      visits.nodup heads (visits.fuel heads) with
    ⟨missing, appended⟩ | ⟨pair, member, found, changed⟩
  · obtain ⟨heap', plist', linked, holds⟩ :=
      concatenateLists_eq visits indicator value
    refine ⟨heap', plist', ?_, ?_⟩
    · rw [listPutProperty, missing, ok_bind]
      exact linked
    · rw [appended, plistOf_append, ← heads]
      exact holds
  · refine ⟨{ heap with head := Function.update heap.head pair value }, plist,
      ?_, pairs, ⟨visits.segment, visits.nodup, visits.allocated⟩, changed⟩
    rw [listPutProperty, found, ok_bind]
    rfl

theorem withoutFirst_cons_other {indicator : Object} {entry : Object × Object}
    (different : ¬ entry.1 = indicator) (entries : List (Object × Object)) :
    withoutFirst indicator (entry :: entries) =
      entry :: withoutFirst indicator entries := by
  simp [withoutFirst, different]

theorem withoutFirst_cons_same {indicator : Object} {entry : Object × Object}
    (same : entry.1 = indicator) (entries : List (Object × Object)) :
    withoutFirst indicator (entry :: entries) = entries := by
  simp [withoutFirst, same]

/-- The loop behind the first entry bypasses the first entry of the
indicator. -/
theorem listRemoveLoop_later (heap : Heap Object) (false indicator : Object)
    (entries : List (Object × Object)) {plist : Option Nat}
    {front pairs : List Nat} {previous fuel : Nat}
    (segment : Segment heap.tail plist (front ++ previous :: pairs) none)
    (nodup : (front ++ previous :: pairs).Nodup)
    (heads : pairs.map heap.head = plistOf entries)
    (enough : entries.length < fuel) :
    ∃ tail rest,
      listRemoveLoop heap plist false indicator fuel (heap.tail previous)
          (some previous) =
        .ok (firstValue indicator false entries,
          { heap with tail := tail }, plist) ∧
      Segment tail plist (front ++ previous :: rest) none ∧
      rest.Sublist pairs ∧
      rest.map heap.head = plistOf (withoutFirst indicator entries) := by
  induction entries generalizing front pairs previous fuel with
  | nil =>
      obtain ⟨fuel, rfl⟩ := Nat.exists_eq_add_of_lt enough
      obtain rfl := List.map_eq_nil_iff.mp heads
      obtain ⟨_, -, rfl, link⟩ := segment_append.mp segment
      rw [segment_nil.mp link]
      exact ⟨heap.tail, [], rfl, segment, List.Sublist.refl _, rfl⟩
  | cons entry entries ih =>
      obtain ⟨one, two, rest, rfl, first, second, heads⟩ := exists_pairs heads
      obtain ⟨_, before, rfl, start, link, after⟩ :=
        segment_append.mp segment
      obtain ⟨fuel, rfl⟩ : ∃ less, fuel = less + 1 :=
        Nat.exists_eq_succ_of_ne_zero (by omega)
      have parts := List.nodup_append.mp nodup
      have apart : some one ≠ plist := by
        intro equal
        cases front with
        | nil =>
            rw [segment_nil.mp before] at equal
            refine (List.nodup_cons.mp nodup).1 ?_
            rw [Option.some.inj equal]
            simp
        | cons pair front =>
            rw [before.1] at equal
            exact parts.2.2 pair (by simp) one (by simp)
              (Option.some.inj equal).symm
      rw [start, listRemoveLoop, if_neg (Option.some_ne_none one)]
      simp only [Heap.headOf, Heap.tailOf, Heap.second, first, second, link,
        start, if_neg apart, ok_bind]
      rw [firstValue]
      by_cases same : entry.1 = indicator
      · rw [if_pos same, if_pos same, withoutFirst_cons_same same]
        refine ⟨_, rest, rfl, ?_, ?_, heads⟩
        · exact @segment_bypass _ _ _ _ _ previous front [one, two] rest _
            segment nodup after
        · exact (List.sublist_cons_self two rest).trans
            (List.sublist_cons_self one _)
      · rw [if_neg same, if_neg same, withoutFirst_cons_other same]
        have regroup : front ++ previous :: one :: two :: rest =
            (front ++ [previous, one]) ++ two :: rest := by simp
        rw [regroup] at segment nodup
        obtain ⟨tail, kept, loops, segment, sublist, heads⟩ :=
          @ih (front ++ [previous, one]) rest two fuel segment nodup heads (by
            rw [List.length_cons] at enough
            omega)
        refine ⟨tail, one :: two :: kept, loops, by simpa using segment,
          (sublist.cons_cons two).cons_cons one, ?_⟩
        rw [List.map_cons, List.map_cons, heads, first, second, plistOf]

/-- `do-remove-property!` of a list removes the first entry of the indicator
and answers its value. -/
theorem listRemoveProperty_eq {heap : Heap Object} {plist : Option Nat}
    {entries : List (Object × Object)}
    (holds : Holds heap plist (plistOf entries))
    (false indicator : Object) :
    ∃ heap' plist',
      listRemoveProperty heap plist false indicator =
        .ok (firstValue indicator false entries, heap', plist') ∧
      Holds heap' plist' (plistOf (withoutFirst indicator entries)) := by
  obtain ⟨pairs, visits, heads⟩ := holds
  have enough := visits.fuel heads
  obtain ⟨segment, nodup, allocated⟩ := visits
  cases entries with
  | nil =>
      obtain rfl := List.map_eq_nil_iff.mp heads
      rw [segment_nil.mp segment]
      exact ⟨heap, none, rfl, [], ⟨rfl, List.nodup_nil, by simp⟩, rfl⟩
  | cons entry entries =>
      obtain ⟨one, two, rest, rfl, first, second, heads⟩ := exists_pairs heads
      obtain ⟨rfl, link, after⟩ := id segment
      rw [listRemoveProperty, listRemoveLoop,
        if_neg (Option.some_ne_none one)]
      simp only [Heap.headOf, Heap.tailOf, Heap.second, first, second, link,
        if_pos, ok_bind]
      rw [firstValue]
      by_cases same : entry.1 = indicator
      · rw [if_pos same, if_pos same, withoutFirst_cons_same same]
        refine ⟨heap, heap.tail two, rfl, rest, ⟨after, ?_, ?_⟩, heads⟩
        · exact (List.nodup_cons.mp (List.nodup_cons.mp nodup).2).2
        · exact fun pair member => allocated pair (by simp [member])
      · rw [if_neg same, if_neg same, withoutFirst_cons_other same]
        obtain ⟨tail, kept, loops, segment, sublist, heads⟩ :=
          @listRemoveLoop_later Object _ heap false indicator entries
            (some one) [one] rest two heap.fresh segment nodup heads (by
              rw [List.length_cons] at enough
              omega)
        have inside : (one :: two :: kept).Sublist (one :: two :: rest) :=
          (sublist.cons_cons two).cons_cons one
        refine ⟨_, some one, loops, one :: two :: kept,
          ⟨segment, inside.nodup nodup, ?_⟩, ?_⟩
        · exact fun pair member => allocated pair (inside.subset member)
        · rw [List.map_cons, List.map_cons, heads, first, second, plistOf]

end Lists

/-! ## Runs -/

section Runs

variable [DecidableEq Object]

/-- The indicator of an operation. -/
def Operation.indicator : Operation Object → Object
  | .getProperty indicator _ => indicator
  | .putProperty indicator _ => indicator
  | .removeProperty indicator => indicator

/-- No operation touches the entries of other indicators. -/
theorem others_meaning (false : Object) (entries : List (Object × Object))
    (operation : Operation Object) :
    others operation.indicator (meaning false entries operation).2 =
      others operation.indicator entries := by
  cases operation with
  | getProperty indicator default => rfl
  | putProperty indicator value => exact others_stored indicator value entries
  | removeProperty indicator =>
      refine List.filter_eq_self.mpr fun entry member => ?_
      exact (List.mem_filter.mp member).2

/-- A step answers what an operation is for, and keeps a representation. -/
def Refines {State : Type} (false : Object)
    (step : State → Operation Object →
      Except Failure (Option Object × State))
    (represents : State → List (Object × Object) → Prop) : Prop :=
  ∀ state entries operation, represents state entries →
    RemovesSingle entries operation →
    ∃ state', step state operation =
        .ok ((meaning false entries operation).1, state') ∧
      represents state' (meaning false entries operation).2

/-- Runs answer what their operations are for. -/
theorem Refines.run {State : Type} {false : Object}
    {step : State → Operation Object →
      Except Failure (Option Object × State)}
    {represents : State → List (Object × Object) → Prop}
    (refines : Refines false step represents)
    (operations : List (Operation Object)) {state : State}
    {entries : List (Object × Object)} (stands : represents state entries)
    (single : AllRemoveSingle false entries operations) :
    ∃ state', PropertyLists.run step state operations =
        .ok ((meanings false entries operations).1, state') ∧
      represents state' (meanings false entries operations).2 := by
  induction operations generalizing state entries with
  | nil => exact ⟨state, rfl, stands⟩
  | cons operation operations ih =>
      obtain ⟨now, later⟩ := single
      obtain ⟨next, stepped, stands⟩ :=
        refines state entries operation stands now
      obtain ⟨last, ran, stands⟩ := ih stands later
      refine ⟨last, ?_, stands⟩
      rw [PropertyLists.run, stepped, ok_bind]
      change (PropertyLists.run step next operations >>= _) = _
      rw [ran]
      rfl

theorem listStep_refines (false : Object) :
    Refines false (listStep false) fun state entries =>
      Holds state.1 state.2 (plistOf entries) := by
  rintro ⟨heap, plist⟩ entries operation holds single
  cases operation with
  | getProperty indicator default =>
      refine ⟨(heap, plist), ?_, holds⟩
      rw [listStep, listGetProperty_eq holds]
      rfl
  | putProperty indicator value =>
      obtain ⟨heap', plist', put, stands⟩ :=
        listPutProperty_eq holds indicator value
      refine ⟨(heap', plist'), ?_, stands⟩
      rw [listStep, put]
      rfl
  | removeProperty indicator =>
      obtain ⟨heap', plist', removed, stands⟩ :=
        listRemoveProperty_eq holds false indicator
      refine ⟨(heap', plist'), ?_, ?_⟩
      · rw [listStep, removed]
        rfl
      · rwa [(withoutFirst_eq_others_iff indicator entries).mpr single]
          at stands

theorem vectorsStep_refines (false : Object)
    {remove : List Object → Object → Except Failure (Object × List Object)}
    (removes : ∀ entries indicator, remove (plistOf entries) indicator =
      .ok (lastValue indicator false entries,
        plistOf (others indicator entries))) :
    Refines false (vectorsStep remove) fun plist entries =>
      plist = plistOf entries := by
  rintro plist entries operation rfl single
  cases operation with
  | getProperty indicator default =>
      refine ⟨plistOf entries, ?_, rfl⟩
      rw [vectorsStep, vectorGetProperty_eq]
      rfl
  | putProperty indicator value =>
      refine ⟨plistOf (stored indicator value entries), ?_, rfl⟩
      rw [vectorsStep, vectorPutProperty_eq]
      rfl
  | removeProperty indicator =>
      refine ⟨plistOf (others indicator entries), ?_, rfl⟩
      rw [vectorsStep, removes, lastValue_eq single]
      rfl

/-- The three representations of a property list answer every run of
operations alike, and as the operations are meant, as long as no indicator is
removed that has more than one entry. -/
theorem representations_agree (false : Object) (sequence : List Object)
    (operations : List (Operation Object)) (heap : Heap Object)
    (plist : Option Nat) (even : sequence.length % 2 = 0)
    (holds : Holds heap plist sequence)
    (single : AllRemoveSingle false (entriesOf sequence) operations) :
    ∃ answers final state,
      meanings false (entriesOf sequence) operations = (answers, final) ∧
      run (listStep false) (heap, plist) operations =
        .ok (answers, state) ∧
      Holds state.1 state.2 (plistOf final) ∧
      run (vectorStep false) sequence operations =
        .ok (answers, plistOf final) ∧
      run (stretchyStep false) sequence operations =
        .ok (answers, plistOf final) ∧
      (∀ indicator default,
        firstValue indicator default (others indicator final) = default) ∧
      ∀ operation,
        others operation.indicator (meaning false final operation).2 =
          others operation.indicator final := by
  have entries := plistOf_entriesOf sequence even
  have start : Holds heap plist (plistOf (entriesOf sequence)) := by
    rwa [entries]
  obtain ⟨state, listRun, stands⟩ :=
    @Refines.run Object _ _ false _ _ (listStep_refines false) operations
      (heap, plist) _ start single
  have vectorRefines : Refines false (vectorStep false) fun plist entries =>
      plist = plistOf entries :=
    vectorsStep_refines false fun entries =>
      vectorRemoveProperty_eq entries false
  have stretchyRefines : Refines false (stretchyStep false)
      fun plist entries => plist = plistOf entries :=
    vectorsStep_refines false fun entries =>
      stretchyRemoveProperty_eq entries false
  obtain ⟨_, vectorRun, rfl⟩ :=
    vectorRefines.run operations entries.symm single
  obtain ⟨_, stretchyRun, rfl⟩ :=
    stretchyRefines.run operations entries.symm single
  exact ⟨_, _, state, rfl, listRun, stands, vectorRun, stretchyRun,
    fun indicator default => firstValue_others indicator default _,
    others_meaning false _⟩

/-- The pairs of a list of four objects. -/
def fourPairs (one two three four : Nat) : Heap Nat where
  head
    | 0 => one
    | 1 => two
    | 2 => three
    | _ => four
  tail pair := if pair < 3 then some (pair + 1) else none
  fresh := 4
  emptyList := 0

theorem fourPairs_holds (one two three four : Nat) :
    Holds (fourPairs one two three four) (some 0) [one, two, three, four] := by
  refine ⟨[0, 1, 2, 3], ⟨?_, by decide, ?_⟩, rfl⟩
  · simp [fourPairs]
  · intro pair member
    change pair < 4
    simp only [List.mem_cons, List.not_mem_nil, or_false] at member
    omega

theorem representations_agree_four :
    ∃ answers final state,
      meanings 0 (entriesOf [1, 10, 2, 20])
          [.removeProperty 2, .getProperty 2 7] = (answers, final) ∧
      run (listStep 0) (fourPairs 1 10 2 20, some 0)
          [.removeProperty 2, .getProperty 2 7] = .ok (answers, state) ∧
      Holds state.1 state.2 (plistOf final) ∧
      run (vectorStep 0) [1, 10, 2, 20]
          [.removeProperty 2, .getProperty 2 7] =
        .ok (answers, plistOf final) ∧
      run (stretchyStep 0) [1, 10, 2, 20]
          [.removeProperty 2, .getProperty 2 7] =
        .ok (answers, plistOf final) ∧
      (∀ indicator default,
        firstValue indicator default (others indicator final) = default) ∧
      ∀ operation,
        others operation.indicator (meaning 0 final operation).2 =
          others operation.indicator final :=
  representations_agree 0 [1, 10, 2, 20]
    [.removeProperty 2, .getProperty 2 7] (fourPairs 1 10 2 20) (some 0)
    rfl (fourPairs_holds 1 10 2 20)
    ⟨show multiplicity 2 [(1, 10), (2, 20)] ≤ 1 by decide, trivial, trivial⟩

/-- With two entries of an indicator, a list answers the value of the first
one and keeps the other; a vector answers the value of the last one. -/
theorem representations_differ :
    Holds (fourPairs 1 10 1 20) (some 0) [1, 10, 1, 20] ∧
    (run (listStep 0) (fourPairs 1 10 1 20, some 0)
        [.removeProperty 1, .getProperty 1 7]).map Prod.fst =
      .ok [some 10, some 20] ∧
    (run (vectorStep 0) [1, 10, 1, 20]
        [.removeProperty 1, .getProperty 1 7]).map Prod.fst =
      .ok [some 20, some 7] ∧
    (run (stretchyStep 0) [1, 10, 1, 20]
        [.removeProperty 1, .getProperty 1 7]).map Prod.fst =
      .ok [some 20, some 7] ∧
    (meanings 0 [(1, 10), (1, 20)]
        [.removeProperty 1, .getProperty 1 7]).1 = [some 10, some 7] :=
  ⟨fourPairs_holds 1 10 1 20, rfl, rfl, rfl, rfl⟩

end Runs

end OpenDylan.Collections.PropertyLists
