import OpenDylan.Runtime.SlotLayout
import Mathlib

/-!
# Counting and placing slots

What each of the two passes does with a sequence of slots.  The first pass counts
every slot that has a place exactly when none of them has the getter of a slot
before it.  The second pass places all slots as long as there are places.
-/

namespace OpenDylan.Runtime.SlotLayout

variable {Class Getter : Type}

/-! ## Slots of superclasses -/

/-- The slot has a place in instances, if only for its size. -/
def SlotDescriptor.isStored (sd : SlotDescriptor Getter) : Bool :=
  sd.slotAllocation = .instance_ || sd.slotAllocation = .repeated

/-- The slot has a place in classes. -/
def SlotDescriptor.isClassSlot (sd : SlotDescriptor Getter) : Bool :=
  sd.slotAllocation = .eachSubclass || sd.slotAllocation = .class_

/-- What is put into the place of a slot. -/
def SlotDescriptor.stored (sd : SlotDescriptor Getter) : SlotDescriptor Getter :=
  if sd.slotAllocation = .repeated then sd.sizeSlotDescriptor else sd

/-- The slots of superclasses in the order of both passes. -/
def SlotGraph.slots (graph : SlotGraph Class Getter)
    (superclasses : List Class) : List (SlotDescriptor Getter) :=
  superclasses.reverse.flatMap graph.directSlotDescriptors

/-- What is put into the places of instances. -/
def instanceEntries (slots : List (SlotDescriptor Getter)) :
    List (SlotDescriptor Getter) :=
  (slots.filter SlotDescriptor.isStored).map SlotDescriptor.stored

/-- What is put into the places of classes. -/
def classEntries (slots : List (SlotDescriptor Getter)) :
    List (SlotDescriptor Getter) :=
  slots.filter SlotDescriptor.isClassSlot

/-- A slot that has a place has a getter that no slot before it has. -/
def NewGetters (slots : List (SlotDescriptor Getter)) : Prop :=
  slots.Pairwise fun earlier later =>
    later.slotAllocation ≠ .virtual → earlier.slotGetter ≠ later.slotGetter

/-- The getters of places are distinct. -/
structure DistinctGetters (slots : List (SlotDescriptor Getter)) : Prop where
  isNew : NewGetters slots
  sizes : ∀ repeated ∈ slots, repeated.slotAllocation = .repeated →
    ∀ sd ∈ slots, sd.slotAllocation = .instance_ →
      repeated.sizeGetter ≠ sd.slotGetter

theorem SlotGraph.slots_cons (graph : SlotGraph Class Getter) (class_ : Class)
    (superclasses : List Class) :
    graph.slots (class_ :: superclasses) =
      graph.slots superclasses ++ graph.directSlotDescriptors class_ := by
  simp [SlotGraph.slots]

theorem SlotGraph.slots_perm (graph : SlotGraph Class Getter)
    {superclasses others : List Class} (perm : superclasses.Perm others) :
    (graph.slots superclasses).Perm (graph.slots others) := by
  apply List.Perm.flatMap_right
  exact (List.reverse_perm superclasses).trans
    (perm.trans (List.reverse_perm others).symm)

theorem SlotGraph.slots_append (graph : SlotGraph Class Getter)
    (superclasses others : List Class) :
    graph.slots (superclasses ++ others) =
      graph.slots others ++ graph.slots superclasses := by
  simp [SlotGraph.slots]

theorem newGetters_append {slots : List (SlotDescriptor Getter)}
    {sd : SlotDescriptor Getter} :
    NewGetters (slots ++ [sd]) ↔ NewGetters slots ∧
      (sd.slotAllocation ≠ .virtual →
        ∀ earlier ∈ slots, earlier.slotGetter ≠ sd.slotGetter) := by
  rw [NewGetters, List.pairwise_append]
  simp only [List.pairwise_singleton, List.mem_singleton, forall_eq, true_and]
  constructor
  · rintro ⟨pairwise, last⟩
    exact ⟨pairwise, fun notVirtual earlier member =>
      last earlier member notVirtual⟩
  · rintro ⟨pairwise, last⟩
    exact ⟨pairwise, fun earlier member notVirtual =>
      last notVirtual earlier member⟩

theorem instanceEntries_append (slots others : List (SlotDescriptor Getter)) :
    instanceEntries (slots ++ others) =
      instanceEntries slots ++ instanceEntries others := by
  simp [instanceEntries]

theorem instanceEntries_perm {slots others : List (SlotDescriptor Getter)}
    (perm : slots.Perm others) :
    (instanceEntries slots).Perm (instanceEntries others) :=
  (perm.filter _).map _

theorem classEntries_perm {slots others : List (SlotDescriptor Getter)}
    (perm : slots.Perm others) :
    (classEntries slots).Perm (classEntries others) :=
  perm.filter _

theorem classEntries_append (slots others : List (SlotDescriptor Getter)) :
    classEntries (slots ++ others) =
      classEntries slots ++ classEntries others := by
  simp [classEntries]

/-! ## The pass that counts -/

section Counting

/-- Nothing is collected yet. -/
def nothingCollected : Collected Getter :=
  { allSlots := [], icount := 0, ccount := 0, repeater := none }

/-- What is collected from some slots. -/
structure Collects (slots : List (SlotDescriptor Getter))
    (collected : Collected Getter) : Prop where
  getters : ∀ getter, (∃ sd ∈ collected.allSlots, sd.slotGetter = getter) ↔
    ∃ sd ∈ slots, sd.slotGetter = getter
  icount_le : collected.icount ≤ (instanceEntries slots).length
  ccount_le : collected.ccount ≤ (classEntries slots).length
  exact_ : NewGetters slots ↔
    collected.icount = (instanceEntries slots).length ∧
      collected.ccount = (classEntries slots).length
  repeater : NewGetters slots → ∀ sd ∈ slots,
    sd.slotAllocation = .repeated → collected.repeater = some sd
  repeated : NewGetters slots →
    (slots.filter fun sd => sd.slotAllocation = .repeated).length ≤ 1

theorem Collects.nothing : Collects [] (@nothingCollected Getter) where
  getters := by simp [nothingCollected]
  icount_le := Nat.le_refl 0
  ccount_le := Nat.le_refl 0
  exact_ := by simp [NewGetters, nothingCollected, instanceEntries, classEntries]
  repeater := by simp
  repeated := by simp

theorem length_instanceEntries_singleton (sd : SlotDescriptor Getter) :
    (instanceEntries [sd]).length = if sd.isStored then 1 else 0 := by
  cases stored : sd.isStored <;> simp [instanceEntries, stored]

theorem length_classEntries_singleton (sd : SlotDescriptor Getter) :
    (classEntries [sd]).length = if sd.isClassSlot then 1 else 0 := by
  cases isClassSlot : sd.isClassSlot <;> simp [classEntries, isClassSlot]

/-- A slot whose getter was seen is not counted. -/
theorem Collects.seen {slots : List (SlotDescriptor Getter)}
    {collected : Collected Getter} (collects : Collects slots collected)
    {sd : SlotDescriptor Getter}
    (seen : ∃ earlier ∈ slots, earlier.slotGetter = sd.slotGetter) :
    Collects (slots ++ [sd]) collected := by
  obtain ⟨earlier, isEarlier, same⟩ := seen
  have isVirtual : NewGetters (slots ++ [sd]) →
      sd.slotAllocation = .virtual := by
    intro isNew
    by_contra notVirtual
    exact (newGetters_append.mp isNew).2 notVirtual earlier isEarlier same
  have icount := length_instanceEntries_singleton sd
  have ccount := length_classEntries_singleton sd
  refine ⟨?_, ?_, ?_, ?_, ?_, ?_⟩
  · intro getter
    rw [collects.getters getter]
    constructor
    · rintro ⟨other, member, isGetter⟩
      exact ⟨other, List.mem_append_left _ member, isGetter⟩
    · rintro ⟨other, member, isGetter⟩
      rcases List.mem_append.mp member with member | member
      · exact ⟨other, member, isGetter⟩
      · rw [List.mem_singleton.mp member] at isGetter
        exact ⟨earlier, isEarlier, same.trans isGetter⟩
  · rw [instanceEntries_append, List.length_append]
    exact Nat.le_trans collects.icount_le (Nat.le_add_right _ _)
  · rw [classEntries_append, List.length_append]
    exact Nat.le_trans collects.ccount_le (Nat.le_add_right _ _)
  · have icountLe := collects.icount_le
    have ccountLe := collects.ccount_le
    rw [instanceEntries_append, classEntries_append, List.length_append,
      List.length_append, icount, ccount]
    constructor
    · intro isNew
      have counts := collects.exact_.mp (newGetters_append.mp isNew).1
      have virtual := isVirtual isNew
      simp [SlotDescriptor.isStored, SlotDescriptor.isClassSlot, virtual,
        counts]
    · intro counts
      have notStored : sd.isStored = false := by
        cases stored : sd.isStored with
        | false => rfl
        | true =>
            simp only [stored, if_true] at counts
            omega
      have notClassSlot : sd.isClassSlot = false := by
        cases isClassSlot : sd.isClassSlot with
        | false => rfl
        | true =>
            simp only [isClassSlot, if_true] at counts
            omega
      simp only [notStored, notClassSlot, Bool.false_eq_true, if_false,
        Nat.add_zero] at counts
      rw [newGetters_append, collects.exact_]
      refine ⟨counts, fun notVirtual => absurd ?_ notVirtual⟩
      cases allocation : sd.slotAllocation <;>
        simp_all [SlotDescriptor.isStored, SlotDescriptor.isClassSlot]
  · intro isNew other member isRepeated
    rcases List.mem_append.mp member with member | member
    · exact collects.repeater (newGetters_append.mp isNew).1 other member
        isRepeated
    · rw [List.mem_singleton.mp member, isVirtual isNew] at isRepeated
      cases isRepeated
  · intro isNew
    have few := collects.repeated (newGetters_append.mp isNew).1
    simpa [isVirtual isNew] using few

/-- A slot with a new getter is counted. -/
theorem Collects.new {slots : List (SlotDescriptor Getter)}
    {collected next : Collected Getter} (collects : Collects slots collected)
    {sd : SlotDescriptor Getter}
    (isNew : ∀ earlier ∈ slots, earlier.slotGetter ≠ sd.slotGetter)
    (allSlots : next.allSlots = collected.allSlots ++ [sd])
    (icount : next.icount = collected.icount + (instanceEntries [sd]).length)
    (ccount : next.ccount = collected.ccount + (classEntries [sd]).length)
    (repeater : if sd.slotAllocation = .repeated then
        collected.repeater = none ∧ next.repeater = some sd
      else
        next.repeater = collected.repeater) :
    Collects (slots ++ [sd]) next := by
  have icountLe := collects.icount_le
  have ccountLe := collects.ccount_le
  have isNewIff : NewGetters (slots ++ [sd]) ↔ NewGetters slots := by
    rw [newGetters_append]
    exact and_iff_left fun _ => isNew
  refine ⟨?_, ?_, ?_, ?_, ?_, ?_⟩
  · intro getter
    have seen := collects.getters getter
    simp only [allSlots, List.mem_append, List.mem_singleton, or_and_right,
      exists_or, seen]
  · rw [instanceEntries_append, List.length_append, icount]
    omega
  · rw [classEntries_append, List.length_append, ccount]
    omega
  · rw [isNewIff, collects.exact_, instanceEntries_append,
      classEntries_append, List.length_append, List.length_append, icount,
      ccount]
    omega
  · rw [isNewIff]
    intro distinct other member isRepeated
    rcases List.mem_append.mp member with member | member
    · have known := collects.repeater distinct other member isRepeated
      split at repeater
      · rw [repeater.1] at known
        cases known
      · rw [repeater, known]
    · rw [List.mem_singleton.mp member] at isRepeated ⊢
      rw [if_pos isRepeated] at repeater
      exact repeater.2
  · rw [isNewIff]
    intro distinct
    have few := collects.repeated distinct
    rw [List.filter_append, List.length_append]
    split at repeater
    · next isRepeated =>
        have none : (slots.filter fun sd => sd.slotAllocation = .repeated) =
            [] := by
          rw [List.filter_eq_nil_iff]
          intro other member isOther
          rw [decide_eq_true_eq] at isOther
          have known := collects.repeater distinct other member isOther
          rw [repeater.1] at known
          cases known
        simp [none, isRepeated]
    · next notRepeated =>
        simpa [notRepeated] using few

variable [DecidableEq Getter]

theorem collectSlot_ok {slots : List (SlotDescriptor Getter)}
    {collected next : Collected Getter} (collects : Collects slots collected)
    {sd : SlotDescriptor Getter}
    (accepted : collectSlot collected sd = .ok next) :
    Collects (slots ++ [sd]) next := by
  rw [collectSlot] at accepted
  split at accepted
  · next seen =>
      cases accepted
      apply collects.seen
      rw [← collects.getters]
      obtain ⟨osd, isSeen, isGetter⟩ := List.any_eq_true.mp seen
      rw [decide_eq_true_eq] at isGetter
      exact ⟨osd, isSeen, isGetter.symm⟩
  · next notSeen =>
      have isNew : ∀ earlier ∈ slots, earlier.slotGetter ≠ sd.slotGetter := by
        intro earlier member same
        apply notSeen
        rw [List.any_eq_true]
        obtain ⟨osd, isSeen, isGetter⟩ :=
          (collects.getters sd.slotGetter).mpr ⟨earlier, member, same⟩
        exact ⟨osd, isSeen, by simp [isGetter]⟩
      have counted : ∀ {icount ccount : Nat} {repeater},
          icount = collected.icount + (instanceEntries [sd]).length →
          ccount = collected.ccount + (classEntries [sd]).length →
          (if sd.slotAllocation = .repeated then
            collected.repeater = none ∧ repeater = some sd
          else
            repeater = collected.repeater) →
          Collects (slots ++ [sd])
            { allSlots := collected.allSlots ++ [sd], icount := icount
              ccount := ccount, repeater := repeater } :=
        fun icount ccount repeater =>
          collects.new isNew rfl icount ccount repeater
      rw [length_instanceEntries_singleton, length_classEntries_singleton,
        SlotDescriptor.isStored, SlotDescriptor.isClassSlot] at counted
      simp only at accepted
      cases allocation : sd.slotAllocation with
      | repeated =>
          simp only [allocation] at accepted counted
          split at accepted
          · cases accepted
          · next none =>
              cases accepted
              exact counted rfl rfl ⟨none, rfl⟩
      | _ =>
          simp only [allocation] at accepted counted
          cases accepted
          exact counted rfl rfl rfl

theorem collectSlot_error {collected : Collected Getter}
    {sd : SlotDescriptor Getter} {error : SlotError}
    (refused : collectSlot collected sd = .error error) :
    error = .multipleRepeatedSlots := by
  rw [collectSlot] at refused
  split at refused
  · cases refused
  · simp only at refused
    split at refused
    all_goals try split at refused
    all_goals try cases refused
    rfl

/-- What the first pass makes of some slots. -/
def Collecting (slots : List (SlotDescriptor Getter)) :
    Except SlotError (Collected Getter) → Prop
  | .ok collected => Collects slots collected
  | .error error => error = .multipleRepeatedSlots

theorem foldlM_collectSlot (slots : List (SlotDescriptor Getter)) :
    Collecting slots (slots.foldlM collectSlot nothingCollected) := by
  induction slots using List.reverseRecOn with
  | nil => exact Collects.nothing
  | append_singleton slots sd ih =>
      rw [List.foldlM_append]
      cases before : slots.foldlM collectSlot nothingCollected with
      | error error =>
          rw [before] at ih
          exact ih
      | ok collected =>
          rw [before] at ih
          have last : Collecting (slots ++ [sd]) (collectSlot collected sd) := by
            cases result : collectSlot collected sd with
            | error error => exact collectSlot_error result
            | ok next => exact collectSlot_ok ih result
          have single : [sd].foldlM collectSlot collected =
              collectSlot collected sd := by simp
          rw [← single] at last
          exact last

theorem collectSuperclassSlots_eq (graph : SlotGraph Class Getter)
    (superclasses : List Class) (collected : Collected Getter) :
    graph.collectSuperclassSlots superclasses collected =
      (graph.slots superclasses).foldlM collectSlot collected := by
  induction superclasses with
  | nil => rfl
  | cons class_ superclasses ih =>
      rw [SlotGraph.collectSuperclassSlots, ih, SlotGraph.slots_cons,
        List.foldlM_append]

end Counting

/-! ## The pass that allocates -/

section Allocating

/-- The slots in a vector. -/
def entries (vec : List (Option (SlotDescriptor Getter))) :
    List (SlotDescriptor Getter) :=
  vec.reduceOption

theorem bind_ok {Value Result : Type} {first : Except SlotError Value}
    {rest : Value → Except SlotError Result} {result : Result}
    (accepted : first >>= rest = .ok result) :
    ∃ value, first = .ok value ∧ rest value = .ok result := by
  cases first with
  | error error => cases accepted
  | ok value => exact ⟨value, rfl, accepted⟩

/-- A slot is put into a free place. -/
structure Places (sd : SlotDescriptor Getter)
    (vec next : List (Option (SlotDescriptor Getter))) : Prop where
  length : next.length = vec.length
  perm : (entries next).Perm (sd :: entries vec)
  keeps : ∀ (i : Nat) other, vec[i]? = some (some other) →
    next[i]? = some (some other)

theorem Places.set {sd : SlotDescriptor Getter}
    {vec : List (Option (SlotDescriptor Getter))} {i : Nat}
    (free : vec[i]? = some none) : Places sd vec (vec.set i (some sd)) := by
  obtain ⟨inside, isFree⟩ := List.getElem?_eq_some_iff.mp free
  obtain ⟨front, back, shape, -, set⟩ := List.exists_of_set inside
  refine ⟨List.length_set, ?_, ?_⟩
  · rw [set, shape, isFree]
    simp only [entries, List.reduceOption_append,
      List.reduceOption_cons_of_some, List.reduceOption_cons_of_none]
    exact List.perm_middle
  · intro j other there
    rw [List.getElem?_set_ne, there]
    rintro rfl
    rw [free] at there
    cases there

theorem Places.cons {sd : SlotDescriptor Getter}
    {vec next : List (Option (SlotDescriptor Getter))}
    (places : Places sd vec next) (placed : SlotDescriptor Getter) :
    Places sd (some placed :: vec) (some placed :: next) where
  length := congrArg (· + 1) places.length
  perm := (places.perm.cons placed).trans (List.Perm.swap sd placed _)
  keeps i other there := by
    cases i with
    | zero => exact there
    | succ i => exact places.keeps i other there

theorem positionSlot_ok {sd : SlotDescriptor Getter}
    {vec next : List (Option (SlotDescriptor Getter))}
    (accepted : positionSlot sd vec = .ok next) : Places sd vec next := by
  induction vec generalizing next with
  | nil => cases accepted
  | cons place vec ih =>
      cases place with
      | none =>
          cases accepted
          exact @Places.set Getter sd (none :: vec) 0 rfl
      | some placed =>
          obtain ⟨later, rest, isNext⟩ := bind_ok accepted
          cases isNext
          exact (ih rest).cons placed

/-- There is a place as long as the vector is not full. -/
theorem exists_positionSlot (sd : SlotDescriptor Getter)
    {vec : List (Option (SlotDescriptor Getter))}
    (room : (entries vec).length < vec.length) :
    ∃ next, positionSlot sd vec = .ok next := by
  induction vec with
  | nil => cases room
  | cons place vec ih =>
      cases place with
      | none => exact ⟨_, rfl⟩
      | some placed =>
          obtain ⟨rest, isRest⟩ := ih (Nat.lt_of_succ_lt_succ room)
          refine ⟨some placed :: rest, ?_⟩
          rw [positionSlot, isRest]
          rfl

theorem positionSizeSlot_ok {repeater : SlotDescriptor Getter}
    {vec next : List (Option (SlotDescriptor Getter))} {icount : Nat}
    (accepted : positionSizeSlot (some repeater) vec icount = .ok next) :
    Places repeater.sizeSlotDescriptor vec next := by
  rw [positionSizeSlot] at accepted
  split at accepted
  · cases accepted
  · split at accepted
    · cases accepted
    · cases accepted
    · next free =>
        cases accepted
        exact Places.set free

/-- What both vectors hold after some slots. -/
structure Allocates (slots : List (SlotDescriptor Getter))
    (vectors next : Vectors Getter) : Prop where
  ilength : next.ivector.length = vectors.ivector.length
  clength : next.cvector.length = vectors.cvector.length
  iperm : (entries next.ivector).Perm
    (entries vectors.ivector ++ instanceEntries slots)
  cperm : (entries next.cvector).Perm
    (entries vectors.cvector ++ classEntries slots)
  keeps : ∀ (i : Nat) other, vectors.ivector[i]? = some (some other) →
    next.ivector[i]? = some (some other)

theorem Allocates.nil (vectors : Vectors Getter) :
    Allocates [] vectors vectors where
  ilength := rfl
  clength := rfl
  iperm := by simp [instanceEntries]
  cperm := by simp [classEntries]
  keeps _ _ there := there

theorem Allocates.trans {slots others : List (SlotDescriptor Getter)}
    {vectors middle next : Vectors Getter}
    (first : Allocates slots vectors middle)
    (second : Allocates others middle next) :
    Allocates (slots ++ others) vectors next where
  ilength := second.ilength.trans first.ilength
  clength := second.clength.trans first.clength
  iperm := by
    rw [instanceEntries_append, ← List.append_assoc]
    exact second.iperm.trans (first.iperm.append_right _)
  cperm := by
    rw [classEntries_append, ← List.append_assoc]
    exact second.cperm.trans (first.cperm.append_right _)
  keeps i other there := second.keeps i other (first.keeps i other there)

theorem allocateSlot_ok {collected : Collected Getter}
    {vectors next : Vectors Getter} {sd : SlotDescriptor Getter}
    (repeater : sd.slotAllocation = .repeated → collected.repeater = some sd)
    (accepted : allocateSlot collected vectors sd = .ok next) :
    Allocates [sd] vectors next := by
  have inInstance : ∀ {ivector}, sd.isStored = true →
      sd.isClassSlot = false → Places sd.stored vectors.ivector ivector →
      Allocates [sd] vectors { vectors with ivector := ivector } := by
    intro ivector isStored notClass places
    refine ⟨places.length, rfl, ?_, ?_, places.keeps⟩
    · simpa [instanceEntries, isStored] using
        places.perm.trans (List.perm_append_singleton _ _).symm
    · simp [classEntries, notClass]
  have inClass : ∀ {cvector}, sd.isStored = false →
      sd.isClassSlot = true → Places sd vectors.cvector cvector →
      Allocates [sd] vectors { vectors with cvector := cvector } := by
    intro cvector notStored isClass places
    refine ⟨rfl, places.length, ?_, ?_, fun _ _ there => there⟩
    · simp [instanceEntries, notStored]
    · simpa [classEntries, isClass] using
        places.perm.trans (List.perm_append_singleton _ _).symm
  rw [SlotDescriptor.isStored, SlotDescriptor.isClassSlot,
    SlotDescriptor.stored] at inInstance
  rw [SlotDescriptor.isStored, SlotDescriptor.isClassSlot] at inClass
  rw [allocateSlot] at accepted
  cases allocation : sd.slotAllocation with
  | instance_ =>
      simp only [allocation] at accepted inInstance
      obtain ⟨ivector, placed, isNext⟩ := bind_ok accepted
      cases isNext
      exact inInstance rfl rfl (positionSlot_ok placed)
  | eachSubclass =>
      simp only [allocation] at accepted inClass
      obtain ⟨cvector, placed, isNext⟩ := bind_ok accepted
      cases isNext
      exact inClass rfl rfl (positionSlot_ok placed)
  | class_ =>
      simp only [allocation] at accepted inClass
      obtain ⟨cvector, placed, isNext⟩ := bind_ok accepted
      cases isNext
      exact inClass rfl rfl (positionSlot_ok placed)
  | virtual =>
      simp only [allocation] at accepted
      cases accepted
      refine ⟨rfl, rfl, ?_, ?_, fun _ _ there => there⟩
      · simp [instanceEntries, SlotDescriptor.isStored, allocation]
      · simp [classEntries, SlotDescriptor.isClassSlot, allocation]
  | repeated =>
      simp only [allocation, repeater allocation] at accepted inInstance
      obtain ⟨ivector, placed, isNext⟩ := bind_ok accepted
      cases isNext
      exact inInstance rfl rfl (positionSizeSlot_ok placed)

theorem foldlM_allocateSlot_ok {collected : Collected Getter}
    {slots : List (SlotDescriptor Getter)}
    (repeater : ∀ sd ∈ slots, sd.slotAllocation = .repeated →
      collected.repeater = some sd)
    {vectors next : Vectors Getter}
    (accepted : slots.foldlM (allocateSlot collected) vectors = .ok next) :
    Allocates slots vectors next := by
  induction slots generalizing vectors with
  | nil =>
      cases accepted
      exact Allocates.nil next
  | cons sd slots ih =>
      rw [List.foldlM_cons] at accepted
      obtain ⟨middle, first, rest⟩ := bind_ok accepted
      have here := allocateSlot_ok (repeater sd List.mem_cons_self) first
      exact here.trans (ih (fun other member =>
        repeater other (List.mem_cons_of_mem sd member)) rest)

/-- All free places are behind the taken ones. -/
def Packed (vec : List (Option (SlotDescriptor Getter))) : Prop :=
  ∃ (placed : List (SlotDescriptor Getter)) (free : Nat),
    vec = placed.map some ++ List.replicate free none

theorem entries_packed (placed : List (SlotDescriptor Getter)) (free : Nat) :
    entries (placed.map some ++ List.replicate free none) = placed := by
  rw [entries, List.reduceOption_append, List.reduceOption_replicate_none,
    List.append_nil]
  induction placed with
  | nil => rfl
  | cons first placed ih =>
      rw [List.map_cons, List.reduceOption_cons_of_some, ih]

theorem Packed.positionSlot {sd : SlotDescriptor Getter}
    {vec next : List (Option (SlotDescriptor Getter))} (packed : Packed vec)
    (accepted : SlotLayout.positionSlot sd vec = .ok next) : Packed next := by
  obtain ⟨placed, free, rfl⟩ := packed
  induction placed generalizing next with
  | nil =>
      cases free with
      | zero => cases accepted
      | succ free =>
          cases accepted
          exact ⟨[sd], free, rfl⟩
  | cons first placed ih =>
      obtain ⟨rest, isRest, isNext⟩ := bind_ok accepted
      cases isNext
      obtain ⟨later, free, rfl⟩ := ih isRest
      exact ⟨first :: later, free, rfl⟩

/-- The last place is free as long as the vector is not full. -/
theorem Packed.positionSizeSlot
    {vec : List (Option (SlotDescriptor Getter))} (packed : Packed vec)
    (repeater : Option (SlotDescriptor Getter)) (room : (entries vec).length < vec.length) :
    ∃ next, SlotLayout.positionSizeSlot repeater vec vec.length = .ok next := by
  obtain ⟨placed, free, rfl⟩ := packed
  rw [entries_packed, List.length_append, List.length_map,
    List.length_replicate] at room
  have last : (placed.map some ++ List.replicate free
      (none : Option (SlotDescriptor Getter)))[placed.length + free - 1]? =
        some none := by
    rw [List.getElem?_append_right (by simp; omega), List.length_map,
      List.getElem?_replicate, if_pos (by omega)]
  rw [SlotLayout.positionSizeSlot, List.length_append, List.length_map,
    List.length_replicate, if_neg (by omega), last]
  exact ⟨_, rfl⟩

/-- The vectors have room for some slots. -/
structure Fits (collected : Collected Getter)
    (slots : List (SlotDescriptor Getter)) (vectors : Vectors Getter) :
    Prop where
  icount : collected.icount = vectors.ivector.length
  iroom : (entries vectors.ivector).length + (instanceEntries slots).length ≤
    vectors.ivector.length
  croom : (entries vectors.cvector).length + (classEntries slots).length ≤
    vectors.cvector.length
  repeater : ∀ sd ∈ slots, sd.slotAllocation = .repeated →
    collected.repeater = some sd
  repeated : (slots.filter fun sd => sd.slotAllocation = .repeated).length ≤ 1
  packed : ∀ sd ∈ slots, sd.slotAllocation = .repeated → Packed vectors.ivector

/-- A slot that fits is placed. -/
theorem Fits.exists_allocateSlot {collected : Collected Getter}
    {sd : SlotDescriptor Getter} {slots : List (SlotDescriptor Getter)}
    {vectors : Vectors Getter} (fits : Fits collected (sd :: slots) vectors) :
    ∃ next, allocateSlot collected vectors sd = .ok next ∧
      (sd.slotAllocation ≠ .repeated → Packed vectors.ivector →
        Packed next.ivector) := by
  have iroom := fits.iroom
  have croom := fits.croom
  rw [← List.singleton_append, instanceEntries_append, List.length_append,
    length_instanceEntries_singleton, SlotDescriptor.isStored] at iroom
  rw [← List.singleton_append, classEntries_append, List.length_append,
    length_classEntries_singleton, SlotDescriptor.isClassSlot] at croom
  rw [allocateSlot]
  cases allocation : sd.slotAllocation with
  | instance_ =>
      simp only [allocation, decide_true, Bool.true_or, if_true] at iroom
      have room : (entries vectors.ivector).length < vectors.ivector.length := by
        omega
      obtain ⟨ivector, placed⟩ := exists_positionSlot sd room
      simp only [placed]
      exact ⟨_, rfl, fun _ packed => packed.positionSlot placed⟩
  | eachSubclass =>
      simp only [allocation, decide_true, Bool.true_or, if_true] at croom
      have room : (entries vectors.cvector).length < vectors.cvector.length := by
        omega
      obtain ⟨cvector, placed⟩ := exists_positionSlot sd room
      simp only [placed]
      exact ⟨_, rfl, fun _ packed => packed⟩
  | class_ =>
      simp only [allocation, decide_true, Bool.or_true, if_true] at croom
      have room : (entries vectors.cvector).length < vectors.cvector.length := by
        omega
      obtain ⟨cvector, placed⟩ := exists_positionSlot sd room
      simp only [placed]
      exact ⟨_, rfl, fun _ packed => packed⟩
  | virtual => exact ⟨vectors, rfl, fun _ packed => packed⟩
  | repeated =>
      simp only [allocation, decide_true, Bool.or_true, if_true] at iroom
      have packed := fits.packed sd List.mem_cons_self allocation
      obtain ⟨ivector, placed⟩ := packed.positionSizeSlot collected.repeater
        (by omega)
      simp only [fits.icount, placed]
      exact ⟨_, rfl, fun notRepeated => absurd rfl notRepeated⟩

theorem Fits.exists_foldlM {collected : Collected Getter}
    {slots : List (SlotDescriptor Getter)} {vectors : Vectors Getter}
    (fits : Fits collected slots vectors) :
    ∃ next, slots.foldlM (allocateSlot collected) vectors = .ok next := by
  induction slots generalizing vectors with
  | nil => exact ⟨vectors, rfl⟩
  | cons sd slots ih =>
      obtain ⟨middle, accepted, packed⟩ := fits.exists_allocateSlot
      have here := allocateSlot_ok (fits.repeater sd List.mem_cons_self) accepted
      have iroom := fits.iroom
      have croom := fits.croom
      have repeated := fits.repeated
      have ilength := here.iperm.length_eq
      have clength := here.cperm.length_eq
      rw [← List.singleton_append, instanceEntries_append,
        List.length_append] at iroom
      rw [← List.singleton_append, classEntries_append,
        List.length_append] at croom
      rw [List.length_append] at ilength clength
      have next : Fits collected slots middle := by
        refine ⟨fits.icount.trans here.ilength.symm, ?_, ?_, ?_, ?_, ?_⟩
        · rw [here.ilength]
          omega
        · rw [here.clength]
          omega
        · intro other member
          exact fits.repeater other (List.mem_cons_of_mem sd member)
        · exact Nat.le_trans (List.Sublist.length_le
            (List.Sublist.filter _ (List.sublist_cons_self sd slots))) repeated
        · intro other member isRepeated
          apply packed _ (fits.packed other (List.mem_cons_of_mem sd member)
            isRepeated)
          intro isRepeatedToo
          rw [List.filter_cons_of_pos (by simpa using isRepeatedToo),
            List.length_cons] at repeated
          have none : (slots.filter fun sd =>
              sd.slotAllocation = .repeated) = [] :=
            List.length_eq_zero_iff.mp (by omega)
          rw [List.filter_eq_nil_iff] at none
          exact none other member (by simpa using isRepeated)
      obtain ⟨last, rest⟩ := ih next
      refine ⟨last, ?_⟩
      rw [List.foldlM_cons, accepted]
      exact rest

/-! ## The first primary superclass -/

variable [DecidableEq Getter]

/-- The slots of the first primary superclass come first. -/
theorem mergeVectors_ok {placed : List (SlotDescriptor Getter)} {count : Nat}
    {next : List (Option (SlotDescriptor Getter))}
    (accepted : mergeVectors (List.replicate count none) (placed.map some) =
      .ok next) :
    placed.length ≤ count ∧ next =
      placed.map some ++ List.replicate (count - placed.length) none := by
  induction placed generalizing count next with
  | nil =>
      cases count <;> cases accepted <;> exact ⟨Nat.zero_le _, rfl⟩
  | cons first placed ih =>
      cases count with
      | zero => cases accepted
      | succ count =>
          obtain ⟨rest, isRest, isNext⟩ := bind_ok accepted
          cases isNext
          obtain ⟨room, rfl⟩ := ih isRest
          refine ⟨Nat.succ_le_succ room, ?_⟩
          rw [List.length_cons, Nat.add_sub_add_right]
          rfl

theorem exists_mergeVectors {placed : List (SlotDescriptor Getter)}
    {count : Nat} (room : placed.length ≤ count) :
    ∃ next, mergeVectors (List.replicate count none) (placed.map some) =
      .ok next := by
  induction placed generalizing count with
  | nil => cases count <;> exact ⟨_, rfl⟩
  | cons first placed ih =>
      cases count with
      | zero => cases room
      | succ count =>
          obtain ⟨rest, isRest⟩ := ih (Nat.le_of_succ_le_succ room)
          refine ⟨some first :: rest, ?_⟩
          rw [List.replicate_succ, List.map_cons, mergeVectors, isRest]
          rfl

end Allocating

end OpenDylan.Runtime.SlotLayout
