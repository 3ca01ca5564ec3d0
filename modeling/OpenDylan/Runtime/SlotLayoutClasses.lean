import OpenDylan.Runtime.SlotLayoutInvariant

/-!
# Layouts of classes

The layout of a class has one place for every instance slot of its superclasses
exactly when no slot that has a place has the getter of a slot that came before
it, and the size slot has a getter of its own.  The first pass then counts what
the second one places.
-/

namespace OpenDylan.Runtime.SlotLayout

variable {Class Getter : Type}

/-! ## Layouts -/

section Layouts

/-- A vector without free places holds some slots. -/
def Full (vec : List (Option (SlotDescriptor Getter)))
    (slots : List (SlotDescriptor Getter)) : Prop :=
  ∃ placed : List (SlotDescriptor Getter), vec = placed.map some ∧
    placed.Perm slots

/-- A vector is full once its slots are as many as its places. -/
theorem full_of_length {vec : List (Option (SlotDescriptor Getter))}
    {slots : List (SlotDescriptor Getter)} (perm : (entries vec).Perm slots)
    (length : vec.length ≤ slots.length) : Full vec slots := by
  refine ⟨entries vec, ?_, perm⟩
  have count : (entries vec).length = vec.length := by
    have le := List.reduceOption_length_le vec
    have same := perm.length_eq
    simp only [entries] at same ⊢
    omega
  have every := List.reduceOption_length_eq_iff.mp count
  clear count length perm
  induction vec with
  | nil => rfl
  | cons place vec ih =>
      cases place with
      | none => cases every none List.mem_cons_self
      | some sd =>
          have rest := ih fun other member =>
            every other (List.mem_cons_of_mem _ member)
          rw [entries, List.reduceOption_cons_of_some, List.map_cons]
          exact congrArg (some sd :: ·) rest

theorem firstPrimary_mem {graph : SlotGraph Class Getter}
    {class_ first : Class} (isFirst : graph.firstPrimary class_ = some first) :
    first ∈ (graph.allSuperclasses class_).tail :=
  List.mem_of_find?_eq_some isFirst

/-- The slots that the first primary superclass has. -/
def SlotGraph.primarySlots (graph : SlotGraph Class Getter) (class_ : Class) :
    List (SlotDescriptor Getter) :=
  match graph.firstPrimary class_ with
  | none => []
  | some first => graph.slots (graph.allSuperclasses first)

/-- A layout has exactly what it should have. -/
structure Layout.Filled (slots : List (SlotDescriptor Getter))
    (layout : Layout Getter) : Prop where
  ivector : Full layout.instanceSlotDescriptors (instanceEntries slots)
  cvector : Full layout.classSlotDescriptors (classEntries slots)
  size : layout.instanceStorageSize = (instanceEntries slots).length
  repeated : ∀ sd ∈ slots, sd.slotAllocation = .repeated →
    layout.repeatedSlotDescriptor = some sd

/-- One layout keeps the offsets of another one. -/
def Layout.Keeps (layout other : Layout Getter) : Prop :=
  ∀ (i : Nat) sd, other.instanceSlotDescriptors[i]? = some (some sd) →
    layout.instanceSlotDescriptors[i]? = some (some sd)

/-- The layouts that there are. -/
structure Sound (graph : SlotGraph Class Getter)
    (layouts : Class → Option (Layout Getter)) : Prop where
  complete : ∀ class_ layout, layouts class_ = some layout →
    ∀ sup ∈ (graph.allSuperclasses class_).tail, (layouts sup).isSome = true
  filled : ∀ class_ layout, layouts class_ = some layout →
    layout.Filled (graph.slots (graph.allSuperclasses class_))
  keeps : ∀ class_ layout, layouts class_ = some layout →
    ∀ sup ∈ (graph.allSuperclasses class_).tail, graph.isPrimary sup = true →
      ∀ other, layouts sup = some other → layout.Keeps other

variable {graph : SlotGraph Class Getter}
  {layouts : Class → Option (Layout Getter)} {class_ : Class}

/-- What the vectors hold at first. -/
structure Starts (graph : SlotGraph Class Getter)
    (layouts : Class → Option (Layout Getter)) (class_ : Class)
    (collected : Collected Getter) (vectors : Vectors Getter) : Prop where
  ilength : vectors.ivector.length = collected.icount
  clength : vectors.cvector.length = collected.ccount
  iperm : (entries vectors.ivector).Perm
    (instanceEntries (graph.primarySlots class_))
  cperm : (entries vectors.cvector).Perm
    (classEntries (graph.primarySlots class_))
  packed : Packed vectors.ivector
  keeps : ∀ first layout, graph.firstPrimary class_ = some first →
    layouts first = some layout → ∀ (i : Nat) sd,
      layout.instanceSlotDescriptors[i]? = some (some sd) →
        vectors.ivector[i]? = some (some sd)

/-- Primary superclasses of the first one have their places in it. -/
theorem keeps_primaries {layout : Layout Getter} (sound : Sound graph layouts)
    (complete : ∀ sup ∈ (graph.allSuperclasses class_).tail,
      (layouts sup).isSome = true)
    (keepsFirst : ∀ first other, graph.firstPrimary class_ = some first →
      layouts first = some other → layout.Keeps other)
    {sup : Class} (isSuper : sup ∈ (graph.allSuperclasses class_).tail)
    (isPrimary : graph.isPrimary sup = true) {other : Layout Getter}
    (isOther : layouts sup = some other) : layout.Keeps other := by
  have some_ : (graph.firstPrimary class_).isSome = true := by
    rw [SlotGraph.firstPrimary, List.find?_isSome]
    exact ⟨sup, isSuper, isPrimary⟩
  obtain ⟨first, isFirst⟩ := Option.isSome_iff_exists.mp some_
  obtain ⟨middle, isMiddle⟩ := Option.isSome_iff_exists.mp
    (complete first (firstPrimary_mem isFirst))
  have below := keepsFirst first middle isFirst isMiddle
  have above := graph.primaries isFirst isSuper isPrimary
  by_cases same : sup = first
  · rw [same, isMiddle, Option.some_inj] at isOther
    rw [← isOther]
    exact below
  · have inTail : sup ∈ (graph.allSuperclasses first).tail := by
      have head := graph.head first
      cases superclasses : graph.allSuperclasses first with
      | nil => rw [superclasses] at above; cases above
      | cons own others =>
          rw [superclasses, List.head?_cons, Option.some_inj] at head
          rw [superclasses, List.mem_cons, head] at above
          exact above.resolve_left same
    intro i sd there
    exact below i sd
      (sound.keeps first middle isMiddle sup inTail isPrimary other isOther i
        sd there)

variable [DecidableEq Getter]

theorem initialVectors_ok (sound : Sound graph layouts)
    (complete : ∀ sup ∈ (graph.allSuperclasses class_).tail,
      (layouts sup).isSome = true)
    {collected : Collected Getter} {vectors : Vectors Getter}
    (accepted : initialVectors collected
      ((graph.firstPrimary class_).bind layouts) = .ok vectors) :
    Starts graph layouts class_ collected vectors := by
  cases isFirst : graph.firstPrimary class_ with
  | none =>
      rw [isFirst] at accepted
      cases accepted
      refine ⟨List.length_replicate, List.length_replicate, ?_, ?_,
        ⟨[], collected.icount, rfl⟩, ?_⟩
      · simp [entries, SlotGraph.primarySlots, isFirst, instanceEntries]
      · simp [entries, SlotGraph.primarySlots, isFirst, classEntries]
      · intro first layout isFirst'
        rw [isFirst] at isFirst'
        cases isFirst'
  | some first =>
      obtain ⟨layout, isLayout⟩ := Option.isSome_iff_exists.mp
        (complete first (firstPrimary_mem isFirst))
      have filled := sound.filled first layout isLayout
      obtain ⟨placed, isPlaced, perm⟩ := filled.ivector
      obtain ⟨cplaced, isCplaced, cperm⟩ := filled.cvector
      rw [isFirst, Option.bind_some, isLayout] at accepted
      simp only [initialVectors, isPlaced, isCplaced] at accepted
      obtain ⟨ivector, merged, rest⟩ := bind_ok accepted
      obtain ⟨cvector, mergedToo, isVectors⟩ := bind_ok rest
      cases isVectors
      obtain ⟨room, rfl⟩ := mergeVectors_ok merged
      obtain ⟨roomToo, rfl⟩ := mergeVectors_ok mergedToo
      refine ⟨?_, ?_, ?_, ?_, ⟨placed, _, rfl⟩, ?_⟩
      · simp
        omega
      · simp
        omega
      · simpa [entries_packed, SlotGraph.primarySlots, isFirst] using perm
      · simpa [entries_packed, SlotGraph.primarySlots, isFirst] using cperm
      · intro other otherLayout isOther isOtherLayout i sd there
        rw [isFirst, Option.some_inj] at isOther
        rw [← isOther, isLayout, Option.some_inj] at isOtherLayout
        rw [← isOtherLayout, isPlaced] at there
        rw [List.getElem?_append_left, there]
        exact (List.getElem?_eq_some_iff.mp there).1

theorem exists_initialVectors (sound : Sound graph layouts)
    (complete : ∀ sup ∈ (graph.allSuperclasses class_).tail,
      (layouts sup).isSome = true)
    {collected : Collected Getter}
    (iroom : (instanceEntries (graph.primarySlots class_)).length ≤
      collected.icount)
    (croom : (classEntries (graph.primarySlots class_)).length ≤
      collected.ccount) :
    ∃ vectors, initialVectors collected
      ((graph.firstPrimary class_).bind layouts) = .ok vectors := by
  rw [SlotGraph.primarySlots] at iroom croom
  cases isFirst : graph.firstPrimary class_ with
  | none => exact ⟨_, rfl⟩
  | some first =>
      obtain ⟨layout, isLayout⟩ := Option.isSome_iff_exists.mp
        (complete first (firstPrimary_mem isFirst))
      have filled := sound.filled first layout isLayout
      obtain ⟨placed, isPlaced, perm⟩ := filled.ivector
      obtain ⟨cplaced, isCplaced, cperm⟩ := filled.cvector
      rw [isFirst] at iroom croom
      obtain ⟨ivector, merged⟩ :=
        exists_mergeVectors (Nat.le_trans (Nat.le_of_eq perm.length_eq) iroom)
      obtain ⟨cvector, mergedToo⟩ :=
        exists_mergeVectors (Nat.le_trans (Nat.le_of_eq cperm.length_eq) croom)
      rw [Option.bind_some, isLayout]
      simp only [initialVectors, isPlaced, isCplaced, merged, mergedToo]
      exact ⟨_, rfl⟩

end Layouts

/-! ## Layouts of new classes -/

section NewClasses

variable [DecidableEq Class]

/-- The slots that the first primary superclass does not have. -/
def SlotGraph.otherSlots (graph : SlotGraph Class Getter) (class_ : Class) :
    List (SlotDescriptor Getter) :=
  graph.slots ((graph.allSuperclasses class_).filter fun superclass =>
    !graph.inherited (graph.firstPrimary class_) superclass)

theorem slots_perm_primary (graph : SlotGraph Class Getter) (class_ : Class) :
    (graph.slots (graph.allSuperclasses class_)).Perm
      (graph.primarySlots class_ ++ graph.otherSlots class_) := by
  rw [SlotGraph.primarySlots, SlotGraph.otherSlots]
  cases isFirst : graph.firstPrimary class_ with
  | none => simp [SlotGraph.inherited]
  | some first =>
      have above := List.mem_of_mem_tail (firstPrimary_mem isFirst)
      have split := List.filter_append_perm
        (fun superclass => graph.inherited (some first) superclass)
        (graph.allSuperclasses class_)
      have same : ((graph.allSuperclasses class_).filter fun superclass =>
          graph.inherited (some first) superclass).Perm
            (graph.allSuperclasses first) := by
        rw [List.perm_ext_iff_of_nodup ((graph.nodup class_).filter _)
          (graph.nodup first)]
        intro superclass
        simp only [List.mem_filter, SlotGraph.inherited, Option.any_some,
          decide_eq_true_eq]
        exact ⟨And.right, fun member => ⟨graph.trans above member, member⟩⟩
      have parts := graph.slots_perm
        (split.symm.trans (same.append_right _))
      rw [SlotGraph.slots_append] at parts
      exact parts.trans List.perm_append_comm

theorem allocateSuperclassSlots_eq (graph : SlotGraph Class Getter)
    (firstPrimary : Option Class) (collected : Collected Getter)
    (superclasses : List Class) (vectors : Vectors Getter) :
    graph.allocateSuperclassSlots firstPrimary collected superclasses vectors =
      (graph.slots (superclasses.filter fun superclass =>
        !graph.inherited firstPrimary superclass)).foldlM
          (allocateSlot collected) vectors := by
  induction superclasses with
  | nil => rfl
  | cons class_ superclasses ih =>
      rw [SlotGraph.allocateSuperclassSlots, ih]
      cases inherited : graph.inherited firstPrimary class_ with
      | true =>
          rw [List.filter_cons_of_neg (by simp [inherited])]
          exact bind_pure _
      | false =>
          rw [List.filter_cons_of_pos (by simp [inherited]),
            SlotGraph.slots_cons, List.foldlM_append]
          rfl

variable [DecidableEq Getter] {graph : SlotGraph Class Getter}
  {layouts : Class → Option (Layout Getter)} {class_ : Class}

/-- What is computed holds everything once, if the repeated slot is the one
that was found. -/
theorem computeSlotDescriptors_ok (sound : Sound graph layouts)
    (complete : ∀ sup ∈ (graph.allSuperclasses class_).tail,
      (layouts sup).isSome = true)
    {layout : Layout Getter}
    (accepted : graph.computeSlotDescriptors layouts class_ = .ok layout)
    (repeater : ∀ sd ∈ graph.slots (graph.allSuperclasses class_),
      sd.slotAllocation = .repeated →
        layout.repeatedSlotDescriptor = some sd) :
    NewGetters (graph.slots (graph.allSuperclasses class_)) ∧
      layout.Filled (graph.slots (graph.allSuperclasses class_)) ∧
      ∀ first other, graph.firstPrimary class_ = some first →
        layouts first = some other → layout.Keeps other := by
  have split := slots_perm_primary graph class_
  obtain ⟨collected, isCollected, accepted⟩ := bind_ok accepted
  obtain ⟨vectors, isVectors, accepted⟩ := bind_ok accepted
  obtain ⟨next, isNext, accepted⟩ := bind_ok accepted
  cases accepted
  rw [collectSuperclassSlots_eq] at isCollected
  rw [allocateSuperclassSlots_eq] at isNext
  have collects : Collecting (graph.slots (graph.allSuperclasses class_))
      (.ok collected) := by
    rw [← isCollected]
    exact foldlM_collectSlot _
  have starts := initialVectors_ok sound complete isVectors
  have allocates : Allocates (graph.otherSlots class_) vectors next := by
    apply foldlM_allocateSlot_ok _ isNext
    intro sd member
    exact repeater sd (split.mem_iff.mpr (List.mem_append_right _ member))
  have iperm : (entries next.ivector).Perm
      (instanceEntries (graph.slots (graph.allSuperclasses class_))) := by
    apply allocates.iperm.trans
    apply (starts.iperm.append_right _).trans
    rw [← instanceEntries_append]
    exact (instanceEntries_perm split).symm
  have cperm : (entries next.cvector).Perm
      (classEntries (graph.slots (graph.allSuperclasses class_))) := by
    apply allocates.cperm.trans
    apply (starts.cperm.append_right _).trans
    rw [← classEntries_append]
    exact (classEntries_perm split).symm
  have ilength := allocates.ilength.trans starts.ilength
  have clength := allocates.clength.trans starts.clength
  have icount : (instanceEntries (graph.slots
      (graph.allSuperclasses class_))).length ≤ collected.icount := by
    rw [← ilength, ← iperm.length_eq]
    exact List.reduceOption_length_le _
  have ccount : (classEntries (graph.slots
      (graph.allSuperclasses class_))).length ≤ collected.ccount := by
    rw [← clength, ← cperm.length_eq]
    exact List.reduceOption_length_le _
  have isIcount := Nat.le_antisymm collects.icount_le icount
  have isCcount := Nat.le_antisymm collects.ccount_le ccount
  refine ⟨collects.exact_.mpr ⟨isIcount, isCcount⟩, ⟨?_, ?_, isIcount,
    repeater⟩, ?_⟩
  · apply full_of_length iperm
    rw [ilength]
    exact collects.icount_le
  · apply full_of_length cperm
    rw [clength]
    exact collects.ccount_le
  · intro first other isFirst isOther i sd there
    exact allocates.keeps i sd (starts.keeps first other isFirst isOther i sd
      there)

/-- Where every slot with a place has a new getter, all of them find one. -/
theorem exists_computeSlotDescriptors (sound : Sound graph layouts)
    (complete : ∀ sup ∈ (graph.allSuperclasses class_).tail,
      (layouts sup).isSome = true)
    (isNew : NewGetters (graph.slots (graph.allSuperclasses class_)))
    (accepted : graph.computeSlotDescriptors layouts class_ ≠
      .error .multipleRepeatedSlots) :
    ∃ layout, graph.computeSlotDescriptors layouts class_ = .ok layout ∧
      ∀ sd ∈ graph.slots (graph.allSuperclasses class_),
        sd.slotAllocation = .repeated →
          layout.repeatedSlotDescriptor = some sd := by
  have split := slots_perm_primary graph class_
  have collecting := foldlM_collectSlot
    (graph.slots (graph.allSuperclasses class_))
  rw [← collectSuperclassSlots_eq graph (graph.allSuperclasses class_),
    nothingCollected] at collecting
  rw [SlotGraph.computeSlotDescriptors] at accepted ⊢
  generalize graph.collectSuperclassSlots (graph.allSuperclasses class_)
    { allSlots := [], icount := 0, ccount := 0, repeater := none } = result
    at collecting accepted ⊢
  cases result with
  | error error =>
      rw [collecting] at accepted
      exact absurd rfl accepted
  | ok collected =>
      have counts := collecting.exact_.mp isNew
      have repeater := collecting.repeater isNew
      have ilengths := (instanceEntries_perm split).length_eq
      have clengths := (classEntries_perm split).length_eq
      rw [instanceEntries_append, List.length_append, ← counts.1] at ilengths
      rw [classEntries_append, List.length_append, ← counts.2] at clengths
      have iroom : (instanceEntries (graph.primarySlots class_)).length ≤
          collected.icount := by omega
      have croom : (classEntries (graph.primarySlots class_)).length ≤
          collected.ccount := by omega
      obtain ⟨vectors, isVectors⟩ :=
        exists_initialVectors sound complete iroom croom
      have starts := initialVectors_ok sound complete isVectors
      have fits : Fits collected (graph.otherSlots class_) vectors := by
        refine ⟨starts.ilength.symm, ?_, ?_, ?_, ?_, fun _ _ _ => starts.packed⟩
        · rw [starts.iperm.length_eq, starts.ilength]
          omega
        · rw [starts.cperm.length_eq, starts.clength]
          omega
        · intro sd member
          exact repeater sd (split.mem_iff.mpr (List.mem_append_right _ member))
        · have few := collecting.repeated isNew
          rw [(split.filter _).length_eq, List.filter_append,
            List.length_append] at few
          omega
      obtain ⟨next, isNext⟩ := fits.exists_foldlM
      refine ⟨{
        slotDescriptors := collected.allSlots
        instanceSlotDescriptors := next.ivector
        classSlotDescriptors := next.cvector
        repeatedSlotDescriptor := collected.repeater
        instanceStorageSize := collected.icount }, ?_, repeater⟩
      change initialVectors collected _ >>= _ = _
      rw [isVectors]
      change graph.allocateSuperclassSlots _ collected _ vectors >>= _ = _
      rw [allocateSuperclassSlots_eq, ← SlotGraph.otherSlots, isNext]
      rfl

end NewClasses

/-! ## Getters of places -/

section Getters

theorem stored_getter_ne {slots : List (SlotDescriptor Getter)}
    (distinct : DistinctGetters slots)
    (single : ∀ sd ∈ slots, sd.slotAllocation = .repeated →
      ∀ other ∈ slots, other.slotAllocation = .repeated → sd = other)
    {earlier later : SlotDescriptor Getter} (isEarlier : earlier ∈ slots)
    (isLater : later ∈ slots) (storedEarlier : earlier.isStored = true)
    (storedLater : later.isStored = true)
    (differ : earlier.slotGetter ≠ later.slotGetter) :
    earlier.stored.slotGetter ≠ later.stored.slotGetter := by
  simp only [SlotDescriptor.isStored, Bool.or_eq_true, decide_eq_true_eq]
    at storedEarlier storedLater
  rw [SlotDescriptor.stored, SlotDescriptor.stored]
  rcases storedEarlier with first | first
  · rcases storedLater with second | second
    · simpa [first, second] using differ
    · simpa [first, second, SlotDescriptor.sizeSlotDescriptor] using
        (distinct.sizes later isLater second earlier isEarlier first).symm
  · rcases storedLater with second | second
    · simpa [first, second, SlotDescriptor.sizeSlotDescriptor] using
        distinct.sizes earlier isEarlier first later isLater second
    · rw [single earlier isEarlier first later isLater second] at differ
      exact absurd rfl differ

/-- The getters of the places are distinct. -/
theorem nodup_getters {slots : List (SlotDescriptor Getter)}
    (distinct : DistinctGetters slots)
    (single : ∀ sd ∈ slots, sd.slotAllocation = .repeated →
      ∀ other ∈ slots, other.slotAllocation = .repeated → sd = other) :
    ((instanceEntries slots).map SlotDescriptor.slotGetter).Nodup := by
  rw [instanceEntries, List.map_map, List.nodup_iff_pairwise_ne,
    List.pairwise_map]
  have isNew := List.Pairwise.filter SlotDescriptor.isStored distinct.isNew
  apply List.Pairwise.imp_of_mem _ isNew
  intro earlier later isEarlier isLater differ
  rw [List.mem_filter] at isEarlier isLater
  apply stored_getter_ne distinct single isEarlier.1 isLater.1 isEarlier.2
    isLater.2
  apply differ
  intro isVirtual
  have stored := isLater.2
  simp [SlotDescriptor.isStored, isVirtual] at stored

theorem SlotGraph.mem_slots {graph : SlotGraph Class Getter}
    {superclasses : List Class} {sd : SlotDescriptor Getter} :
    sd ∈ graph.slots superclasses ↔
      ∃ sup ∈ superclasses, sd ∈ graph.directSlotDescriptors sup := by
  simp [SlotGraph.slots]

/-- Two members that pass a test are counted twice. -/
theorem eq_of_countP_eq_one {Entry : Type} {list : List Entry}
    {test : Entry → Bool} (one : list.countP test = 1) {first second : Entry}
    (isFirst : first ∈ list) (isSecond : second ∈ list)
    (passes : test first = true) (passesToo : test second = true) :
    first = second := by
  rw [List.countP_eq_length_filter] at one
  obtain ⟨only, isOnly⟩ := List.length_eq_one_iff.mp one
  have member1 := List.mem_filter.mpr ⟨isFirst, passes⟩
  have member2 := List.mem_filter.mpr ⟨isSecond, passesToo⟩
  rw [isOnly, List.mem_singleton] at member1 member2
  rw [member1, member2]

variable [DecidableEq Getter]

/-- How many places hold a slot with a getter. -/
def placesWith (getter : Option Getter)
    (vec : List (Option (SlotDescriptor Getter))) : Nat :=
  vec.countP fun place => place.any fun sd => sd.slotGetter = getter

theorem placesWith_of_full {getter : Option Getter}
    {vec : List (Option (SlotDescriptor Getter))}
    {slots : List (SlotDescriptor Getter)} (full : Full vec slots) :
    placesWith getter vec =
      slots.countP fun sd => sd.slotGetter = getter := by
  obtain ⟨placed, rfl, perm⟩ := full
  rw [placesWith, List.countP_map, ← perm.countP_eq]
  rfl

theorem placesWith_stored {vec : List (Option (SlotDescriptor Getter))}
    {slots : List (SlotDescriptor Getter)}
    (full : Full vec (instanceEntries slots)) {sd : SlotDescriptor Getter} :
    placesWith sd.stored.slotGetter vec =
      (slots.filter SlotDescriptor.isStored).countP fun other =>
        other.stored.slotGetter = sd.stored.slotGetter := by
  rw [placesWith_of_full full, instanceEntries, List.countP_map]
  rfl

end Getters

/-! ## Correct layouts -/

section Correct

variable [DecidableEq Getter]

/-- What the layout of a class should be: as many places as its size, one for
every slot of a superclass that has a place, the repeated slot if there is one,
and the places of primary superclasses. -/
structure SlotGraph.Correct (graph : SlotGraph Class Getter)
    (layouts : Class → Option (Layout Getter)) (class_ : Class)
    (layout : Layout Getter) : Prop where
  size : layout.instanceSlotDescriptors.length = layout.instanceStorageSize
  once : ∀ sup ∈ graph.allSuperclasses class_,
    ∀ sd ∈ graph.directSlotDescriptors sup, sd.isStored = true →
      some sd.stored ∈ layout.instanceSlotDescriptors ∧
        placesWith sd.stored.slotGetter layout.instanceSlotDescriptors = 1
  repeated : ∀ sup ∈ graph.allSuperclasses class_,
    ∀ sd ∈ graph.directSlotDescriptors sup, sd.slotAllocation = .repeated →
      layout.repeatedSlotDescriptor = some sd
  keeps : ∀ sup ∈ (graph.allSuperclasses class_).tail,
    graph.isPrimary sup = true → ∀ other, layouts sup = some other →
      layout.Keeps other

/-- The errors for classes that are not accepted. -/
def SlotError.isRejection : SlotError → Bool
  | .duplicatedSlotSpecs => true
  | .respecifiesSlot => true
  | .multipleRepeatedSlots => true
  | _ => false

variable {graph : SlotGraph Class Getter}
  {layouts : Class → Option (Layout Getter)} {class_ : Class}
  {layout : Layout Getter}

theorem Layout.Filled.correct
    (filled : layout.Filled (graph.slots (graph.allSuperclasses class_)))
    (distinct : DistinctGetters (graph.slots (graph.allSuperclasses class_)))
    (keeps : ∀ sup ∈ (graph.allSuperclasses class_).tail,
      graph.isPrimary sup = true → ∀ other, layouts sup = some other →
        layout.Keeps other) :
    graph.Correct layouts class_ layout where
  size := by
    obtain ⟨placed, isPlaced, perm⟩ := filled.ivector
    rw [isPlaced, List.length_map, perm.length_eq, filled.size]
  once := by
    intro sup isSuper sd isDirect stored
    have member := SlotGraph.mem_slots.mpr ⟨sup, isSuper, isDirect⟩
    have isEntry : sd.stored ∈ instanceEntries
        (graph.slots (graph.allSuperclasses class_)) :=
      List.mem_map_of_mem (List.mem_filter.mpr ⟨member, stored⟩)
    have nodup := nodup_getters distinct (by
      intro first isFirst repeated second isSecond repeatedToo
      have same := (filled.repeated first isFirst repeated).symm.trans
        (filled.repeated second isSecond repeatedToo)
      exact Option.some_inj.mp same)
    constructor
    · obtain ⟨placed, isPlaced, perm⟩ := filled.ivector
      rw [isPlaced]
      exact List.mem_map_of_mem (perm.mem_iff.mpr isEntry)
    · have one := List.count_eq_one_of_mem nodup
        (List.mem_map_of_mem isEntry)
      rw [List.count, List.countP_map] at one
      rw [placesWith_of_full filled.ivector, ← one]
      apply List.countP_congr
      simp
  repeated := by
    intro sup isSuper sd isDirect
    exact filled.repeated sd (SlotGraph.mem_slots.mpr ⟨sup, isSuper, isDirect⟩)
  keeps := keeps

/-- In a correct layout the size slot has a getter of its own. -/
theorem SlotGraph.Correct.sizes (correct : graph.Correct layouts class_ layout)
    (filled : layout.Filled (graph.slots (graph.allSuperclasses class_))) :
    ∀ repeated ∈ graph.slots (graph.allSuperclasses class_),
      repeated.slotAllocation = .repeated →
        ∀ sd ∈ graph.slots (graph.allSuperclasses class_),
          sd.slotAllocation = .instance_ →
            repeated.sizeGetter ≠ sd.slotGetter := by
  intro repeated isRepeated allocation sd isSlot allocationToo same
  obtain ⟨sup, isSuper, isDirect⟩ := SlotGraph.mem_slots.mp isSlot
  have stored : sd.isStored = true := by
    simp [SlotDescriptor.isStored, allocationToo]
  have storedToo : repeated.isStored = true := by
    simp [SlotDescriptor.isStored, allocation]
  have one := (correct.once sup isSuper sd isDirect stored).2
  rw [placesWith_stored filled.ivector] at one
  have equal := eq_of_countP_eq_one one
    (List.mem_filter.mpr ⟨isRepeated, storedToo⟩)
    (List.mem_filter.mpr ⟨isSlot, stored⟩)
    (by simp [SlotDescriptor.stored, allocation, allocationToo, same,
          SlotDescriptor.sizeSlotDescriptor])
    (by simp)
  rw [equal, allocationToo] at allocation
  cases allocation

variable [DecidableEq Class]

/-- Classes are defined after their superclasses, with distinct getters. -/
inductive Defined (graph : SlotGraph Class Getter) :
    (Class → Option (Layout Getter)) → Prop where
  | empty : Defined graph fun _ => none
  | define {layouts : Class → Option (Layout Getter)} {class_ : Class}
      {layout : Layout Getter} (earlier : Defined graph layouts)
      (isNew : layouts class_ = none)
      (complete : ∀ sup ∈ (graph.allSuperclasses class_).tail,
        (layouts sup).isSome = true)
      (distinct : DistinctGetters
        (graph.slots (graph.allSuperclasses class_)))
      (accepted : graph.initializeClass layouts class_ = .ok layout) :
      Defined graph (Function.update layouts class_ (some layout))

theorem initializeClass_eq
    (accepted : ∀ error, graph.initializeClass layouts class_ = .error error →
      error.isRejection = false) :
    graph.initializeClass layouts class_ =
      graph.computeSlotDescriptors layouts class_ := by
  rw [SlotGraph.initializeClass] at accepted ⊢
  split
  · next duplicated =>
      rw [if_pos duplicated] at accepted
      cases accepted _ rfl
  · next notDuplicated =>
      rw [if_neg notDuplicated] at accepted
      split
      · next respecifies =>
          rw [if_pos respecifies] at accepted
          cases accepted _ rfl
      · rfl

/-- A layout that is computed with the right repeated slot, for distinct
getters, is correct. -/
theorem computed_correct (sound : Sound graph layouts)
    (complete : ∀ sup ∈ (graph.allSuperclasses class_).tail,
      (layouts sup).isSome = true)
    (distinct : DistinctGetters (graph.slots (graph.allSuperclasses class_)))
    (computed : graph.computeSlotDescriptors layouts class_ = .ok layout)
    (repeater : ∀ sd ∈ graph.slots (graph.allSuperclasses class_),
      sd.slotAllocation = .repeated →
        layout.repeatedSlotDescriptor = some sd) :
    layout.Filled (graph.slots (graph.allSuperclasses class_)) ∧
      graph.Correct layouts class_ layout := by
  obtain ⟨-, filled, keepsFirst⟩ :=
    computeSlotDescriptors_ok sound complete computed repeater
  refine ⟨filled, filled.correct distinct ?_⟩
  intro sup isSuper isPrimary other isOther
  exact keeps_primaries sound complete keepsFirst isSuper isPrimary isOther

/-- A class with distinct getters gets a correct layout unless it is
rejected. -/
theorem initializeClass_correct (sound : Sound graph layouts)
    (complete : ∀ sup ∈ (graph.allSuperclasses class_).tail,
      (layouts sup).isSome = true)
    (distinct : DistinctGetters (graph.slots (graph.allSuperclasses class_)))
    (accepted : ∀ error, graph.initializeClass layouts class_ = .error error →
      error.isRejection = false) :
    ∃ layout, graph.initializeClass layouts class_ = .ok layout ∧
      layout.Filled (graph.slots (graph.allSuperclasses class_)) ∧
      graph.Correct layouts class_ layout := by
  have same := initializeClass_eq accepted
  rw [same] at accepted ⊢
  obtain ⟨layout, computed, repeater⟩ := exists_computeSlotDescriptors sound
    complete distinct.isNew (fun error => by cases accepted _ error)
  exact ⟨layout, computed,
    computed_correct sound complete distinct computed repeater⟩

theorem Sound.define (sound : Sound graph layouts)
    (isNew : layouts class_ = none)
    (complete : ∀ sup ∈ (graph.allSuperclasses class_).tail,
      (layouts sup).isSome = true)
    (distinct : DistinctGetters (graph.slots (graph.allSuperclasses class_)))
    (accepted : graph.initializeClass layouts class_ = .ok layout) :
    Sound graph (Function.update layouts class_ (some layout)) := by
  obtain ⟨computed, isComputed, filled, correct⟩ :=
    initializeClass_correct sound complete distinct (fun error refused => by
      rw [accepted] at refused
      cases refused)
  rw [accepted] at isComputed
  cases isComputed
  have above : ∀ other own, layouts other = some own →
      ∀ sup ∈ (graph.allSuperclasses other).tail, sup ≠ class_ := by
    rintro other own isOwn sup isSuper rfl
    have isSome := sound.complete other own isOwn sup isSuper
    rw [isNew] at isSome
    cases isSome
  have notSelf : ∀ sup ∈ (graph.allSuperclasses class_).tail,
      sup ≠ class_ := by
    rintro sup isSuper rfl
    have isSome := complete sup isSuper
    rw [isNew] at isSome
    cases isSome
  refine ⟨?_, ?_, ?_⟩
  · intro other own isOwn sup isSuper
    by_cases same : other = class_
    · subst same
      rw [Function.update_of_ne (notSelf sup isSuper)]
      exact complete sup isSuper
    · rw [Function.update_of_ne same] at isOwn
      rw [Function.update_of_ne (above other own isOwn sup isSuper)]
      exact sound.complete other own isOwn sup isSuper
  · intro other own isOwn
    by_cases same : other = class_
    · subst same
      rw [Function.update_self, Option.some_inj] at isOwn
      rw [← isOwn]
      exact filled
    · rw [Function.update_of_ne same] at isOwn
      exact sound.filled other own isOwn
  · intro other own isOwn sup isSuper isPrimary upper isUpper
    by_cases same : other = class_
    · subst same
      rw [Function.update_self, Option.some_inj] at isOwn
      rw [Function.update_of_ne (notSelf sup isSuper)] at isUpper
      rw [← isOwn]
      exact correct.keeps sup isSuper isPrimary upper isUpper
    · rw [Function.update_of_ne same] at isOwn
      rw [Function.update_of_ne (above other own isOwn sup isSuper)] at isUpper
      exact sound.keeps other own isOwn sup isSuper isPrimary upper isUpper

theorem Defined.sound (defined : Defined graph layouts) :
    Sound graph layouts ∧ ∀ class_ layout, layouts class_ = some layout →
      DistinctGetters (graph.slots (graph.allSuperclasses class_)) := by
  induction defined with
  | empty =>
      constructor
      · refine ⟨?_, ?_, ?_⟩ <;>
          · intro class_ layout none
            cases none
      · intro class_ layout none
        cases none
  | @define layouts class_ layout earlier isNew complete distinct accepted ih =>
      refine ⟨ih.1.define isNew complete distinct accepted, ?_⟩
      intro other own isOwn
      by_cases same : other = class_
      · subst same
        exact distinct
      · rw [Function.update_of_ne same] at isOwn
        exact ih.2 other own isOwn

/-- Where all classes were defined with distinct getters their layouts are
correct, and a new class that is not rejected gets a correct layout, without an
internal error, exactly if its getters are distinct. -/
theorem slot_layout_correct (defined : Defined graph layouts) :
    (∀ class_ layout, layouts class_ = some layout →
      graph.Correct layouts class_ layout) ∧
    ∀ class_, (∀ sup ∈ (graph.allSuperclasses class_).tail,
        (layouts sup).isSome = true) →
      (∀ error, graph.initializeClass layouts class_ = .error error →
        error.isRejection = false) →
      ((∃ layout, graph.initializeClass layouts class_ = .ok layout ∧
          graph.Correct layouts class_ layout) ↔
        DistinctGetters (graph.slots (graph.allSuperclasses class_))) := by
  obtain ⟨sound, distinctAll⟩ := defined.sound
  constructor
  · intro class_ layout isLayout
    exact (sound.filled class_ layout isLayout).correct
      (distinctAll class_ layout isLayout)
      (sound.keeps class_ layout isLayout)
  · intro class_ complete accepted
    constructor
    · rintro ⟨layout, isLayout, correct⟩
      rw [initializeClass_eq accepted] at isLayout
      have repeater : ∀ sd ∈ graph.slots (graph.allSuperclasses class_),
          sd.slotAllocation = .repeated →
            layout.repeatedSlotDescriptor = some sd := by
        intro sd member
        obtain ⟨sup, isSuper, isDirect⟩ := SlotGraph.mem_slots.mp member
        exact correct.repeated sup isSuper sd isDirect
      obtain ⟨isNew, filled, -⟩ :=
        computeSlotDescriptors_ok sound complete isLayout repeater
      exact ⟨isNew, correct.sizes filled⟩
    · intro distinct
      obtain ⟨layout, isLayout, -, correct⟩ :=
        initializeClass_correct sound complete distinct accepted
      exact ⟨layout, isLayout, correct⟩

end Correct

/-! ## Classes with shared getters -/

/-- An instance slot. -/
def instanceSlot (identity getter : Nat) : SlotDescriptor Nat :=
  { identity := identity, slotGetter := some getter
    slotAllocation := .instance_, sizeGetter := none }

/-- A repeated slot with the getter of its size. -/
def repeatedSlot (identity getter sizeGetter : Nat) : SlotDescriptor Nat :=
  { identity := identity, slotGetter := some getter
    slotAllocation := .repeated, sizeGetter := some sizeGetter }

/-- `<object>`; two classes with the same getter and a subclass of both; a class
with the slot `size`, a primary class with a repeated slot of that size, and a
subclass of both; a subclass of the primary class and the first class. -/
def sharedGraph : SlotGraph (Fin 8) Nat where
  allSuperclasses class_ :=
    match class_ with
    | 0 => [0]
    | 3 => [3, 1, 2, 0]
    | 6 => [6, 4, 5, 0]
    | 7 => [7, 5, 1, 0]
    | other => [other, 0]
  head := by decide
  nodup := by decide
  trans := by decide
  isPrimary class_ := class_ = 5
  primaries := by decide
  directSlotDescriptors class_ :=
    match class_ with
    | 1 => [instanceSlot 1 10]
    | 2 => [instanceSlot 2 10]
    | 4 => [instanceSlot 4 11]
    | 5 => [instanceSlot 5 12, repeatedSlot 6 13 11]
    | 7 => [instanceSlot 7 14]
    | _ => []

instance (slots : List (SlotDescriptor Nat)) : Decidable (NewGetters slots) :=
  inferInstanceAs (Decidable (slots.Pairwise _))

theorem distinctGetters_iff (slots : List (SlotDescriptor Nat)) :
    DistinctGetters slots ↔ NewGetters slots ∧
      ∀ repeated ∈ slots, repeated.slotAllocation = .repeated →
        ∀ sd ∈ slots, sd.slotAllocation = .instance_ →
          repeated.sizeGetter ≠ sd.slotGetter :=
  ⟨fun distinct => ⟨distinct.isNew, distinct.sizes⟩,
    fun distinct => ⟨distinct.1, distinct.2⟩⟩

/-- One more class. -/
theorem Defined.next {layouts : Fin 8 → Option (Layout Nat)}
    {layout : Layout Nat} (class_ : Fin 8) (earlier : Defined sharedGraph layouts)
    (accepted : sharedGraph.initializeClass layouts class_ = .ok layout)
    (isNew : layouts class_ = none)
    (complete : ∀ sup ∈ (sharedGraph.allSuperclasses class_).tail,
      (layouts sup).isSome = true)
    (distinct : NewGetters
        (sharedGraph.slots (sharedGraph.allSuperclasses class_)) ∧
      ∀ repeated ∈ sharedGraph.slots (sharedGraph.allSuperclasses class_),
        repeated.slotAllocation = .repeated →
          ∀ sd ∈ sharedGraph.slots (sharedGraph.allSuperclasses class_),
            sd.slotAllocation = .instance_ →
              repeated.sizeGetter ≠ sd.slotGetter) :
    Defined sharedGraph (Function.update layouts class_ (some layout)) :=
  earlier.define isNew complete ((distinctGetters_iff _).mpr distinct) accepted

/-- A subclass of a primary class with a repeated slot and another class. -/
theorem slot_layout_correct_primary :
    ∃ layouts layout, Defined sharedGraph layouts ∧
      sharedGraph.initializeClass layouts 7 = .ok layout ∧
      sharedGraph.Correct layouts 7 layout := by
  have object := Defined.empty.next 0 rfl rfl (by decide) (by decide)
  have first := object.next 1 rfl rfl (by decide) (by decide)
  have primary := first.next 5 rfl rfl (by decide) (by decide)
  have correct := (slot_layout_correct primary).2 7 (by decide)
    (by intro error refused; cases refused)
  obtain ⟨layout, isLayout, isCorrect⟩ := correct.mpr
    ((distinctGetters_iff _).mpr (by decide))
  exact ⟨_, layout, primary, isLayout, isCorrect⟩

/-- A subclass of two classes with the same getter runs out of space; a class
with the slot `size` and a repeated slot of that size has two places for it. -/
theorem slot_layout_correct_fails :
    (∃ layouts, Defined sharedGraph layouts ∧
      sharedGraph.initializeClass layouts 3 = .error .ranOutOfSpace) ∧
    ∃ layouts layout, Defined sharedGraph layouts ∧
      sharedGraph.initializeClass layouts 6 = .ok layout ∧
      placesWith (some 11) layout.instanceSlotDescriptors = 2 := by
  have object := Defined.empty.next 0 rfl rfl (by decide) (by decide)
  constructor
  · have first := object.next 1 rfl rfl (by decide) (by decide)
    have second := first.next 2 rfl rfl (by decide) (by decide)
    exact ⟨_, second, rfl⟩
  · have sized := object.next 4 rfl rfl (by decide) (by decide)
    have primary := sized.next 5 rfl rfl (by decide) (by decide)
    exact ⟨_, _, primary, rfl, rfl⟩

end OpenDylan.Runtime.SlotLayout
