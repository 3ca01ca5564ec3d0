import OpenDylan.Compiler.DefUseReplacement

/-!
# Exact def-use chains

Every event keeps the heap sound when it shares no vector whose element it
replaces, leaves the slots without accessors empty, and makes no `<exit>` that
is registered twice.  The users of a reference are edited while
`replace-temporary-in-users!` walks along them; the walk still visits every
user that refers to the old reference.
-/

namespace OpenDylan.Compiler.DefUseChains

open OpenDylan.Lib

/-! ## Users that refer to the old reference -/

@[simp]
theorem swap_swap (t : Nat) (new operand : Option Nat) :
    swap t new (swap t new operand) = swap t new operand := by
  by_cases found : operand = some t
  · simp [swap, found]
  · simp [swap, found]

theorem notMem_map_swap {t : Nat} {new : Option Nat}
    (different : new ≠ some t) (operands : List (Option Nat)) :
    some t ∉ operands.map (swap t new) := by
  intro member
  rcases List.mem_map.mp member with ⟨operand, -, same⟩
  by_cases found : operand = some t
  · rw [swap, if_pos found] at same
    exact different same
  · rw [swap, if_neg found] at same
    exact found same

/-- The state of the loop of `replace-temporary-in-users!`. -/
structure Replacing (h : Heap) (old : Nat) (new : Option Nat)
    (exclude : Nat → Bool) (h' : Heap) : Prop where
  sound : h'.Sound
  frame : Frame old h h'
  owns : ∀ c ∈ h.users old, exclude c = false → h.Owns c old
  excluded : ∀ c, h.Live c → exclude c = true →
    h'.operands c = h.operands c
  replaced : ∀ c, h.Live c →
    (h'.operands c).map (swap old new) = (h.operands c).map (swap old new)

/-- A user that the loop has to visit. -/
def Unvisited (old : Nat) (exclude : Nat → Bool) (h : Heap) (c : Nat) :
    Prop :=
  h.Live c ∧ exclude c = false ∧ some old ∈ h.operands c

theorem Replacing.listed {h h' : Heap} {old : Nat} {new : Option Nat}
    {exclude : Nat → Bool} (replacing : Replacing h old new exclude h')
    {c : Nat} (unvisited : Unvisited old exclude h' c) :
    c ∈ h'.users old := by
  rcases unvisited with ⟨live, -, member⟩
  apply List.count_pos_iff.mp
  rw [replacing.sound.exact c live old]
  exact List.count_pos_iff.mpr member

/-- One round of the loop. -/
theorem Replacing.step {h h' h'' : Heap} {old c : Nat} {new : Option Nat}
    {exclude : Nat → Bool} (replacing : Replacing h old new exclude h')
    (sound : h.Sound) (user : c ∈ h.users old)
    (done : replaceInUser old new exclude c h' = some h'') :
    Replacing h old new exclude h'' ∧
      PairList.Edited old h'.lists h''.lists ∧
      ∀ other, Unvisited old exclude h'' other →
        Unvisited old exclude h' other ∧ other ≠ c := by
  rw [replaceInUser] at done
  split at done
  · rename_i excluded
    cases Option.some.inj done
    refine ⟨replacing, PairList.Edited.refl old _, ?_⟩
    intro other unvisited
    refine ⟨unvisited, ?_⟩
    rintro rfl
    rw [unvisited.2.1] at excluded
    contradiction
  · rename_i included
    rw [Bool.not_eq_true] at included
    rcases Option.map_eq_some_iff.mp done with ⟨⟨after, renamed⟩, result, rfl⟩
    have made : c < h'.computations := by
      rw [replacing.frame.computations]
      exact sound.known old c user
    rcases replacing.sound.replaceTemporaryReferences made
        (replacing.frame.owns (replacing.owns c user included)) result with
      ⟨different, sound', frame, operands⟩
    refine ⟨⟨sound', replacing.frame.trans frame, replacing.owns, ?_, ?_⟩,
      frame.edited, ?_⟩
    · intro c' live excluded
      have other : c' ≠ c := by
        rintro rfl
        rw [included] at excluded
        contradiction
      rw [operands c' ((replacing.frame.live c').mpr live), if_neg other]
      exact replacing.excluded c' live excluded
    · intro c' live
      rw [← replacing.replaced c' live,
        operands c' ((replacing.frame.live c').mpr live)]
      split
      · rw [List.map_map]
        apply List.map_congr_left
        intro operand _
        exact swap_swap old new operand
      · rfl
    · intro other unvisited
      rcases unvisited with ⟨live, notExcluded, member⟩
      have live' := (frame.live other).mp live
      rw [operands other live'] at member
      by_cases same : other = c
      · rw [if_pos same] at member
        exact absurd member (notMem_map_swap different _)
      · rw [if_neg same] at member
        exact ⟨⟨live', notExcluded, member⟩, same⟩

/-- After `replace-temporary-in-users!` the operands of live computations are
replaced exactly where the user is not excluded. -/
theorem Heap.Sound.replaceTemporaryInUsers {h h' : Heap} (sound : h.Sound)
    {old : Nat} {new : Option Nat} {exclude : Nat → Bool}
    (owns : ∀ c ∈ h.users old, exclude c = false → h.Owns c old)
    (done : replaceTemporaryInUsers h old new exclude = some h') :
    h'.Sound ∧ (∀ c, h'.Live c ↔ h.Live c) ∧
      (∀ c, h.Live c → exclude c = false → some old ∉ h'.operands c) ∧
      ∀ c, h.Live c → h'.operands c =
        if exclude c then h.operands c
        else (h.operands c).map (swap old new) := by
  have start : Replacing h old new exclude h :=
    ⟨sound, Frame.refl old h, owns, fun _ _ _ => rfl, fun _ _ => rfl⟩
  rcases PairList.forEach_rule (Replacing h old new exclude)
      (Unvisited old exclude) (fun c => c ∈ h.users old)
      (fun state replacing => replacing.sound.linked)
      (fun state c replacing unvisited => replacing.listed unvisited)
      (fun state c state' replacing user done =>
        replacing.step sound user done)
      start done (sound.linked.segment old) (sound.linked.nodup old)
      (sound.linked.allocated old)
      (PairList.length_le_of_allocated (sound.linked.nodup old)
        (sound.linked.allocated old))
      (fun pair member => List.mem_map_of_mem member)
      (fun pair member _ => member) with
    ⟨replacing, visited⟩
  have absent : ∀ c, h.Live c → exclude c = false →
      some old ∉ h'.operands c := by
    intro c live included member
    exact visited c ⟨(replacing.frame.live c).mpr live, included, member⟩
  refine ⟨replacing.sound, replacing.frame.live, absent, ?_⟩
  intro c live
  cases included : exclude c with
  | true =>
      rw [if_pos rfl]
      exact replacing.excluded c live included
  | false =>
      rw [if_neg Bool.false_ne_true, ← replacing.replaced c live,
        map_swap_of_notMem new (absent c live included)]

/-! ## Arguments and merges -/

theorem Heap.Sound.replaceCallArgument {h h' : Heap} (sound : h.Sound)
    {call new index : Nat} (made : call < h.computations)
    (accessor : .arguments ∈ usedTemporaryAccessors (h.kind call))
    (sole : ∀ args, h.slot call .arguments = .sequence args →
      h.Sole call .arguments args)
    (done : replaceCallArgument h call new index = some h') : h'.Sound := by
  rw [DefUseChains.replaceCallArgument] at done
  split at done
  · contradiction
  · rename_i args held
    split at done
    · contradiction
    · rename_i old found
      have here : h.contents call .arguments = h.element args := by
        simp only [Heap.contents, held]
      have result := sound.assign made accessor
        (assigns_setElement index (some new) held (sole args held))
        (here ▸ found)
        (recounts_remove_add sound.linked call old (some new))
      have same : h' = { h.setElement args index (some new) with
          lists := (addUser (removeUser h old call) (some new) call).lists } :=
        by
          rw [← Option.some.inj done]
          cases old <;> rfl
      rw [same]
      exact result

/-- A merge whose caller passes the value that the slot holds. -/
theorem Heap.Sound.mergeReplaceValue {h : Heap} (sound : h.Sound)
    {side : SlotName} {mergeNode : Nat} {old : Option Nat} (new : Option Nat)
    (made : mergeNode < h.computations)
    (accessor : side ∈ usedTemporaryAccessors (h.kind mergeNode))
    (held : h.slot mergeNode side = .reference old) :
    (mergeReplaceValue side h mergeNode old new).Sound := by
  have here : h.contents mergeNode side = [old] := by
    simp only [Heap.contents, held]
  have result := sound.assign made accessor (assigns_setSlot new held)
    (by rw [here]; rfl) (recounts_remove_add sound.linked mergeNode old new)
  have same : DefUseChains.mergeReplaceValue side h mergeNode old new =
      { h.setSlot mergeNode side (.reference new) with
        lists := (addUser (removeUser h old mergeNode) new mergeNode).lists } :=
    by cases old <;> cases new <;> rfl
  rw [same]
  exact result

theorem merge_accessors {kind : ComputationClass}
    (merge : binaryMerge kind = true) :
    .mergeLeftValue ∈ usedTemporaryAccessors kind ∧
      .mergeRightValue ∈ usedTemporaryAccessors kind := by
  cases kind <;> first | contradiction | decide

/-! ## All operands of a computation -/

/-- The operands that the accessors reach. -/
def Heap.accessed (h : Heap) (c : Nat) : List (Option Nat) :=
  (usedTemporaryAccessors (h.kind c)).flatMap (h.contents c)

/-- A function that only edits lists is applied to the operands in order. -/
theorem doUsedTemporaries_eq {fn : Heap → Option Nat → Heap}
    (edits : ∀ h t, fn h t = { h with lists := (fn h t).lists })
    (h : Heap) (c : Nat) :
    doUsedTemporaries fn h c = (h.accessed c).foldl fn h := by
  have keeps : ∀ (operands : List (Option Nat)) (g : Heap),
      (operands.foldl fn g).slot = g.slot ∧
        (operands.foldl fn g).element = g.element := by
    intro operands
    induction operands with
    | nil => exact fun g => ⟨rfl, rfl⟩
    | cons operand operands ih =>
        intro g
        have first := edits g operand
        rw [List.foldl_cons]
        rcases ih (fn g operand) with ⟨slot, element⟩
        rw [slot, element]
        constructor
        · rw [first]
        · rw [first]
  have inner : ∀ (step : Heap → SlotName → Heap),
      (∀ g name, g.slot = h.slot → g.element = h.element →
        step g name = (h.contents c name).foldl fn g) →
      ∀ (names : List SlotName) (g : Heap), g.slot = h.slot →
        g.element = h.element →
        names.foldl step g = (names.flatMap (h.contents c)).foldl fn g := by
    intro step here names
    induction names with
    | nil => exact fun g _ _ => rfl
    | cons name names ih =>
        intro g slot element
        rw [List.foldl_cons, List.flatMap_cons, List.foldl_append,
          here g name slot element]
        rcases keeps (h.contents c name) g with ⟨slot', element'⟩
        exact ih _ (slot'.trans slot) (element'.trans element)
  refine inner _ ?_ _ h rfl rfl
  intro g name slot element
  rw [slot, element, Heap.contents]
  cases h.slot c name <;> rfl

theorem addUser_edits (c : Nat) (h : Heap) (t : Option Nat) :
    addUser h t c = { h with lists := (addUser h t c).lists } := by
  cases t <;> rfl

theorem removeUser_edits (c : Nat) (h : Heap) (t : Option Nat) :
    removeUser h t c = { h with lists := (removeUser h t c).lists } := by
  cases t <;> rfl

/-- Register the operands one by one. -/
theorem foldl_addUser {h : Heap} (linked : h.lists.Linked) (c : Nat)
    (operands : List (Option Nat)) :
    let h' := operands.foldl (fun h t => addUser h t c) h
    h' = { h with lists := h'.lists } ∧ h'.lists.Linked ∧
      ∀ t c', (h'.users t).count c' =
        (h.users t).count c' +
          if c' = c then operands.count (some t) else 0 := by
  induction operands generalizing h with
  | nil => simp [linked]
  | cons operand operands ih =>
      rcases ih (linked_addUser linked operand c) with
        ⟨same, linked', counts⟩
      simp only [List.foldl_cons]
      refine ⟨?_, linked', ?_⟩
      · rw [same, addUser_edits]
      · intro t c'
        rw [counts, users_addUser linked, List.count_cons, bump]
        simp only [beq_iff_eq]
        split <;> omega

/-- Unregister the operands one by one. -/
theorem foldl_removeUser {h : Heap} (linked : h.lists.Linked) (c : Nat)
    (operands : List (Option Nat)) :
    let h' := operands.foldl (fun h t => removeUser h t c) h
    h' = { h with lists := h'.lists } ∧ h'.lists.Linked ∧
      ∀ t c', (h'.users t).count c' =
        (h.users t).count c' -
          if c' = c then operands.count (some t) else 0 := by
  induction operands generalizing h with
  | nil => simp [linked]
  | cons operand operands ih =>
      rcases ih (linked_removeUser linked operand c) with
        ⟨same, linked', counts⟩
      simp only [List.foldl_cons]
      refine ⟨?_, linked', ?_⟩
      · rw [same, removeUser_edits]
      · intro t c'
        rw [counts, users_removeUser linked, List.count_cons, bump]
        simp only [beq_iff_eq]
        split <;> omega

/-- The other slots hold nothing. -/
theorem count_accessed {h : Heap} {c : Nat}
    (untracked : ∀ slot ∈ temporarySlots (h.kind c), slot.typed = false →
      h.slot c slot.name = .reference none) (t : Nat) :
    (h.accessed c).count (some t) = (h.operands c).count (some t) := by
  rw [Heap.accessed, Heap.operands, usedTemporaryAccessors,
    graphClassAccessors]
  generalize temporarySlots (h.kind c) = slots at untracked ⊢
  induction slots with
  | nil => rfl
  | cons slot slots ih =>
      have rest := ih fun other member =>
        untracked other (List.mem_cons_of_mem _ member)
      cases typed : slot.typed with
      | true =>
          simp only [List.filterMap_cons, typed, if_true,
            List.flatMap_cons, List.count_append, rest]
      | false =>
          have empty : h.contents c slot.name = [none] := by
            rw [Heap.contents,
              untracked slot (List.mem_cons_self ..) typed]
          simp only [List.filterMap_cons, typed, Bool.false_eq_true,
            if_false, List.flatMap_cons, List.count_append, rest, empty]
          simp

/-! ## Creating and removing computations -/

theorem Heap.Sound.makeVector {h : Heap} (sound : h.Sound)
    (elements : List (Option Nat)) : (makeVector h elements).Sound where
  linked := sound.linked
  known := sound.known
  allocated := by
    intro c name v made member holds
    exact Nat.lt_succ_of_lt (sound.allocated c name v made member holds)
  untracked := sound.untracked
  exact := by
    intro c live t
    have before := sound.exact c live t
    have same : (DefUseChains.makeVector h elements).operands c =
        h.operands c := by
      apply List.flatMap_congr
      intro slot member
      have slotSame : (DefUseChains.makeVector h elements).slot = h.slot := rfl
      rw [Heap.contents, Heap.contents, slotSame]
      cases holds : h.slot c slot.name with
      | reference s => rfl
      | sequence v =>
          apply Function.update_of_ne
          have allocated := sound.allocated c slot.name v live.1
            (List.mem_map_of_mem member) holds
          exact Nat.ne_of_lt allocated
    rw [same]
    exact before

/-- The heap of `make` before the operands are registered. -/
def Heap.allocate (h : Heap) (kind : ComputationClass)
    (slots : SlotName → Operand) : Heap :=
  { h with
    kind := Function.update h.kind h.computations kind
    slot := Function.update h.slot h.computations slots
    dead := Function.update h.dead h.computations false
    computations := h.computations + 1 }

theorem make_eq (h : Heap) (kind : ComputationClass)
    (slots : SlotName → Operand) :
    make h kind slots =
      ((h.allocate kind slots).accessed h.computations).foldl
        (fun g t => addUser g t h.computations)
        (h.allocate kind slots) :=
  doUsedTemporaries_eq (addUser_edits h.computations)
    (h.allocate kind slots) h.computations

section Allocate

variable {h : Heap} {kind : ComputationClass} {slots : SlotName → Operand}
  {c : Nat}

theorem allocate_kind_self :
    (h.allocate kind slots).kind h.computations = kind :=
  Function.update_self ..

theorem allocate_slot_self :
    (h.allocate kind slots).slot h.computations = slots :=
  Function.update_self ..

theorem allocate_kind_of_ne (old : c ≠ h.computations) :
    (h.allocate kind slots).kind c = h.kind c :=
  Function.update_of_ne old ..

theorem allocate_slot_of_ne (old : c ≠ h.computations) :
    (h.allocate kind slots).slot c = h.slot c :=
  Function.update_of_ne old ..

theorem allocate_live (old : c ≠ h.computations) :
    (h.allocate kind slots).Live c ↔ h.Live c := by
  simp only [Heap.Live, Heap.allocate, Function.update_of_ne old]
  constructor
  · rintro ⟨made, alive⟩
    exact ⟨by omega, alive⟩
  · rintro ⟨made, alive⟩
    exact ⟨by omega, alive⟩

theorem allocate_operands (old : c ≠ h.computations) :
    (h.allocate kind slots).operands c = h.operands c := by
  simp only [Heap.operands, Heap.contents, allocate_kind_of_ne old,
    allocate_slot_of_ne old]
  rfl

theorem vectorsExist_iff :
    vectorsExist h kind slots = true ↔
      ∀ slot ∈ temporarySlots kind, ∀ v,
        slots slot.name = .sequence v → v < h.vectors := by
  rw [vectorsExist, List.all_eq_true]
  constructor
  · intro all slot member v holds
    have present := all slot member
    rw [holds] at present
    exact of_decide_eq_true present
  · intro all slot member
    cases holds : slots slot.name with
    | reference t => rfl
    | sequence v => exact decide_eq_true (all slot member v holds)

theorem Heap.Sound.allocated_allocate (sound : h.Sound)
    (exist : vectorsExist h kind slots = true) {name : SlotName} {v : Nat}
    (made : c < h.computations + 1)
    (member : name ∈ (h.allocate kind slots).slotNames c)
    (holds : (h.allocate kind slots).slot c name = .sequence v) :
    v < h.vectors := by
  rw [Heap.slotNames] at member
  by_cases new : c = h.computations
  · subst new
    rw [allocate_kind_self] at member
    rw [allocate_slot_self] at holds
    rcases List.mem_map.mp member with ⟨slot, inside, rfl⟩
    exact vectorsExist_iff.mp exist slot inside v holds
  · rw [allocate_kind_of_ne new] at member
    rw [allocate_slot_of_ne new] at holds
    exact sound.allocated c name v (by omega) member holds

theorem Heap.Sound.untracked_allocate (sound : h.Sound)
    (untracked : ∀ slot ∈ temporarySlots kind, slot.typed = false →
      slots slot.name = .reference none)
    (live : (h.allocate kind slots).Live c) {slot : TemporarySlot}
    (member : slot ∈ temporarySlots ((h.allocate kind slots).kind c))
    (typed : slot.typed = false) :
    (h.allocate kind slots).slot c slot.name = .reference none := by
  by_cases new : c = h.computations
  · subst new
    rw [allocate_kind_self] at member
    rw [allocate_slot_self]
    exact untracked slot member typed
  · rw [allocate_kind_of_ne new] at member
    rw [allocate_slot_of_ne new]
    exact sound.untracked c ((allocate_live new).mp live) slot member typed

/-- Registering the operands of a new computation makes the chains exact. -/
theorem Heap.Sound.make (sound : h.Sound)
    (exist : vectorsExist h kind slots = true)
    (untracked : ∀ slot ∈ temporarySlots kind, slot.typed = false →
      slots slot.name = .reference none) :
    (make h kind slots).Sound := by
  rcases foldl_addUser (h := h.allocate kind slots) sound.linked
      h.computations ((h.allocate kind slots).accessed h.computations) with
    ⟨same, linked, counts⟩
  rw [← make_eq] at same linked counts
  generalize DefUseChains.make h kind slots = h' at same linked counts
  have users : (h.allocate kind slots).users = h.users := rfl
  rw [users] at counts
  generalize h'.lists = lists at same linked
  subst same
  constructor
  · exact linked
  · intro t c member
    change c < h.computations + 1
    by_cases new : c = h.computations
    · omega
    · have positive := List.count_pos_iff.mpr member
      rw [counts, if_neg new, Nat.add_zero] at positive
      have old := sound.known t c (List.count_pos_iff.mp positive)
      omega
  · exact fun c name v => sound.allocated_allocate exist
  · exact fun c live slot => sound.untracked_allocate untracked live
  · intro c live t
    change (h.allocate kind slots).Live c at live
    rw [counts]
    change _ = ((h.allocate kind slots).operands c).count (some t)
    by_cases new : c = h.computations
    · subst new
      have unused : h.computations ∉ h.users t := fun member =>
        lt_irrefl _ (sound.known t _ member)
      rw [if_pos rfl, List.count_eq_zero_of_not_mem unused, Nat.zero_add]
      exact count_accessed
        (fun slot => sound.untracked_allocate untracked live) t
    · rw [if_neg new, Nat.add_zero, allocate_operands new]
      exact sound.exact c ((allocate_live new).mp live) t

end Allocate

/-- Only the computation that leaves the graph stops being a user. -/
theorem Heap.Sound.removeComputationReferences {h : Heap} (sound : h.Sound)
    (c : Nat) : (removeComputationReferences h c).Sound := by
  let marked : Heap := { h with dead := Function.update h.dead c true }
  have fold : DefUseChains.removeComputationReferences h c =
      (marked.accessed c).foldl (fun g t => removeUser g t c) marked :=
    doUsedTemporaries_eq (removeUser_edits c) marked c
  rcases foldl_removeUser (h := marked) sound.linked c
      (marked.accessed c) with ⟨same, linked, counts⟩
  rw [← fold] at same linked counts
  generalize DefUseChains.removeComputationReferences h c = h'
    at same linked counts
  have users : marked.users = h.users := rfl
  rw [users] at counts
  generalize h'.lists = lists at same linked
  subst same
  have survives : ∀ c', marked.Live c' → c' ≠ c ∧ h.Live c' := by
    rintro c' ⟨made, alive⟩
    have other : c' ≠ c := by
      rintro rfl
      simp [marked] at alive
    have alive' : h.dead c' = false := by simpa [marked, other] using alive
    exact ⟨other, made, alive'⟩
  constructor
  · exact linked
  · intro t c' member
    have positive := List.count_pos_iff.mpr member
    rw [counts] at positive
    exact sound.known t c' (List.count_pos_iff.mp (by omega))
  · exact sound.allocated
  · exact fun c' live => sound.untracked c' (survives c' live).2
  · intro c' live t
    rcases survives c' live with ⟨other, live'⟩
    rw [counts, if_neg other, Nat.sub_zero]
    exact sound.exact c' live' t

/-! ## Runs -/

/-- The step shares no vector whose element it replaces, fills no slot
without an accessor, and makes no `<exit>` for a non-local return. -/
def Event.Meets (h : Heap) : Event → Prop
  | .makeVector _ => True
  | .make kind slots => ∀ slot ∈ temporarySlots kind, slot.typed = false →
      slots slot.name = .reference none
  | .convertReturnFrom _ _ => False
  | .replaceTemporaryReferences c t _ => h.Owns c t
  | .replaceTemporaryInUsers old _ exclude =>
      ∀ c ∈ h.users old, exclude c = false → h.Owns c old
  | .replaceCallArgument call _ _ => ∀ args,
      h.slot call .arguments = .sequence args → h.Sole call .arguments args
  | .mergeReplaceLeftValue _ _ => True
  | .mergeReplaceRightValue _ _ => True
  | .removeComputationReferences _ => True

/-- The heaps reached from the empty one by allowed events. -/
inductive Reached (allowed : Heap → Event → Prop) : Heap → Prop where
  | empty : Reached allowed Heap.empty
  | step (h h' : Heap) (event : Event) (before : Reached allowed h)
      (meets : allowed h event) (done : perform h event = some h') :
      Reached allowed h'

theorem sound_empty : Heap.empty.Sound where
  linked := by
    apply PairList.linked_of_segments (fun _ => [])
    · exact fun _ => rfl
    · exact fun _ => List.nodup_nil
    · exact fun _ pair member => absurd member (List.not_mem_nil)
    · exact fun _ _ pair member => absurd member (List.not_mem_nil)
  known := fun t c member => absurd member (List.not_mem_nil)
  allocated := fun c _ _ made => absurd made (Nat.not_lt_zero c)
  untracked := fun c live => absurd live.1 (Nat.not_lt_zero c)
  exact := fun c live => absurd live.1 (Nat.not_lt_zero c)

theorem Heap.Sound.perform {h h' : Heap} (sound : h.Sound) {event : Event}
    (meets : event.Meets h) (done : perform h event = some h') :
    h'.Sound := by
  cases event with
  | makeVector elements =>
      cases Option.some.inj done
      exact sound.makeVector elements
  | make kind slots =>
      simp only [DefUseChains.perform, Option.ite_none_right_eq_some,
        Option.some.injEq] at done
      rcases done with ⟨exist, rfl⟩
      exact sound.make exist meets
  | convertReturnFrom entryState value => exact absurd meets id
  | replaceTemporaryReferences c t new =>
      simp only [DefUseChains.perform, Option.ite_none_right_eq_some,
        Option.map_eq_some_iff] at done
      rcases done with ⟨made, ⟨after, renamed⟩, result, rfl⟩
      exact (sound.replaceTemporaryReferences made meets result).2.1
  | replaceTemporaryInUsers old new exclude =>
      exact (sound.replaceTemporaryInUsers meets done).1
  | replaceCallArgument call new index =>
      simp only [DefUseChains.perform, Option.ite_none_right_eq_some] at done
      exact sound.replaceCallArgument done.1.1 done.1.2 meets done.2
  | mergeReplaceLeftValue mergeNode new =>
      simp only [DefUseChains.perform, Option.ite_none_right_eq_some] at done
      rcases done with ⟨⟨made, merge⟩, done⟩
      split at done
      · rename_i old held
        cases Option.some.inj done
        exact sound.mergeReplaceValue new made (merge_accessors merge).1 held
      · contradiction
  | mergeReplaceRightValue mergeNode new =>
      simp only [DefUseChains.perform, Option.ite_none_right_eq_some] at done
      rcases done with ⟨⟨made, merge⟩, done⟩
      split at done
      · rename_i old held
        cases Option.some.inj done
        exact sound.mergeReplaceValue new made (merge_accessors merge).2 held
      · contradiction
  | removeComputationReferences c =>
      simp only [DefUseChains.perform, Option.ite_none_right_eq_some,
        Option.some.injEq] at done
      rcases done with ⟨made, rfl⟩
      exact sound.removeComputationReferences c

theorem Reached.sound {h : Heap} (reached : Reached Event.Meets h) :
    h.Sound := by
  induction reached with
  | empty => exact sound_empty
  | step h h' event before meets done ih => exact ih.perform meets done

/-- The assertion of `replace-temporary-references!` is the only error. -/
theorem replaceTemporaryInUsers_returns (h : Heap) (old : Nat)
    {new : Option Nat} (exclude : Nat → Bool) (different : new ≠ some old) :
    ∃ h', replaceTemporaryInUsers h old new exclude = some h' := by
  apply PairList.forEach_returns
  intro user g
  rw [replaceInUser, replaceTemporaryReferences, if_neg different]
  split
  · exact ⟨g, rfl⟩
  · exact ⟨_, rfl⟩

/-- In every run whose steps meet the conditions, the users of a reference are
exact, and replacing a reference in its users leaves it to no user that is not
excluded and changes no other operand. -/
theorem def_use_chains_exact (h : Heap) (reached : Reached Event.Meets h) :
    (∀ c, h.Live c → ∀ t,
      (h.users t).count c = (h.operands c).count (some t)) ∧
    ∀ old new exclude, new ≠ some old →
      Event.Meets h (.replaceTemporaryInUsers old new exclude) →
      ∃ h', replaceTemporaryInUsers h old new exclude = some h' ∧
        (∀ c, h'.Live c ↔ h.Live c) ∧
        (∀ c, h.Live c → exclude c = false → some old ∉ h'.operands c) ∧
        ∀ c, h.Live c → h'.operands c =
          if exclude c then h.operands c
          else (h.operands c).map (swap old new) := by
  refine ⟨reached.sound.exact, ?_⟩
  intro old new exclude different meets
  rcases replaceTemporaryInUsers_returns h old exclude different with
    ⟨h', done⟩
  exact ⟨h', done, (reached.sound.replaceTemporaryInUsers meets done).2⟩

/-- A call that passes one reference twice. -/
theorem def_use_chains_exact_call :
    let slots : SlotName → Operand := fun
      | .function => .reference (some 0)
      | _ => .sequence 0
    let h := make (makeVector Heap.empty [some 1, some 1]) .simpleCall slots
    (h.users 1).count 0 = 2 ∧
      ∃ h', replaceTemporaryInUsers h 1 (some 2) (fun _ => false) = some h' ∧
        h'.operands 0 = [some 0, some 2, some 2] := by
  intro slots h
  have reached : Reached Event.Meets h := by
    apply Reached.step (makeVector Heap.empty [some 1, some 1]) h
      (.make .simpleCall slots)
    · exact Reached.step Heap.empty _ (.makeVector [some 1, some 1])
        Reached.empty trivial rfl
    · simp [Event.Meets, temporarySlots, typedSlot]
    · rfl
  have live : h.Live 0 := by decide
  have meets : Event.Meets h
      (.replaceTemporaryInUsers 1 (some 2) fun _ => false) := by
    have users : h.users 1 = [0, 0] := by decide
    have names : h.slotNames 0 = [.function, .arguments] := by decide
    intro c user _ name v accessor holds _ c' name' live' member holds'
    have same : c = 0 := by simpa [users] using user
    have same' : c' = 0 := Nat.lt_one_iff.mp live'.1
    subst same same'
    have member'' := mem_slotNames_of_accessor accessor
    rw [names] at member member''
    simp only [List.mem_cons, List.not_mem_nil, or_false] at member member''
    rcases member with rfl | rfl
    · contradiction
    · rcases member'' with rfl | rfl
      · contradiction
      · exact ⟨rfl, rfl⟩
  rcases def_use_chains_exact h reached with ⟨exact, replace⟩
  constructor
  · rw [exact 0 live 1]
    decide
  · rcases replace 1 (some 2) (fun _ => false) (by decide) meets with
      ⟨h', done, -, -, operands⟩
    refine ⟨h', done, ?_⟩
    rw [operands 0 live]
    decide

/-- The value that a `<conditional-update!>` compares with is held by a
`temporary` slot without an accessor. -/
theorem def_use_chains_exact_fails :
    ¬ ∀ h, Reached (fun _ _ => True) h → ∀ c, h.Live c → ∀ t,
      (h.users t).count c = (h.operands c).count (some t) := by
  intro claim
  let slots : SlotName → Operand := fun
    | .computationTestValue => .reference (some 1)
    | _ => .reference (some 0)
  have exact := claim (make Heap.empty .conditionalUpdate slots)
    (Reached.step Heap.empty _ (.make .conditionalUpdate slots) Reached.empty
      trivial rfl) 0 (by decide) 1
  revert exact
  decide

/-- The `<exit>` of a non-local return uses its entry state once and is
registered twice. -/
example :
    let h := convertReturnFrom Heap.empty 0 1
    h.users 0 = [0, 0] ∧ h.operands 0 = [some 1, some 0] := by
  decide

/-- Two calls with one vector: the second keeps its entries among the users
of a reference that it no longer refers to. -/
example :
    let slots : SlotName → Operand := fun _ => .sequence 0
    let h := make (make (makeVector Heap.empty [some 0]) .primitiveCall slots)
      .primitiveCall slots
    (replaceTemporaryReferences h 0 0 (some 1)).map
      (fun result => (result.1.users 0, result.1.operands 1)) =
        some ([1], [some 1]) := by
  decide

end OpenDylan.Compiler.DefUseChains
