import OpenDylan.Compiler.DefUseChains
import Mathlib

/-!
# Replacing operands

A heap is sound when every live computation occurs among the users of a value
reference as often as among its own operands.  One replacement assigns an
operand position, adds the computation to the users of the new reference and
removes it from those of the old one; the loops over vectors and accessors
repeat this.
-/

namespace OpenDylan.Compiler.DefUseChains

open OpenDylan.Lib

/-! ## The invariant -/

/-- The names of the temporary slots of a computation. -/
def Heap.slotNames (h : Heap) (c : Nat) : List SlotName :=
  (temporarySlots (h.kind c)).map TemporarySlot.name

/-- Every live computation is a user of a reference once for each operand
position that holds it. -/
def Heap.Exact (h : Heap) : Prop :=
  ∀ c, h.Live c → ∀ t,
    (h.users t).count c = (h.operands c).count (some t)

/-- No other slot of a live computation holds the vector. -/
def Heap.Sole (h : Heap) (c : Nat) (name : SlotName) (v : Nat) : Prop :=
  ∀ c' name', h.Live c' → name' ∈ h.slotNames c' →
    h.slot c' name' = .sequence v → c' = c ∧ name' = name

/-- The vectors in which the computation refers to `t` are not shared. -/
def Heap.Owns (h : Heap) (c t : Nat) : Prop :=
  ∀ name v, name ∈ usedTemporaryAccessors (h.kind c) →
    h.slot c name = .sequence v → some t ∈ h.element v → h.Sole c name v

/-- Exact chains over well formed lists, with nothing in the slots that the
accessors leave out. -/
structure Heap.Sound (h : Heap) : Prop where
  linked : h.lists.Linked
  known : ∀ t, ∀ c ∈ h.users t, c < h.computations
  allocated : ∀ c name v, c < h.computations → name ∈ h.slotNames c →
    h.slot c name = .sequence v → v < h.vectors
  untracked : ∀ c, h.Live c → ∀ slot ∈ temporarySlots (h.kind c),
    slot.typed = false → h.slot c slot.name = .reference none
  exact : h.Exact

/-! ## Accessors -/

theorem slotNames_nodup (kind : ComputationClass) :
    ((temporarySlots kind).map TemporarySlot.name).Nodup := by
  cases kind <;> decide

theorem mem_usedTemporaryAccessors {kind : ComputationClass}
    {name : SlotName} :
    name ∈ usedTemporaryAccessors kind ↔
      ∃ slot ∈ temporarySlots kind, slot.typed = true ∧ slot.name = name := by
  simp only [usedTemporaryAccessors, graphClassAccessors, List.mem_filterMap,
    Option.ite_none_right_eq_some, Option.some.injEq]

theorem usedTemporaryAccessors_sublist (kind : ComputationClass) :
    List.Sublist (usedTemporaryAccessors kind)
      ((temporarySlots kind).map TemporarySlot.name) := by
  have filtered : usedTemporaryAccessors kind =
      ((temporarySlots kind).filter TemporarySlot.typed).map
        TemporarySlot.name := by
    rw [← List.filterMap_eq_filter, List.map_filterMap]
    apply List.filterMap_congr
    intro slot _
    cases typed : slot.typed <;> simp [Option.guard, typed]
  rw [filtered]
  exact (List.filter_sublist).map _

theorem usedTemporaryAccessors_nodup (kind : ComputationClass) :
    (usedTemporaryAccessors kind).Nodup :=
  (slotNames_nodup kind).sublist (usedTemporaryAccessors_sublist kind)

theorem mem_slotNames_of_accessor {h : Heap} {c : Nat} {name : SlotName}
    (member : name ∈ usedTemporaryAccessors (h.kind c)) :
    name ∈ h.slotNames c :=
  (usedTemporaryAccessors_sublist _).subset member

/-! ## Counting -/

/-- One for the reference that an operand position holds. -/
def bump (operand : Option Nat) (t : Nat) : Nat :=
  if operand = some t then 1 else 0

theorem count_set {operands : List (Option Nat)} {i : Nat}
    {old : Option Nat} (new : Option Nat) (t : Nat)
    (found : operands[i]? = some old) :
    (operands.set i new).count (some t) + bump old t =
      operands.count (some t) + bump new t := by
  induction operands generalizing i with
  | nil => simp at found
  | cons operand operands ih =>
      cases i with
      | zero =>
          simp only [List.getElem?_cons_zero, Option.some.injEq] at found
          subst found
          simp only [List.set_cons_zero, List.count_cons, bump, beq_iff_eq]
          omega
      | succ i =>
          have rest := ih (by simpa using found)
          simp only [List.set_cons_succ, List.count_cons]
          omega

/-- A sum changes as its term for one name does. -/
theorem sum_map_of_eq_off {names : List SlotName} {name : SlotName}
    {before after : SlotName → Nat} {less more : Nat}
    (nodup : names.Nodup) (member : name ∈ names)
    (off : ∀ other ∈ names, other ≠ name → after other = before other)
    (change : after name + less = before name + more) :
    (names.map after).sum + less = (names.map before).sum + more := by
  induction names with
  | nil => simp at member
  | cons first names ih =>
      rcases List.nodup_cons.mp nodup with ⟨fresh, nodup⟩
      simp only [List.map_cons, List.sum_cons]
      by_cases same : first = name
      · subst same
        have rest : names.map after = names.map before := by
          apply List.map_congr_left
          intro other inside
          apply off other (List.mem_cons_of_mem _ inside)
          rintro rfl
          exact fresh inside
        rw [rest]
        omega
      · have inside : name ∈ names := by
          rcases List.mem_cons.mp member with equal | inside
          · exact absurd equal.symm same
          · exact inside
        have rest := ih nodup inside fun other mem =>
          off other (List.mem_cons_of_mem _ mem)
        rw [off first (List.mem_cons_self ..) same]
        omega

theorem count_operands (h : Heap) (c t : Nat) :
    (h.operands c).count (some t) =
      ((h.slotNames c).map
        fun name => (h.contents c name).count (some t)).sum := by
  simp only [Heap.operands, Heap.slotNames, List.count_flatMap, List.map_map]
  rfl

theorem mem_operands {h : Heap} {c : Nat} {operand : Option Nat} :
    operand ∈ h.operands c ↔
      ∃ name ∈ h.slotNames c, operand ∈ h.contents c name := by
  simp only [Heap.operands, Heap.slotNames, List.mem_flatMap, List.mem_map,
    exists_exists_and_eq_and]

theorem bump_le_count {operands : List (Option Nat)} {operand : Option Nat}
    (member : operand ∈ operands) (t : Nat) :
    bump operand t ≤ operands.count (some t) := by
  by_cases same : operand = some t
  · subst same
    rw [bump, if_pos rfl]
    exact List.count_pos_iff.mpr member
  · rw [bump, if_neg same]
    exact Nat.zero_le _

theorem users_addUser {h : Heap} (linked : h.lists.Linked)
    (operand : Option Nat) (c t c' : Nat) :
    ((addUser h operand c).users t).count c' =
      (h.users t).count c' + if c' = c then bump operand t else 0 := by
  cases operand with
  | none => simp [addUser, bump]
  | some s =>
      simp only [addUser, Heap.users, linked.items_add, bump,
        Option.some.injEq]
      by_cases same : t = s
      · subst same
        rw [Function.update_self, List.count_cons]
        by_cases user : c' = c
        · simp [user]
        · simp [user, Ne.symm user]
      · rw [Function.update_of_ne same]
        simp [Ne.symm same]

theorem users_removeUser {h : Heap} (linked : h.lists.Linked)
    (operand : Option Nat) (c t c' : Nat) :
    ((removeUser h operand c).users t).count c' =
      (h.users t).count c' - if c' = c then bump operand t else 0 := by
  cases operand with
  | none => simp [removeUser, bump]
  | some s =>
      simp only [removeUser, Heap.users, linked.items_remove, bump,
        Option.some.injEq]
      by_cases same : t = s
      · subst same
        rw [Function.update_self]
        by_cases user : c' = c
        · subst user
          simp
        · simp [user, List.count_erase_of_ne user]
      · rw [Function.update_of_ne same]
        simp [Ne.symm same]

/-! ## One assignment -/

/-- One operand position of a computation is assigned, and no operand of
another slot of a live computation. -/
structure Assigns (h h' : Heap) (c : Nat) (name : SlotName) (i : Nat)
    (new : Option Nat) : Prop where
  kind : h'.kind = h.kind
  dead : h'.dead = h.dead
  computations : h'.computations = h.computations
  vectors : h'.vectors = h.vectors
  lists : h'.lists = h.lists
  sequence : ∀ c' name' v,
    h'.slot c' name' = .sequence v ↔ h.slot c' name' = .sequence v
  away : ∀ c' name', ¬ (c' = c ∧ name' = name) →
    h'.slot c' name' = h.slot c' name'
  here : h'.contents c name = (h.contents c name).set i new
  others : ∀ c' name', h.Live c' → name' ∈ h.slotNames c' →
    ¬ (c' = c ∧ name' = name) → h'.contents c' name' = h.contents c' name'

theorem setSlot_slot (h : Heap) (c : Nat) (name : SlotName)
    (operand : Operand) (c' : Nat) (name' : SlotName) :
    (h.setSlot c name operand).slot c' name' =
      if c' = c ∧ name' = name then operand else h.slot c' name' := by
  by_cases user : c' = c
  · subst user
    by_cases same : name' = name
    · subst same
      simp [Heap.setSlot]
    · simp [Heap.setSlot, same]
  · simp [Heap.setSlot, user]

theorem assigns_setSlot {h : Heap} {c : Nat} {name : SlotName}
    {old : Option Nat} (new : Option Nat)
    (found : h.slot c name = .reference old) :
    Assigns h (h.setSlot c name (.reference new)) c name 0 new where
  kind := rfl
  dead := rfl
  computations := rfl
  vectors := rfl
  lists := rfl
  sequence := by
    intro c' name' v
    rw [setSlot_slot]
    by_cases place : c' = c ∧ name' = name
    · rcases place with ⟨rfl, rfl⟩
      simp [found]
    · simp [place]
  away := by
    intro c' name' place
    rw [setSlot_slot, if_neg place]
  here := by
    simp [Heap.contents, setSlot_slot, found]
  others := by
    intro c' name' _ _ place
    simp only [Heap.contents, setSlot_slot, if_neg place]
    rfl

theorem assigns_setElement {h : Heap} {c : Nat} {name : SlotName} {v : Nat}
    (i : Nat) (new : Option Nat) (held : h.slot c name = .sequence v)
    (sole : h.Sole c name v) :
    Assigns h (h.setElement v i new) c name i new where
  kind := rfl
  dead := rfl
  computations := rfl
  vectors := rfl
  lists := rfl
  sequence := fun _ _ _ => Iff.rfl
  away := fun _ _ _ => rfl
  here := by
    simp [Heap.contents, held, Heap.setElement]
  others := by
    intro c' name' live member place
    have slot : (h.setElement v i new).slot c' name' = h.slot c' name' := rfl
    rw [Heap.contents, Heap.contents, slot]
    cases holds : h.slot c' name' with
    | reference t => rfl
    | sequence w =>
        have different : w ≠ v := by
          rintro rfl
          exact place (sole c' name' live member holds)
        simp [Heap.setElement, Function.update_of_ne different]

theorem Assigns.live {h h' : Heap} {c : Nat} {name : SlotName} {i : Nat}
    {new : Option Nat} (assigns : Assigns h h' c name i new) (c' : Nat) :
    h'.Live c' ↔ h.Live c' := by
  rw [Heap.Live, Heap.Live, assigns.computations, assigns.dead]

/-- The operands of the computation change in one position. -/
theorem Assigns.count_operands {h h' : Heap} {c : Nat} {name : SlotName}
    {i : Nat} {old new : Option Nat}
    (assigns : Assigns h h' c name i new) (live : h.Live c)
    (member : name ∈ h.slotNames c)
    (found : (h.contents c name)[i]? = some old) (t : Nat) :
    (h'.operands c).count (some t) + bump old t =
      (h.operands c).count (some t) + bump new t := by
  rw [DefUseChains.count_operands, DefUseChains.count_operands]
  have names : h'.slotNames c = h.slotNames c := by
    rw [Heap.slotNames, Heap.slotNames, assigns.kind]
  rw [names]
  apply sum_map_of_eq_off (slotNames_nodup _) member
  · intro other inside different
    rw [assigns.others c other live inside fun place => different place.2]
  · rw [assigns.here]
    exact count_set new t found

theorem Assigns.operands_of_ne {h h' : Heap} {c : Nat} {name : SlotName}
    {i : Nat} {new : Option Nat} (assigns : Assigns h h' c name i new)
    {c' : Nat} (live : h.Live c') (different : c' ≠ c) :
    h'.operands c' = h.operands c' := by
  rw [Heap.operands, Heap.operands, assigns.kind]
  apply List.flatMap_congr
  intro slot member
  apply assigns.others c' slot.name live (List.mem_map_of_mem member)
  exact fun place => different place.1

/-! ## Adjusting the users -/

/-- The lists after one user was removed from `old` and added to `new`. -/
structure Recounts (h : Heap) (lists : PairList.Store Nat Nat) (c : Nat)
    (old new : Option Nat) : Prop where
  linked : lists.Linked
  others : ∀ t c', c' ≠ c → (lists.items t).count c' = (h.users t).count c'
  here : ∀ t, bump old t ≤ (h.users t).count c →
    (lists.items t).count c + bump old t = (h.users t).count c + bump new t

theorem linked_addUser {h : Heap} (linked : h.lists.Linked)
    (operand : Option Nat) (c : Nat) : (addUser h operand c).lists.Linked := by
  cases operand with
  | none => exact linked
  | some t => exact linked.add t c

theorem linked_removeUser {h : Heap} (linked : h.lists.Linked)
    (operand : Option Nat) (c : Nat) :
    (removeUser h operand c).lists.Linked := by
  cases operand with
  | none => exact linked
  | some t => exact linked.remove t c

theorem recounts_add_remove {h : Heap} (linked : h.lists.Linked) (c : Nat)
    (old new : Option Nat) :
    Recounts h (removeUser (addUser h new c) old c).lists c old new where
  linked := linked_removeUser (linked_addUser linked new c) old c
  others := by
    intro t c' different
    have count := users_removeUser (linked_addUser linked new c) old c t c'
    rw [users_addUser linked, if_neg different, if_neg different] at count
    exact count
  here := by
    intro t enough
    have count := users_removeUser (linked_addUser linked new c) old c t c
    rw [users_addUser linked, if_pos rfl, if_pos rfl] at count
    have count' : (((removeUser (addUser h new c) old c).lists.items t).count
        c) = (h.users t).count c + bump new t - bump old t := count
    omega

theorem recounts_remove_add {h : Heap} (linked : h.lists.Linked) (c : Nat)
    (old new : Option Nat) :
    Recounts h (addUser (removeUser h old c) new c).lists c old new where
  linked := linked_addUser (linked_removeUser linked old c) new c
  others := by
    intro t c' different
    have count := users_addUser (linked_removeUser linked old c) new c t c'
    rw [users_removeUser linked, if_neg different, if_neg different] at count
    exact count
  here := by
    intro t enough
    have count := users_addUser (linked_removeUser linked old c) new c t c
    rw [users_removeUser linked, if_pos rfl, if_pos rfl] at count
    have count' : (((addUser (removeUser h old c) new c).lists.items t).count
        c) = (h.users t).count c - bump old t + bump new t := count
    omega

/-- An assignment with its two adjustments keeps the heap sound. -/
theorem Heap.Sound.assign {h h' : Heap} (sound : h.Sound) {c : Nat}
    {name : SlotName} {i : Nat} {old new : Option Nat}
    {lists : PairList.Store Nat Nat} (made : c < h.computations)
    (accessor : name ∈ usedTemporaryAccessors (h.kind c))
    (assigns : Assigns h h' c name i new)
    (found : (h.contents c name)[i]? = some old)
    (recounts : Recounts h lists c old new) :
    ({ h' with lists := lists } : Heap).Sound where
  linked := recounts.linked
  known := by
    intro t user member
    change user < h'.computations
    rw [assigns.computations]
    by_cases same : user = c
    · exact same ▸ made
    · apply sound.known t user
      apply List.count_pos_iff.mp
      rw [← recounts.others t user same]
      exact List.count_pos_iff.mpr member
  allocated := by
    intro c' name' v made' member holds
    change v < h'.vectors
    rw [assigns.vectors]
    apply sound.allocated c' name' v
    · exact assigns.computations ▸ made'
    · rw [Heap.slotNames] at member ⊢
      rwa [← assigns.kind]
    · exact (assigns.sequence c' name' v).mp holds
  untracked := by
    intro c' live slot member typed
    have live' : h.Live c' := (assigns.live c').mp live
    have member' : slot ∈ temporarySlots (h.kind c') := by
      rwa [← assigns.kind]
    have place : ¬ (c' = c ∧ slot.name = name) := by
      rintro ⟨rfl, rfl⟩
      rcases mem_usedTemporaryAccessors.mp accessor with
        ⟨other, inside, typed', same⟩
      have equal : other = slot :=
        List.inj_on_of_nodup_map (slotNames_nodup _) inside member' same
      rw [equal, typed] at typed'
      contradiction
    change h'.slot c' slot.name = _
    rw [assigns.away c' slot.name place]
    exact sound.untracked c' live' slot member' typed
  exact := by
    intro c' live t
    have live' : h.Live c' := (assigns.live c').mp live
    have before := sound.exact c' live' t
    change (lists.items t).count c' = (h'.operands c').count (some t)
    by_cases same : c' = c
    · subst same
      have member := mem_slotNames_of_accessor accessor
      have change := assigns.count_operands live' member found t
      have inside : old ∈ h.operands c' :=
        mem_operands.mpr ⟨name, member, List.mem_of_getElem? found⟩
      have count := recounts.here t (before ▸ bump_le_count inside t)
      omega
    · rw [recounts.others t c' same, assigns.operands_of_ne live' same]
      exact before

/-! ## What replacements leave -/

/-- Replacing operands `old` keeps the shape of the slots, makes no new
operand `old`, and does not disturb a loop over the users of `old`. -/
structure Frame (old : Nat) (h h' : Heap) : Prop where
  kind : h'.kind = h.kind
  dead : h'.dead = h.dead
  computations : h'.computations = h.computations
  sequence : ∀ c name v,
    h'.slot c name = .sequence v ↔ h.slot c name = .sequence v
  fewer : ∀ v, some old ∈ h'.element v → some old ∈ h.element v
  edited : PairList.Edited old h.lists h'.lists

@[refl]
theorem Frame.refl (old : Nat) (h : Heap) : Frame old h h where
  kind := rfl
  dead := rfl
  computations := rfl
  sequence := fun _ _ _ => Iff.rfl
  fewer := fun _ member => member
  edited := PairList.Edited.refl old h.lists

theorem Frame.trans {old : Nat} {h h' h'' : Heap} (before : Frame old h h')
    (after : Frame old h' h'') : Frame old h h'' where
  kind := after.kind.trans before.kind
  dead := after.dead.trans before.dead
  computations := after.computations.trans before.computations
  sequence := fun c name v =>
    (after.sequence c name v).trans (before.sequence c name v)
  fewer := fun v member => before.fewer v (after.fewer v member)
  edited := before.edited.trans after.edited

theorem Frame.live {old : Nat} {h h' : Heap} (frame : Frame old h h')
    (c : Nat) : h'.Live c ↔ h.Live c := by
  rw [Heap.Live, Heap.Live, frame.computations, frame.dead]

theorem Frame.slotNames {old : Nat} {h h' : Heap} (frame : Frame old h h')
    (c : Nat) : h'.slotNames c = h.slotNames c := by
  rw [Heap.slotNames, Heap.slotNames, frame.kind]

theorem Frame.sole {old : Nat} {h h' : Heap} (frame : Frame old h h')
    {c : Nat} {name : SlotName} {v : Nat} (sole : h.Sole c name v) :
    h'.Sole c name v := by
  intro c' name' live member holds
  apply sole c' name' ((frame.live c').mp live)
  · exact frame.slotNames c' ▸ member
  · exact (frame.sequence c' name' v).mp holds

theorem Frame.owns {old : Nat} {h h' : Heap} (frame : Frame old h h')
    {c : Nat} (owns : h.Owns c old) : h'.Owns c old := by
  intro name v member holds inside
  rw [frame.kind] at member
  apply frame.sole
  apply owns name v member
  · exact (frame.sequence c name v).mp holds
  · exact frame.fewer v inside

/-- What an operand becomes when `t` is replaced by `new`. -/
def swap (t : Nat) (new operand : Option Nat) : Option Nat :=
  if operand = some t then new else operand

/-- The operands of `c` in the named slots are replaced, and no other operand
of a live computation. -/
def Swapped (h h' : Heap) (c t : Nat) (new : Option Nat)
    (names : List SlotName) : Prop :=
  ∀ c' name', h.Live c' → name' ∈ h.slotNames c' →
    h'.contents c' name' =
      if c' = c ∧ name' ∈ names then
        (h.contents c' name').map (swap t new)
      else
        h.contents c' name'

theorem removeUser_addUser {h h' : Heap} (same : h'.lists = h.lists)
    (c : Nat) (old new : Option Nat) :
    removeUser (addUser h' new c) old c =
      { h' with lists := (removeUser (addUser h new c) old c).lists } := by
  cases old <;> cases new <;> simp [removeUser, addUser, ← same]

theorem edited_addUser {h : Heap} (linked : h.lists.Linked) {old : Nat}
    {new : Option Nat} (different : new ≠ some old) (c : Nat) :
    PairList.Edited old h.lists (addUser h new c).lists := by
  cases new with
  | none => exact PairList.Edited.refl old h.lists
  | some n =>
      apply linked.edited_add
      rintro rfl
      exact different rfl

/-- The replacement of one operand `t`. -/
theorem Heap.Sound.replaceOne {h h' : Heap} (sound : h.Sound) {c t : Nat}
    {name : SlotName} {i : Nat} {new : Option Nat}
    (made : c < h.computations)
    (accessor : name ∈ usedTemporaryAccessors (h.kind c))
    (assigns : Assigns h h' c name i new)
    (found : (h.contents c name)[i]? = some (some t))
    (different : new ≠ some t)
    (fewer : ∀ v, some t ∈ h'.element v → some t ∈ h.element v) :
    (removeUser (addUser h' new c) (some t) c).Sound ∧
      Frame t h (removeUser (addUser h' new c) (some t) c) ∧
      (removeUser (addUser h' new c) (some t) c).contents = h'.contents := by
  rw [removeUser_addUser assigns.lists]
  refine ⟨?_, ?_, rfl⟩
  · exact sound.assign made accessor assigns found
      (recounts_add_remove sound.linked c (some t) new)
  · constructor
    · exact assigns.kind
    · exact assigns.dead
    · exact assigns.computations
    · exact assigns.sequence
    · exact fewer
    · apply (edited_addUser sound.linked different c).trans
      exact (linked_addUser sound.linked new c).edited_remove t c

/-! ## The loop over a vector -/

/-- The first `n` elements are replaced. -/
def swapFront (t : Nat) (new : Option Nat) (n : Nat)
    (elements : List (Option Nat)) : List (Option Nat) :=
  (elements.take n).map (swap t new) ++ elements.drop n

theorem swapFront_getElem? (t : Nat) (new : Option Nat) (n : Nat)
    (elements : List (Option Nat)) :
    (swapFront t new n elements)[n]? = elements[n]? := by
  by_cases short : n ≤ elements.length
  · rw [swapFront, List.getElem?_append_right (by simp [short])]
    simp [short]
  · have long : (swapFront t new n elements).length ≤ n := by
      simp only [swapFront, List.length_append, List.length_map,
        List.length_take, List.length_drop]
      omega
    rw [List.getElem?_eq_none long, List.getElem?_eq_none (by omega)]

theorem swapFront_succ (t : Nat) (new : Option Nat) (n : Nat)
    (elements : List (Option Nat)) :
    swapFront t new (n + 1) elements =
      if elements[n]? = some (some t) then
        (swapFront t new n elements).set n new
      else
        swapFront t new n elements := by
  induction n generalizing elements with
  | zero =>
      cases elements with
      | nil => simp [swapFront]
      | cons operand elements =>
          by_cases found : operand = some t <;> simp [swapFront, swap, found]
  | succ n ih =>
      cases elements with
      | nil => simp [swapFront]
      | cons operand elements =>
          have cons : ∀ m, swapFront t new (m + 1) (operand :: elements) =
              swap t new operand :: swapFront t new m elements :=
            fun m => by simp [swapFront]
          rw [cons, cons, ih elements, List.getElem?_cons_succ]
          split <;> simp

theorem swapFront_length (t : Nat) (new : Option Nat)
    (elements : List (Option Nat)) :
    swapFront t new elements.length elements =
      elements.map (swap t new) := by
  simp [swapFront]

theorem fewer_setElement {h : Heap} {v t i : Nat} {new : Option Nat}
    (different : new ≠ some t) (w : Nat)
    (member : some t ∈ (h.setElement v i new).element w) :
    some t ∈ h.element w := by
  by_cases same : w = v
  · subst same
    simp only [Heap.setElement, Function.update_self] at member
    rcases List.mem_or_eq_of_mem_set member with member | equal
    · exact member
    · exact absurd equal.symm different
  · simpa [Heap.setElement, same] using member

/-- The loop over a vector that the computation owns. -/
theorem Heap.Sound.replaceElements {h : Heap} (sound : h.Sound) {c t : Nat}
    {new : Option Nat} (made : c < h.computations)
    (different : new ≠ some t) (owns : h.Owns c t) {name : SlotName}
    {v : Nat} (accessor : name ∈ usedTemporaryAccessors (h.kind c))
    (held : h.slot c name = .sequence v) (renamed : Bool) (n : Nat) :
    let state := (List.range n).foldl (replaceElement c t new v) (h, renamed)
    state.1.Sound ∧ Frame t h state.1 ∧
      ∀ c' name', h.Live c' → name' ∈ h.slotNames c' →
        state.1.contents c' name' =
          if c' = c ∧ name' = name then
            swapFront t new n (h.contents c' name')
          else
            h.contents c' name' := by
  induction n with
  | zero =>
      refine ⟨sound, Frame.refl t h, ?_⟩
      intro c' name' _ _
      simp [swapFront]
  | succ n ih =>
      simp only [List.range_succ, List.foldl_append, List.foldl_cons,
        List.foldl_nil]
      generalize (List.range n).foldl (replaceElement c t new v)
        (h, renamed) = state at ih ⊢
      rcases ih with ⟨sound', frame, contents⟩
      have held' : state.1.slot c name = .sequence v :=
        (frame.sequence c name v).mpr held
      have here : state.1.contents c name = state.1.element v := by
        simp only [Heap.contents, held']
      have accessor' : name ∈ usedTemporaryAccessors (state.1.kind c) :=
        frame.kind ▸ accessor
      by_cases found : (state.1.element v)[n]? = some (some t)
      · have sole : state.1.Sole c name v :=
          frame.owns owns name v accessor' held' (List.mem_of_getElem? found)
        have assigns := assigns_setElement n new held' sole
        have done := sound'.replaceOne (frame.computations ▸ made) accessor'
          assigns (here ▸ found) different (fewer_setElement different)
        rw [replaceElement, if_pos found]
        refine ⟨done.1, frame.trans done.2.1, ?_⟩
        intro c' name' live member
        rw [done.2.2]
        by_cases place : c' = c ∧ name' = name
        · rcases place with ⟨rfl, rfl⟩
          have before := contents c' name' live member
          rw [if_pos ⟨rfl, rfl⟩] at before ⊢
          have there := found
          rw [← here, before, swapFront_getElem?] at there
          rw [assigns.here, before, swapFront_succ, if_pos there]
        · rw [assigns.others c' name' ((frame.live c').mpr live)
            (frame.slotNames c' ▸ member) place,
            contents c' name' live member, if_neg place, if_neg place]
      · rw [replaceElement, if_neg found]
        refine ⟨sound', frame, ?_⟩
        intro c' name' live member
        rw [contents c' name' live member]
        by_cases place : c' = c ∧ name' = name
        · rcases place with ⟨rfl, rfl⟩
          have before := contents c' name' live member
          rw [if_pos ⟨rfl, rfl⟩] at before
          rw [if_pos ⟨rfl, rfl⟩, if_pos ⟨rfl, rfl⟩]
          have there := found
          rw [← here, before, swapFront_getElem?] at there
          rw [swapFront_succ, if_neg there]
        · rw [if_neg place, if_neg place]

/-! ## The loop over the accessors -/

theorem map_swap_of_notMem {t : Nat} {operands : List (Option Nat)}
    (new : Option Nat) (absent : some t ∉ operands) :
    operands.map (swap t new) = operands := by
  conv_rhs => rw [← List.map_id operands]
  apply List.map_congr_left
  intro operand member
  rw [swap, if_neg, id]
  rintro rfl
  exact absent member

/-- One accessor. -/
theorem Heap.Sound.replaceInSlot {h : Heap} (sound : h.Sound) {c t : Nat}
    {new : Option Nat} (made : c < h.computations)
    (different : new ≠ some t) (owns : h.Owns c t) {name : SlotName}
    (accessor : name ∈ usedTemporaryAccessors (h.kind c)) (renamed : Bool) :
    (replaceInSlot c t new (h, renamed) name).1.Sound ∧
      Frame t h (replaceInSlot c t new (h, renamed) name).1 ∧
      Swapped h (replaceInSlot c t new (h, renamed) name).1 c t new
        [name] := by
  simp only [DefUseChains.replaceInSlot]
  cases held : h.slot c name with
  | sequence v =>
      have loop := sound.replaceElements made different owns accessor held
        renamed (h.element v).length
      refine ⟨loop.1, loop.2.1, ?_⟩
      intro c' name' live member
      rw [loop.2.2 c' name' live member]
      simp only [List.mem_singleton]
      by_cases place : c' = c ∧ name' = name
      · rcases place with ⟨rfl, rfl⟩
        have here : h.contents c' name' = h.element v := by
          simp only [Heap.contents, held]
        rw [if_pos ⟨rfl, rfl⟩, if_pos ⟨rfl, rfl⟩, here, swapFront_length]
      · rw [if_neg place, if_neg place]
  | reference ref =>
      have here : h.contents c name = [ref] := by
        simp only [Heap.contents, held]
      by_cases found : ref = some t
      · have assigns := assigns_setSlot new held
        have done := sound.replaceOne made accessor assigns
          (by rw [here, found]; rfl) different (fun _ member => member)
        simp only [found, if_true]
        refine ⟨done.1, done.2.1, ?_⟩
        intro c' name' live member
        rw [done.2.2]
        simp only [List.mem_singleton]
        by_cases place : c' = c ∧ name' = name
        · rcases place with ⟨rfl, rfl⟩
          rw [if_pos ⟨rfl, rfl⟩, assigns.here, here, found]
          simp [swap]
        · rw [if_neg place]
          exact assigns.others c' name' live member place
      · simp only [found, if_false]
        refine ⟨sound, Frame.refl t h, ?_⟩
        intro c' name' live member
        simp only [List.mem_singleton]
        by_cases place : c' = c ∧ name' = name
        · rcases place with ⟨rfl, rfl⟩
          rw [if_pos ⟨rfl, rfl⟩, here]
          simp [swap, found]
        · rw [if_neg place]

theorem Heap.Sound.replaceInSlots {names : List SlotName} {h : Heap}
    (sound : h.Sound) {c t : Nat} {new : Option Nat}
    (made : c < h.computations) (different : new ≠ some t)
    (owns : h.Owns c t) (nodup : names.Nodup)
    (accessors : ∀ name ∈ names, name ∈ usedTemporaryAccessors (h.kind c))
    (renamed : Bool) :
    let state := names.foldl (DefUseChains.replaceInSlot c t new) (h, renamed)
    state.1.Sound ∧ Frame t h state.1 ∧ Swapped h state.1 c t new names := by
  induction names generalizing h renamed with
  | nil =>
      refine ⟨sound, Frame.refl t h, ?_⟩
      intro c' name' _ _
      simp
  | cons name names ih =>
      rcases List.nodup_cons.mp nodup with ⟨fresh, nodup⟩
      rcases sound.replaceInSlot made different owns
          (accessors name (List.mem_cons_self ..)) renamed with
        ⟨sound', frame, swapped⟩
      simp only [List.foldl_cons]
      generalize DefUseChains.replaceInSlot c t new (h, renamed) name = state
        at sound' frame swapped ⊢
      rcases ih sound' (frame.computations ▸ made) (frame.owns owns) nodup
          (fun other member => frame.kind ▸
            accessors other (List.mem_cons_of_mem _ member)) state.2 with
        ⟨sound'', frame', swapped'⟩
      refine ⟨sound'', frame.trans frame', ?_⟩
      intro c' name' live member
      rw [swapped' c' name' ((frame.live c').mpr live)
        (frame.slotNames c' ▸ member), swapped c' name' live member]
      simp only [List.mem_cons]
      by_cases user : c' = c
      · by_cases same : name' = name
        · subst same
          simp [user, fresh]
        · simp [user, same]
      · simp [user]

/-- `replace-temporary-references!` replaces the reference in every operand
of the computation, and nothing else. -/
theorem Heap.Sound.replaceTemporaryReferences {h h' : Heap} (sound : h.Sound)
    {c t : Nat} {new : Option Nat} {renamed : Bool}
    (made : c < h.computations) (owns : h.Owns c t)
    (done : replaceTemporaryReferences h c t new = some (h', renamed)) :
    new ≠ some t ∧ h'.Sound ∧ Frame t h h' ∧
      ∀ c', h.Live c' → h'.operands c' =
        if c' = c then (h.operands c').map (swap t new)
        else h.operands c' := by
  rw [DefUseChains.replaceTemporaryReferences] at done
  split at done
  · contradiction
  · rename_i different
    rcases sound.replaceInSlots made different owns
        (usedTemporaryAccessors_nodup (h.kind c)) (fun _ member => member)
        false with ⟨sound', frame, swapped⟩
    rw [Option.some.injEq] at done
    rw [done] at sound' frame swapped
    refine ⟨different, sound', frame, ?_⟩
    intro c' live
    rw [Heap.operands, Heap.operands, frame.kind]
    by_cases user : c' = c
    · subst user
      rw [if_pos rfl, List.map_flatMap]
      apply List.flatMap_congr
      intro slot member
      rw [swapped c' slot.name live (List.mem_map_of_mem member)]
      cases typed : slot.typed with
      | true =>
          rw [if_pos]
          exact ⟨rfl, mem_usedTemporaryAccessors.mpr
            ⟨slot, member, typed, rfl⟩⟩
      | false =>
          -- The slot is left out by the accessors, and holds nothing.
          have empty : h.contents c' slot.name = [none] := by
            rw [Heap.contents, sound.untracked c' live slot member typed]
          rw [empty, map_swap_of_notMem new (by simp), ite_self]
    · rw [if_neg user]
      apply List.flatMap_congr
      intro slot member
      rw [swapped c' slot.name live (List.mem_map_of_mem member), if_neg]
      exact fun place => user place.1

end OpenDylan.Compiler.DefUseChains
