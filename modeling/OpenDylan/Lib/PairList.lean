import OpenDylan.Lib.Chain
import Mathlib.Data.List.Perm.Subperm
import Mathlib.Data.List.Range

/-!
# Lists of mutable pairs

A store of pairs, whose tails can be assigned, holds one list for each owner.
Adding allocates a pair in front.  Removing unlinks the first pair with a given
head by assigning the tail of the pair before it, and leaves the tail of the
unlinked pair as it is: a loop that stands on the unlinked pair still gets
back to the list.  `Edited` says what such a loop may rely on, and
`forEach_rule` is the invariant rule for a loop whose body edits the list it
walks along.
-/

namespace OpenDylan.Lib.PairList

open OpenDylan.Lib.Chain

/-- Pairs with their heads and tails, and the first pair of every list. -/
structure Store (Owner Element : Type*) where
  head : Nat → Element
  tail : Nat → Option Nat
  first : Owner → Option Nat
  fresh : Nat

variable {Owner Element State : Type*}

/-- The pairs of a list, in order. -/
def Store.pairs (s : Store Owner Element) (owner : Owner) : List Nat :=
  walk s.tail s.fresh (s.first owner)

/-- The elements of a list, in order. -/
def Store.items (s : Store Owner Element) (owner : Owner) : List Element :=
  (s.pairs owner).map s.head

/-- Every list ends, and no pair is in two places. -/
structure Store.Linked (s : Store Owner Element) : Prop where
  segment : ∀ owner, Segment s.tail (s.first owner) (s.pairs owner) none
  nodup : ∀ owner, (s.pairs owner).Nodup
  allocated : ∀ owner, ∀ pair ∈ s.pairs owner, pair < s.fresh
  apart : ∀ owner other pair,
    pair ∈ s.pairs owner → pair ∈ s.pairs other → owner = other

theorem length_le_of_allocated {pairs : List Nat} {fresh : Nat}
    (nodup : pairs.Nodup) (allocated : ∀ pair ∈ pairs, pair < fresh) :
    pairs.length ≤ fresh := by
  have inside : pairs ⊆ List.range fresh := fun pair member =>
    List.mem_range.mpr (allocated pair member)
  simpa using (nodup.subperm inside).length_le

/-- Chains that visit given pairs are the lists of the store. -/
theorem pairs_eq_of_segments {s : Store Owner Element}
    {chains : Owner → List Nat}
    (segment : ∀ owner,
      Segment s.tail (s.first owner) (chains owner) none)
    (nodup : ∀ owner, (chains owner).Nodup)
    (allocated : ∀ owner, ∀ pair ∈ chains owner, pair < s.fresh)
    (owner : Owner) :
    s.pairs owner = chains owner := by
  apply walk_of_segment (segment owner)
  exact length_le_of_allocated (nodup owner) (allocated owner)

theorem linked_of_segments {s : Store Owner Element}
    (chains : Owner → List Nat)
    (segment : ∀ owner,
      Segment s.tail (s.first owner) (chains owner) none)
    (nodup : ∀ owner, (chains owner).Nodup)
    (allocated : ∀ owner, ∀ pair ∈ chains owner, pair < s.fresh)
    (apart : ∀ owner other pair,
      pair ∈ chains owner → pair ∈ chains other → owner = other) :
    s.Linked := by
  have same := pairs_eq_of_segments segment nodup allocated
  constructor
  · intro owner
    rw [same]
    exact segment owner
  · intro owner
    rw [same]
    exact nodup owner
  · intro owner
    rw [same]
    exact allocated owner
  · intro owner other pair
    rw [same, same]
    exact apart owner other pair

theorem Store.Linked.fresh_notMem {s : Store Owner Element} (linked : s.Linked)
    (owner : Owner) : s.fresh ∉ s.pairs owner := fun member =>
  lt_irrefl _ (linked.allocated owner _ member)

/-! ## Loops over a list that changes -/

/-- What a loop along the list of `owner` may rely on: no pair is added to
this list, and from every pair the tails still lead over all pairs that are
in the list. -/
structure Edited (owner : Owner) (s s' : Store Owner Element) : Prop where
  grows : s.fresh ≤ s'.fresh
  head : ∀ pair, pair < s.fresh → s'.head pair = s.head pair
  kept : ∀ pair, pair ∈ s'.pairs owner → pair ∈ s.pairs owner
  follow : ∀ cursor path, Segment s.tail cursor path none →
    path.Nodup → (∀ pair ∈ path, pair < s.fresh) →
    ∃ shorter, Segment s'.tail cursor shorter none ∧
      List.Sublist shorter path ∧
      ∀ pair ∈ path, pair ∈ s'.pairs owner → pair ∈ shorter

@[refl]
theorem Edited.refl (owner : Owner) (s : Store Owner Element) :
    Edited owner s s where
  grows := le_rfl
  head := fun _ _ => rfl
  kept := fun _ member => member
  follow := fun _ path chain _ _ =>
    ⟨path, chain, List.Sublist.refl path, fun _ member _ => member⟩

theorem Edited.trans {owner : Owner} {s s' s'' : Store Owner Element}
    (before : Edited owner s s') (after : Edited owner s' s'') :
    Edited owner s s'' where
  grows := before.grows.trans after.grows
  head := by
    intro pair allocated
    rw [after.head pair (allocated.trans_le before.grows)]
    exact before.head pair allocated
  kept := fun pair member => before.kept pair (after.kept pair member)
  follow := by
    intro cursor path chain nodup allocated
    rcases before.follow cursor path chain nodup allocated with
      ⟨middle, chain', fewer, covers⟩
    rcases after.follow cursor middle chain' (nodup.sublist fewer)
        (fun pair member =>
          (allocated pair (fewer.subset member)).trans_le before.grows) with
      ⟨shorter, chain'', fewer', covers'⟩
    refine ⟨shorter, chain'', fewer'.trans fewer, ?_⟩
    intro pair member listed
    apply covers' pair _ listed
    exact covers pair member (after.kept pair listed)

/-- Walk along the tails; the tail is read after the body has run. -/
def forEach (store : State → Store Owner Element)
    (body : Element → State → Option State) :
    Nat → State → Option Nat → Option State
  | 0, state, _ => some state
  | _ + 1, state, none => some state
  | fuel + 1, state, some pair =>
      match body ((store state).head pair) state with
      | none => none
      | some state =>
          forEach store body fuel state ((store state).tail pair)

theorem forEach_returns {store : State → Store Owner Element}
    {body : Element → State → Option State}
    (returns : ∀ element state, ∃ state', body element state = some state')
    (fuel : Nat) (state : State) (cursor : Option Nat) :
    ∃ state', forEach store body fuel state cursor = some state' := by
  induction fuel generalizing state cursor with
  | zero => exact ⟨state, rfl⟩
  | succ fuel ih =>
      cases cursor with
      | none => exact ⟨state, rfl⟩
      | some pair =>
          rcases returns ((store state).head pair) state with ⟨next, done⟩
          simp only [forEach, done]
          exact ih next _

section Rule

variable {store : State → Store Owner Element}
  {body : Element → State → Option State} {owner : Owner}
  (Invariant : State → Prop) (Needs : State → Element → Prop)
  (Visited : Element → Prop)

/-- If every element that needs a visit is in the list, and a visit ends the
need, then no element needs a visit after the loop. -/
theorem forEach_rule
    (linked : ∀ state, Invariant state → (store state).Linked)
    (listed : ∀ state element, Invariant state → Needs state element →
      element ∈ (store state).items owner)
    (step : ∀ state element state', Invariant state → Visited element →
      body element state = some state' →
      Invariant state' ∧ Edited owner (store state) (store state') ∧
        ∀ other, Needs state' other → Needs state other ∧ other ≠ element)
    {fuel : Nat} {state final : State} {cursor : Option Nat}
    {path : List Nat}
    (start : Invariant state)
    (run : forEach store body fuel state cursor = some final)
    (chain : Segment (store state).tail cursor path none)
    (nodup : path.Nodup)
    (allocated : ∀ pair ∈ path, pair < (store state).fresh)
    (enough : path.length ≤ fuel)
    (visited : ∀ pair ∈ path, Visited ((store state).head pair))
    (covers : ∀ pair ∈ (store state).pairs owner,
      Needs state ((store state).head pair) → pair ∈ path) :
    Invariant final ∧ ∀ element, ¬ Needs final element := by
  induction fuel generalizing state cursor path with
  | zero =>
      cases Option.some.inj run
      refine ⟨start, ?_⟩
      intro element needs
      rcases List.mem_map.mp (listed final element start needs) with
        ⟨pair, member, rfl⟩
      have inside := covers pair member needs
      simp [List.length_eq_zero_iff.mp (Nat.le_zero.mp enough)] at inside
  | succ fuel ih =>
      cases path with
      | nil =>
          rw [segment_nil] at chain
          subst chain
          cases Option.some.inj run
          refine ⟨start, ?_⟩
          intro element needs
          rcases List.mem_map.mp (listed final element start needs) with
            ⟨pair, member, rfl⟩
          simpa using covers pair member needs
      | cons here path =>
          have whole := chain
          rw [segment_cons] at chain
          rcases chain with ⟨rfl, -⟩
          simp only [forEach] at run
          cases done : body ((store state).head here) state with
          | none =>
              rw [done] at run
              contradiction
          | some state' =>
              rw [done] at run
              rcases step state _ state' start
                  (visited here (List.mem_cons_self ..)) done with
                ⟨kept, edited, fewer⟩
              rcases edited.follow _ _ whole nodup allocated with
                ⟨shorter, chain', sublist, keeps⟩
              cases shorter with
              | nil => simp at chain'
              | cons first shorter =>
                  rw [segment_cons] at chain'
                  cases chain'.1
                  have inside : List.Sublist shorter path :=
                    List.cons_sublist_cons.mp sublist
                  have rest : ∀ pair ∈ shorter,
                      pair < (store state).fresh := fun pair member =>
                    allocated pair
                      (List.mem_cons_of_mem _ (inside.subset member))
                  apply ih kept run chain'.2
                    ((List.nodup_cons.mp nodup).2.sublist inside)
                  · exact fun pair member =>
                      (rest pair member).trans_le edited.grows
                  · have short := inside.length_le
                    simp only [List.length_cons] at enough
                    omega
                  · intro pair member
                    rw [edited.head pair (rest pair member)]
                    exact visited pair
                      (List.mem_cons_of_mem _ (inside.subset member))
                  · intro pair member needs
                    have before := edited.kept pair member
                    have old := fewer _ needs
                    rw [edited.head pair
                      ((linked state start).allocated owner pair before)] at old
                    have found := keeps pair
                      (covers pair before old.1) member
                    rcases List.mem_cons.mp found with rfl | found
                    · exact absurd rfl old.2
                    · exact found

end Rule

/-! ## Adding -/

section Add

variable [DecidableEq Owner]

/-- Put a new pair in front of a list. -/
def Store.add (s : Store Owner Element) (owner : Owner) (element : Element) :
    Store Owner Element where
  head := Function.update s.head s.fresh element
  tail := Function.update s.tail s.fresh (s.first owner)
  first := Function.update s.first owner (some s.fresh)
  fresh := s.fresh + 1

/-- The pairs of every list after adding to one of them. -/
def Store.pairsAfterAdd (s : Store Owner Element) (owner : Owner) :
    Owner → List Nat :=
  Function.update s.pairs owner (s.fresh :: s.pairs owner)

theorem Store.Linked.add_segment {s : Store Owner Element}
    (linked : s.Linked) (owner : Owner) (element : Element) (other : Owner) :
    Segment (s.add owner element).tail ((s.add owner element).first other)
      (s.pairsAfterAdd owner other) none := by
  have old : ∀ place, Segment (s.add owner element).tail (s.first place)
      (s.pairs place) none := fun place =>
    (segment_update_of_notMem (linked.fresh_notMem place)).mpr
      (linked.segment place)
  by_cases same : other = owner
  · subst same
    simp only [Store.pairsAfterAdd, Store.add, Function.update_self,
      segment_cons, true_and]
    exact old other
  · simp only [Store.pairsAfterAdd, Store.add,
      Function.update_of_ne same]
    exact old other

theorem Store.Linked.add_nodup {s : Store Owner Element}
    (linked : s.Linked) (owner other : Owner) :
    (s.pairsAfterAdd owner other).Nodup := by
  by_cases same : other = owner
  · subst same
    simp only [Store.pairsAfterAdd, Function.update_self]
    exact List.nodup_cons.mpr
      ⟨linked.fresh_notMem other, linked.nodup other⟩
  · simp only [Store.pairsAfterAdd, Function.update_of_ne same]
    exact linked.nodup other

theorem Store.mem_pairsAfterAdd {s : Store Owner Element}
    {owner other : Owner} {pair : Nat}
    (member : pair ∈ s.pairsAfterAdd owner other) :
    (other = owner ∧ pair = s.fresh) ∨ pair ∈ s.pairs other := by
  by_cases same : other = owner
  · subst same
    simp only [Store.pairsAfterAdd, Function.update_self] at member
    rcases List.mem_cons.mp member with fresh | old
    · exact Or.inl ⟨rfl, fresh⟩
    · exact Or.inr old
  · simp only [Store.pairsAfterAdd, Function.update_of_ne same] at member
    exact Or.inr member

theorem Store.Linked.add_allocated {s : Store Owner Element}
    (linked : s.Linked) (owner : Owner) (element : Element) (other : Owner) :
    ∀ pair ∈ s.pairsAfterAdd owner other,
      pair < (s.add owner element).fresh := by
  intro pair member
  rcases Store.mem_pairsAfterAdd member with ⟨-, rfl⟩ | old
  · exact Nat.lt_succ_self _
  · exact Nat.lt_succ_of_lt (linked.allocated other pair old)

theorem Store.Linked.pairs_add {s : Store Owner Element}
    (linked : s.Linked) (owner : Owner) (element : Element) (other : Owner) :
    (s.add owner element).pairs other = s.pairsAfterAdd owner other :=
  pairs_eq_of_segments (linked.add_segment owner element)
    (linked.add_nodup owner) (linked.add_allocated owner element) other

theorem Store.Linked.add {s : Store Owner Element} (linked : s.Linked)
    (owner : Owner) (element : Element) : (s.add owner element).Linked := by
  apply linked_of_segments _ (linked.add_segment owner element)
    (linked.add_nodup owner) (linked.add_allocated owner element)
  intro one other pair inOne inOther
  rcases Store.mem_pairsAfterAdd inOne with ⟨rfl, fresh⟩ | oldOne <;>
    rcases Store.mem_pairsAfterAdd inOther with ⟨rfl, fresh'⟩ | oldOther
  · rfl
  · subst fresh
    exact absurd oldOther (linked.fresh_notMem other)
  · subst fresh'
    exact absurd oldOne (linked.fresh_notMem one)
  · exact linked.apart one other pair oldOne oldOther

theorem Store.Linked.items_add {s : Store Owner Element} (linked : s.Linked)
    (owner : Owner) (element : Element) :
    (s.add owner element).items =
      Function.update s.items owner (element :: s.items owner) := by
  have old : ∀ place,
      (s.pairs place).map (s.add owner element).head = s.items place := by
    intro place
    apply List.map_congr_left
    intro pair member
    apply Function.update_of_ne
    rintro rfl
    exact linked.fresh_notMem place member
  ext1 other
  rw [Store.items, linked.pairs_add]
  by_cases same : other = owner
  · subst same
    simp only [Store.pairsAfterAdd, Function.update_self, List.map_cons, old]
    simp [Store.add]
  · simp only [Store.pairsAfterAdd, Function.update_of_ne same, old]

/-- Adding to another list does not disturb a loop. -/
theorem Store.Linked.edited_add {s : Store Owner Element} (linked : s.Linked)
    {owner other : Owner} (different : other ≠ owner) (element : Element) :
    Edited owner s (s.add other element) where
  grows := Nat.le_succ _
  head := by
    intro pair allocated
    exact Function.update_of_ne (Nat.ne_of_lt allocated) _ _
  kept := by
    intro pair member
    rw [linked.pairs_add] at member
    rcases Store.mem_pairsAfterAdd member with ⟨same, -⟩ | old
    · exact absurd same.symm different
    · exact old
  follow := by
    intro cursor path chain _ allocated
    refine ⟨path, ?_, List.Sublist.refl path, fun _ member _ => member⟩
    apply (segment_update_of_notMem ?_).mpr chain
    intro member
    exact lt_irrefl _ (allocated _ member)

end Add

/-! ## Removing -/

section Remove

variable [DecidableEq Element]

/-- Find the first pair with the given head and unlink it, with `list` as the
whole list and `previous` as the pair before `remaining`. -/
def Store.removeLoop (s : Store Owner Element) (element : Element)
    (list : Option Nat) :
    Nat → Option Nat → Option Nat → (Nat → Option Nat) × Option Nat
  | 0, _, _ => (s.tail, list)
  | _ + 1, _, none => (s.tail, list)
  | fuel + 1, previous, some pair =>
      if s.head pair = element then
        match previous with
        | some previous =>
            (Function.update s.tail previous (s.tail pair), list)
        | none => (s.tail, s.tail pair)
      else
        s.removeLoop element list fuel (some pair) (s.tail pair)

/-- The loop stops at the first pair with the given head. -/
theorem Store.removeLoop_cases (s : Store Owner Element) (element : Element)
    (list previous : Option Nat) {fuel : Nat} {remaining : Option Nat}
    {path : List Nat} (chain : Segment s.tail remaining path none)
    (enough : path.length ≤ fuel) :
    (element ∉ path.map s.head ∧
      s.removeLoop element list fuel previous remaining = (s.tail, list)) ∨
    ∃ front pair back, path = front ++ pair :: back ∧
      element ∉ front.map s.head ∧ s.head pair = element ∧
      s.removeLoop element list fuel previous remaining =
        match front.getLast?.or previous with
        | some previous =>
            (Function.update s.tail previous (s.tail pair), list)
        | none => (s.tail, s.tail pair) := by
  induction path generalizing fuel remaining previous with
  | nil =>
      rw [segment_nil] at chain
      subst chain
      left
      cases fuel <;> simp [Store.removeLoop]
  | cons here path ih =>
      rcases chain with ⟨rfl, chain⟩
      cases fuel with
      | zero => simp at enough
      | succ fuel =>
          by_cases hit : s.head here = element
          · right
            refine ⟨[], here, path, rfl, by simp, hit, ?_⟩
            cases previous <;> simp [Store.removeLoop, hit]
          · have next : s.removeLoop element list (fuel + 1) previous
                (some here) = s.removeLoop element list fuel (some here)
                  (s.tail here) := by
              simp only [Store.removeLoop, hit, if_false]
            rw [next]
            rcases ih (some here) chain
                (by simpa using enough) with
              ⟨missing, result⟩ | ⟨front, pair, back, split, before, found,
                result⟩
            · left
              refine ⟨?_, result⟩
              rw [List.map_cons, List.mem_cons, not_or]
              exact ⟨fun same => hit same.symm, missing⟩
            · right
              refine ⟨here :: front, pair, back, by rw [split, List.cons_append],
                ?_, found, ?_⟩
              · rw [List.map_cons, List.mem_cons, not_or]
                exact ⟨fun same => hit same.symm, before⟩
              · rw [result, List.getLast?_cons]
                cases front.getLast? <;> rfl

variable [DecidableEq Owner]

/-- Unlink the first pair with the given head from a list. -/
def Store.remove (s : Store Owner Element) (owner : Owner)
    (element : Element) : Store Owner Element :=
  let removed :=
    s.removeLoop element (s.first owner) s.fresh none (s.first owner)
  { s with
    tail := removed.1
    first := Function.update s.first owner removed.2 }

/-- What removing does: nothing, or one pair leaves the list. -/
inductive Store.Removal (s : Store Owner Element) (owner : Owner)
    (element : Element) : Store Owner Element → Prop where
  | missing (absent : element ∉ s.items owner) : s.Removal owner element s
  | first (pair : Nat) (back : List Nat)
      (split : s.pairs owner = pair :: back)
      (found : s.head pair = element) :
      s.Removal owner element
        { s with first := Function.update s.first owner (s.tail pair) }
  | later (front : List Nat) (previous pair : Nat) (back : List Nat)
      (split : s.pairs owner = front ++ previous :: pair :: back)
      (before : element ∉ (front ++ [previous]).map s.head)
      (found : s.head pair = element) :
      s.Removal owner element
        { s with tail := Function.update s.tail previous (s.tail pair) }

theorem Store.Linked.remove_cases {s : Store Owner Element}
    (linked : s.Linked) (owner : Owner) (element : Element) :
    s.Removal owner element (s.remove owner element) := by
  have enough := length_le_of_allocated (linked.nodup owner)
    (linked.allocated owner)
  rcases s.removeLoop_cases element (s.first owner) none
      (linked.segment owner) enough with
    ⟨absent, result⟩ | ⟨front, pair, back, split, before, found, result⟩
  · have same : s.remove owner element = s := by
      simp only [Store.remove, result, Function.update_eq_self]
    rw [same]
    exact Store.Removal.missing absent
  · cases front using List.reverseRecOn with
    | nil =>
        have same : s.remove owner element =
            { s with first := Function.update s.first owner (s.tail pair) } := by
          simp only [Store.remove, result, List.getLast?_nil, Option.none_or]
        rw [same]
        exact Store.Removal.first pair back split found
    | append_singleton front previous =>
        have same : s.remove owner element =
            { s with tail :=
                Function.update s.tail previous (s.tail pair) } := by
          simp only [Store.remove, result, List.getLast?_append,
            List.getLast?_singleton, Option.some_or, Function.update_eq_self]
        rw [same]
        apply Store.Removal.later front previous pair back _ before found
        rw [split, List.append_assoc, List.singleton_append]

/-- The pairs of every list after removing from one of them. -/
def Store.pairsAfterRemove (s : Store Owner Element) (owner : Owner)
    (element : Element) : Owner → List Nat :=
  Function.update s.pairs owner
    ((s.pairs owner).eraseP fun pair => decide (s.head pair = element))

theorem Store.pairsAfterRemove_sublist (s : Store Owner Element)
    (owner : Owner) (element : Element) (other : Owner) :
    List.Sublist (s.pairsAfterRemove owner element other)
      (s.pairs other) := by
  by_cases same : other = owner
  · subst same
    simp only [Store.pairsAfterRemove, Function.update_self]
    exact List.eraseP_sublist
  · simp only [Store.pairsAfterRemove, Function.update_of_ne same]
    exact List.Sublist.refl _

/-- Where the removed pair was, the list is shorter by it. -/
theorem Store.pairsAfterRemove_of_split {s : Store Owner Element}
    {owner : Owner} {element : Element} {front back : List Nat} {pair : Nat}
    (split : s.pairs owner = front ++ pair :: back)
    (before : element ∉ front.map s.head) (found : s.head pair = element) :
    s.pairsAfterRemove owner element =
      Function.update s.pairs owner (front ++ back) := by
  have away : ∀ other ∈ front, ¬ decide (s.head other = element) = true := by
    intro other member same
    exact before (List.mem_map.mpr ⟨other, member, of_decide_eq_true same⟩)
  rw [Store.pairsAfterRemove, split, List.eraseP_append_right _ away,
    List.eraseP_cons_of_pos (by simpa using found)]

theorem Store.Linked.remove_segment {s : Store Owner Element}
    (linked : s.Linked) (owner : Owner) (element : Element) (other : Owner) :
    Segment (s.remove owner element).tail
      ((s.remove owner element).first other)
      (s.pairsAfterRemove owner element other) none := by
  have here := linked.segment owner
  have removal := linked.remove_cases owner element
  generalize s.remove owner element = after at removal ⊢
  cases removal with
  | missing absent =>
      have same : s.pairsAfterRemove owner element = s.pairs := by
        have unchanged : (s.pairs owner).eraseP
            (fun pair => decide (s.head pair = element)) = s.pairs owner := by
          apply List.eraseP_of_forall_not
          intro pair member found
          exact absent (List.mem_map.mpr
            ⟨pair, member, of_decide_eq_true found⟩)
        rw [Store.pairsAfterRemove, unchanged, Function.update_eq_self]
      rw [same]
      exact linked.segment other
  | first pair back split found =>
      have split' : s.pairs owner = [] ++ pair :: back := split
      rw [Store.pairsAfterRemove_of_split split' (by simp) found,
        List.nil_append]
      by_cases same : other = owner
      · subst same
        simp only [Function.update_self]
        rw [split] at here
        exact here.2
      · simp only [Function.update_of_ne same]
        exact linked.segment other
  | later front previous pair back split before found =>
      have split' : s.pairs owner = (front ++ [previous]) ++ pair :: back := by
        rw [split, List.append_assoc, List.singleton_append]
      rw [Store.pairsAfterRemove_of_split split' before found]
      by_cases same : other = owner
      · subst same
        rw [Function.update_self, List.append_assoc, List.singleton_append]
        have nodup := linked.nodup other
        rw [split] at here nodup
        exact segment_unlink here nodup
      · rw [Function.update_of_ne same]
        apply (segment_update_of_notMem ?_).mpr (linked.segment other)
        intro member
        apply same
        apply linked.apart other owner previous member
        simp [split]

theorem Store.Linked.pairs_remove {s : Store Owner Element}
    (linked : s.Linked) (owner : Owner) (element : Element) (other : Owner) :
    (s.remove owner element).pairs other =
      s.pairsAfterRemove owner element other := by
  have fewer := s.pairsAfterRemove_sublist owner element
  apply pairs_eq_of_segments (linked.remove_segment owner element)
  · exact fun place => (linked.nodup place).sublist (fewer place)
  · exact fun place pair member =>
      linked.allocated place pair ((fewer place).subset member)

theorem Store.Linked.remove {s : Store Owner Element}
    (linked : s.Linked) (owner : Owner) (element : Element) :
    (s.remove owner element).Linked := by
  have fewer := s.pairsAfterRemove_sublist owner element
  apply linked_of_segments _ (linked.remove_segment owner element)
  · exact fun place => (linked.nodup place).sublist (fewer place)
  · exact fun place pair member =>
      linked.allocated place pair ((fewer place).subset member)
  · exact fun one other pair inOne inOther =>
      linked.apart one other pair ((fewer one).subset inOne)
        ((fewer other).subset inOther)

theorem map_eraseP_head (head : Nat → Element) (element : Element)
    (pairs : List Nat) :
    (pairs.eraseP fun pair => decide (head pair = element)).map head =
      (pairs.map head).erase element := by
  induction pairs with
  | nil => rfl
  | cons pair pairs ih =>
      by_cases found : head pair = element
      · simp [found]
      · simp [found, ih]

theorem Store.Linked.items_remove {s : Store Owner Element}
    (linked : s.Linked) (owner : Owner) (element : Element) :
    (s.remove owner element).items =
      Function.update s.items owner ((s.items owner).erase element) := by
  ext1 other
  have heads : (s.remove owner element).head = s.head := rfl
  rw [Store.items, linked.pairs_remove, heads]
  by_cases same : other = owner
  · subst same
    rw [Store.pairsAfterRemove, Function.update_self, Function.update_self,
      map_eraseP_head]
    rfl
  · rw [Store.pairsAfterRemove, Function.update_of_ne same,
      Function.update_of_ne same]
    rfl

/-- Redirecting the pair before an unlinked one shortens every path by at
most the unlinked pair. -/
theorem follow_unlink {tail : Nat → Option Nat} {cursor : Option Nat}
    {path : List Nat} {previous pair : Nat}
    (link : tail previous = some pair)
    (chain : Segment tail cursor path none) (nodup : path.Nodup) :
    ∃ shorter,
      Segment (Function.update tail previous (tail pair)) cursor shorter none ∧
      List.Sublist shorter path ∧ ∀ other ∈ path, other ≠ pair →
        other ∈ shorter := by
  by_cases member : previous ∈ path
  · rcases List.append_of_mem member with ⟨front, back, rfl⟩
    rcases segment_append.mp chain with ⟨middle, -, -, after⟩
    rw [link] at after
    cases back with
    | nil => simp at after
    | cons next back =>
        cases after.1
        refine ⟨front ++ previous :: back, segment_unlink chain nodup, ?_, ?_⟩
        · apply List.Sublist.append (List.Sublist.refl front)
          exact (List.sublist_cons_self pair back).cons_cons previous
        · intro other inside different
          simp only [List.mem_append, List.mem_cons] at inside ⊢
          rcases inside with inside | inside | inside | inside
          · exact Or.inl inside
          · exact Or.inr (Or.inl inside)
          · exact absurd inside different
          · exact Or.inr (Or.inr inside)
  · exact ⟨path, (segment_update_of_notMem member).mpr chain,
      List.Sublist.refl path, fun _ inside _ => inside⟩

/-- A removal does not disturb a loop along the list, wherever it stands. -/
theorem Store.Linked.edited_remove {s : Store Owner Element}
    (linked : s.Linked) (owner : Owner) (element : Element) :
    Edited owner s (s.remove owner element) where
  grows := le_rfl
  head := fun _ _ => rfl
  kept := by
    intro pair member
    rw [linked.pairs_remove] at member
    exact (s.pairsAfterRemove_sublist owner element owner).subset member
  follow := by
    intro cursor path chain nodup allocated
    have pairs := linked.pairs_remove owner element owner
    have removal := linked.remove_cases owner element
    generalize s.remove owner element = after at pairs removal ⊢
    cases removal with
    | missing absent =>
        exact ⟨path, chain, List.Sublist.refl path,
          fun _ member _ => member⟩
    | first pair back split found =>
        exact ⟨path, chain, List.Sublist.refl path,
          fun _ member _ => member⟩
    | later front previous pair back split before found =>
        have here := linked.segment owner
        have distinct := linked.nodup owner
        rw [split] at here distinct
        rcases segment_append.mp here with ⟨middle, -, -, link, -⟩
        rcases follow_unlink link chain nodup with
          ⟨shorter, chain', sublist, covers⟩
        refine ⟨shorter, chain', sublist, ?_⟩
        intro other inside listed
        apply covers other inside
        rintro rfl
        have split' : s.pairs owner =
            (front ++ [previous]) ++ other :: back := by
          rw [split, List.append_assoc, List.singleton_append]
        rw [pairs, Store.pairsAfterRemove_of_split split' before found,
          Function.update_self] at listed
        rw [← List.singleton_append (l := other :: back),
          ← List.append_assoc] at distinct
        exact (List.nodup_middle.mp distinct |> List.nodup_cons.mp).1 listed

end Remove

end OpenDylan.Lib.PairList
