import OpenDylan.GrammarCompiler.CutDerivations

/-!
# What the search for first sets finds

`compute-first-set` finds just what has a derivation without a repeated item,
and it keeps a set only where nothing is to the left of itself, so that what it
keeps is exact.
-/

namespace OpenDylan.GrammarCompiler

variable {Token : Type} [DecidableEq Token]

/-! ## Sets and what they stand for -/

/-- A token derives the empty string, or a string that begins with a
terminal. -/
def Derived (rules : List (UserRule Token)) (token : Token) :
    Option Token → Prop
  | none => Vanishes rules token
  | some terminal => BeginsWith rules terminal token

/-- A search finds the empty string, or a terminal. -/
def Finds (rules : List (UserRule Token)) (known : Token → Prop)
    (visited : List Item) (token : Token) : Option Token → Prop
  | none => VanishesPast rules known visited token
  | some terminal => BeginsPast rules known terminal visited token

/-- A search from an item finds the empty string, or a terminal. -/
def ItemFinds (rules : List (UserRule Token)) (known : Token → Prop)
    (visited : List Item) (index : Nat) (element : Option Token) :
    List Token → Nat → Prop
  | [], _ => element = none
  | term :: terms, position =>
      ⟨index, position⟩ ∉ visited ∧
        (element.isSome = true ∧
            Finds rules known (⟨index, position⟩ :: visited) term element ∨
          VanishesPast rules known (⟨index, position⟩ :: visited) term ∧
            ItemFinds rules known visited index element terms (position + 1))

/-- The sets of the known tokens are there, and all sets are exact and belong
to tokens to the left of which nothing is to the left of itself. -/
structure Sound (rules : List (UserRule Token)) (known : Token → Prop)
    (sets : FirstSets Token) : Prop where
  isSome : ∀ token, known token → (sets token).isSome = true
  exact : ∀ token set, sets token = some set →
    ∀ element, element ∈ set ↔ Derived rules token element
  acyclic : ∀ token set, sets token = some set →
    Acc (LeftOf rules known) token

variable {rules : List (UserRule Token)} {known : Token → Prop}
  {sets : FirstSets Token} {visited : List Item} {token term : Token}
  {rhs terms : List Token} {index position : Nat} {element : Option Token}

theorem Finds.derived (finds : Finds rules known visited token element) :
    Derived rules token element := by
  cases element with
  | none => exact VanishesPast.vanishes finds
  | some terminal => exact BeginsPast.beginsWith finds

theorem finds_iff_of_acc (acc : Acc (LeftOf rules known) token)
    (lead : LeadTo rules known visited token) :
    Finds rules known visited token element ↔ Derived rules token element := by
  constructor
  · exact Finds.derived
  · intro derived
    cases element with
    | none => exact vanishesPast_of_acc acc lead derived
    | some terminal => exact beginsPast_of_acc acc lead derived

theorem not_hasRule_of_terminal (kind : isNonTerminal rules token = false)
    (here : HasRule rules index token rhs) : False := by
  rw [isNonTerminal_of_rule here] at kind
  cases kind

theorem acc_of_terminal (kind : isNonTerminal rules token = false) :
    Acc (LeftOf rules known) token := by
  apply Acc.intro
  rintro other ⟨_, index, rhs, position, here, _⟩
  exact (not_hasRule_of_terminal kind here).elim

theorem derived_terminal_iff (kind : isNonTerminal rules token = false) :
    Derived rules token element ↔ element = some token := by
  cases element with
  | none =>
      constructor
      · intro vanishes
        obtain ⟨index, rhs, here, _⟩ := vanishes_iff.mp vanishes
        exact (not_hasRule_of_terminal kind here).elim
      · intro same
        cases same
  | some terminal =>
      show BeginsWith rules terminal token ↔ _
      rw [beginsWith_iff]
      constructor
      · rintro (both | ⟨index, rhs, position, other, here, _⟩)
        · rw [both.2]
        · exact (not_hasRule_of_terminal kind here).elim
      · intro same
        exact Or.inl ⟨kind, (Option.some.inj same).symm⟩

/-! ## Adding to a set -/

theorem mem_addNew {set : FirstSet Token} {other : Option Token} :
    element ∈ addNew set other ↔ element ∈ set ∨ element = other := by
  unfold addNew
  split
  case isTrue member =>
      constructor
      · exact Or.inl
      · rintro (already | same)
        · exact already
        · rw [same]
          exact member
  case isFalse =>
      rw [List.mem_cons, or_comm]

theorem mem_addTerminals {set initial : FirstSet Token} :
    element ∈ addTerminals set initial ↔
      element ∈ set ∨ element.isSome = true ∧ element ∈ initial := by
  unfold addTerminals
  induction initial generalizing set with
  | nil => simp
  | cons first rest inductionHypothesis =>
      rw [List.foldl_cons, inductionHypothesis]
      cases first with
      | none =>
          cases element with
          | none => simp
          | some terminal => simp
      | some first =>
          show element ∈ addNew set (some first) ∨ _ ↔ _
          rw [mem_addNew, List.mem_cons]
          constructor
          · rintro ((already | same) | later)
            · exact Or.inl already
            · rw [same]
              exact Or.inr ⟨rfl, Or.inl rfl⟩
            · exact Or.inr ⟨later.1, Or.inr later.2⟩
          · rintro (already | ⟨isTerminal, same | later⟩)
            · exact Or.inl (Or.inl already)
            · exact Or.inl (Or.inr same)
            · exact Or.inr ⟨isTerminal, later⟩

/-! ## The first set of a term -/

/-- A first set that is there is what a search would find. -/
theorem Sound.finds (sound : Sound rules known sets) {set : FirstSet Token}
    (here : termFirstSet rules sets term = some set)
    (lead : LeadTo rules known visited term) :
    element ∈ set ↔ Finds rules known visited term element := by
  unfold termFirstSet at here
  cases kind : isNonTerminal rules term with
  | false =>
      rw [kind, if_neg Bool.false_ne_true] at here
      rw [finds_iff_of_acc (acc_of_terminal kind) lead,
        derived_terminal_iff kind, ← Option.some.inj here,
        List.mem_singleton]
  | true =>
      rw [kind, if_pos rfl] at here
      rw [finds_iff_of_acc (sound.acyclic term set here) lead]
      exact sound.exact term set here element

theorem Sound.acc (sound : Sound rules known sets)
    (here : (termFirstSet rules sets term).isSome = true) :
    Acc (LeftOf rules known) term := by
  unfold termFirstSet at here
  cases kind : isNonTerminal rules term with
  | false => exact acc_of_terminal kind
  | true =>
      rw [kind, if_pos rfl] at here
      obtain ⟨set, isSet⟩ := Option.isSome_iff_exists.mp here
      exact sound.acyclic term set isSet

/-- What the recursive calls of a search come to from an item on. -/
def ComputeSpec (rules : List (UserRule Token)) (known : Token → Prop)
    (visited : List Item)
    (compute : FirstSets Token → Token → List Item →
      FirstSet Token × FirstSets Token) : Prop :=
  ∀ sets term item, item ∈ nonEmptyItems rules → item ∉ visited →
    Sound rules known sets → termFirstSet rules sets term = none →
      LeadTo rules known (item :: visited) term →
        Sound rules known (compute sets term (item :: visited)).2 ∧
          ∀ element, element ∈ (compute sets term (item :: visited)).1 ↔
            Finds rules known (item :: visited) term element

variable {compute : FirstSets Token → Token → List Item →
    FirstSet Token × FirstSets Token}

/-- The initial first set of `do-item`, kept or computed. -/
theorem initial_spec (spec : ComputeSpec rules known visited compute)
    (sound : Sound rules known sets) {item : Item}
    (isItem : item ∈ nonEmptyItems rules) (fresh : item ∉ visited)
    (lead : LeadTo rules known (item :: visited) term) :
    ∃ initial after,
      initialFirstSet rules compute sets term (item :: visited) =
          (initial, after) ∧
        Sound rules known after ∧
          ∀ element, element ∈ initial ↔
            Finds rules known (item :: visited) term element := by
  unfold initialFirstSet
  cases here : termFirstSet rules sets term with
  | some set =>
      refine ⟨set, sets, rfl, sound, ?_⟩
      intro element
      exact sound.finds here lead
  | none =>
      obtain ⟨soundAfter, members⟩ :=
        spec sets term item isItem fresh sound here lead
      exact ⟨_, _, rfl, soundAfter, members⟩

omit [DecidableEq Token] in
theorem mem_nonEmptyItems (here : HasRule rules index token rhs)
    (inside : position < rhs.length) :
    ⟨index, position⟩ ∈ nonEmptyItems rules := by
  unfold nonEmptyItems
  apply List.mem_flatMap.mpr
  refine ⟨(⟨token, rhs⟩, index), List.mem_zipIdx_iff_getElem?.mpr here, ?_⟩
  exact List.mem_map.mpr ⟨position, List.mem_range.mpr inside, rfl⟩

/-! ## An item -/

theorem itemFinds_cons :
    ItemFinds rules known visited index element (term :: terms) position ↔
      ⟨index, position⟩ ∉ visited ∧
        (element.isSome = true ∧
            Finds rules known (⟨index, position⟩ :: visited) term element ∨
          VanishesPast rules known (⟨index, position⟩ :: visited) term ∧
            ItemFinds rules known visited index element terms
              (position + 1)) :=
  Iff.rfl

/-- The terms of a rule from a position on that the search must pass to leave
no item out. -/
def Settled (rules : List (UserRule Token)) (known : Token → Prop)
    (rhs : List Token) (position : Nat) : Prop :=
  ∀ later other, position ≤ later → rhs[later]? = some other →
    (∀ another ∈ rhs.take later, Vanishes rules another) →
      Acc (LeftOf rules known) other

/-- What `do-item` comes to, from any term of the rule on. -/
structure ItemResult (rules : List (UserRule Token)) (known : Token → Prop)
    (visited : List Item) (index : Nat) (rhs terms : List Token)
    (position : Nat) (before after : Progress Token) : Prop where
  sound : Sound rules known after.sets
  mem_set : ∀ element, element ∈ after.set ↔
    element ∈ before.set ∨
      ItemFinds rules known visited index element terms position
  complete : after.complete = true →
    before.complete = true ∧ Settled rules known rhs position

theorem take_succ_vanish
    (first : rhs.drop position = term :: terms)
    (vanish : ∀ another ∈ rhs.take position, Vanishes rules another)
    (vanishes : Vanishes rules term) :
    ∀ another ∈ rhs.take (position + 1), Vanishes rules another := by
  have isTerm : rhs[position]? = some term := by
    rw [← List.head?_drop, first]
    rfl
  intro another member
  rw [List.take_add_one, isTerm] at member
  cases List.mem_append.mp member with
  | inl earlier => exact vanish another earlier
  | inr last =>
      rw [List.mem_singleton.mp last]
      exact vanishes

/-- The search past a term that derives the empty string. -/
theorem ItemResult.pass {before middle after : Progress Token}
    {initial : FirstSet Token} {sets : FirstSets Token}
    (isMiddle : middle = {
      set := addTerminals before.set initial
      complete :=
        before.complete && (termFirstSet rules sets term).isSome
      sets := sets })
    (sound : Sound rules known sets) (isTerm : rhs[position]? = some term)
    (fresh : ⟨index, position⟩ ∉ visited)
    (members : ∀ element, element ∈ initial ↔
      Finds rules known (⟨index, position⟩ :: visited) term element)
    (vanishes : none ∈ initial)
    (result : ItemResult rules known visited index rhs terms (position + 1)
      middle after) :
    ItemResult rules known visited index rhs (term :: terms) position before
      after := by
  subst isMiddle
  have past : VanishesPast rules known (⟨index, position⟩ :: visited) term :=
    (members none).mp vanishes
  constructor
  · exact result.sound
  · intro element
    rw [result.mem_set]
    show element ∈ addTerminals before.set initial ∨ _ ↔ _
    rw [mem_addTerminals, members, itemFinds_cons]
    tauto
  · intro complete
    obtain ⟨both, settled⟩ := result.complete complete
    have split := (Bool.and_eq_true _ _).mp both
    refine ⟨split.1, ?_⟩
    intro later other order isOther vanish
    cases Nat.eq_or_lt_of_le order with
    | inl same =>
        subst same
        rw [isTerm] at isOther
        rw [← Option.some.inj isOther]
        exact sound.acc split.2
    | inr further => exact settled later other further isOther vanish

/-- The search stops at a term that does not derive the empty string. -/
theorem ItemResult.stop {before : Progress Token} {initial : FirstSet Token}
    {sets : FirstSets Token} (sound : Sound rules known sets)
    (first : rhs.drop position = term :: terms)
    (fresh : ⟨index, position⟩ ∉ visited)
    (lead : LeadTo rules known (⟨index, position⟩ :: visited) term)
    (members : ∀ element, element ∈ initial ↔
      Finds rules known (⟨index, position⟩ :: visited) term element)
    (solid : none ∉ initial) :
    ItemResult rules known visited index rhs (term :: terms) position before {
      set := addTerminals before.set initial
      complete :=
        before.complete && (termFirstSet rules sets term).isSome
      sets := sets } := by
  have notPast :
      ¬VanishesPast rules known (⟨index, position⟩ :: visited) term :=
    fun past => solid ((members none).mpr past)
  have isTerm : rhs[position]? = some term := by
    rw [← List.head?_drop, first]
    rfl
  constructor
  · exact sound
  · intro element
    show element ∈ addTerminals before.set initial ↔ _
    rw [mem_addTerminals, members, itemFinds_cons]
    tauto
  · intro both
    have split := (Bool.and_eq_true _ _).mp both
    refine ⟨split.1, ?_⟩
    intro later other order isOther vanish
    cases Nat.eq_or_lt_of_le order with
    | inl same =>
        subst same
        rw [isTerm] at isOther
        rw [← Option.some.inj isOther]
        exact sound.acc split.2
    | inr further =>
        have inTake : term ∈ rhs.take later := by
          apply List.mem_iff_getElem?.mpr
          exact ⟨position, by rw [List.getElem?_take, if_pos further, isTerm]⟩
        exact absurd (vanishesPast_of_acc (sound.acc split.2) lead
          (vanish term inTake)) notPast

theorem doItem_spec (spec : ComputeSpec rules known visited compute)
    (here : HasRule rules index token rhs) (unknown : ¬known token)
    (lead : LeadTo rules known visited token) {before : Progress Token}
    (sound : Sound rules known before.sets)
    (first : rhs.drop position = terms)
    (vanish : ∀ another ∈ rhs.take position, Vanishes rules another) :
    ItemResult rules known visited index rhs terms position before
      (doItem rules compute visited index terms position before) := by
  induction terms generalizing position before with
  | nil =>
      constructor
      · exact sound
      · intro element
        exact mem_addNew
      · intro complete
        refine ⟨complete, ?_⟩
        intro later other order isOther
        obtain ⟨inside, _⟩ := List.getElem?_eq_some_iff.mp isOther
        have ended := List.drop_eq_nil_iff.mp first
        omega
  | cons term terms inductionHypothesis =>
      have isTerm : rhs[position]? = some term := by
        rw [← List.head?_drop, first]
        rfl
      obtain ⟨inside, _⟩ := List.getElem?_eq_some_iff.mp isTerm
      have isItem := mem_nonEmptyItems here inside
      have isLeft := leftOf_of_vanish unknown here isTerm vanish
      by_cases member : ⟨index, position⟩ ∈ visited
      · unfold doItem
        rw [if_pos member]
        constructor
        · exact sound
        · intro element
          rw [itemFinds_cons]
          constructor
          · exact Or.inl
          · rintro (already | finds)
            · exact already
            · exact absurd member finds.1
        · intro complete
          cases complete
      · have leadTerm : LeadTo rules known (⟨index, position⟩ :: visited)
            term := lead.cons here isLeft
        obtain ⟨initial, after, isInitial, soundAfter, members⟩ :=
          initial_spec spec sound isItem member leadTerm
        unfold doItem
        rw [if_neg member, isInitial]
        by_cases vanishes : none ∈ initial
        · show ItemResult _ _ _ _ _ _ _ _ (if none ∈ initial then _ else _)
          rw [if_pos vanishes]
          have next : rhs.drop (position + 1) = terms := by
            rw [← List.drop_drop, first]
            rfl
          have further := take_succ_vanish first vanish
            (VanishesPast.vanishes ((members none).mp vanishes))
          exact ItemResult.pass rfl soundAfter isTerm member members vanishes
            (inductionHypothesis soundAfter next further)
        · show ItemResult _ _ _ _ _ _ _ _ (if none ∈ initial then _ else _)
          rw [if_neg vanishes]
          exact ItemResult.stop soundAfter first member leadTerm members
            vanishes

/-! ## A nonterminal -/

theorem mem_nontRules :
    (index, rhs) ∈ nontRules rules token ↔ HasRule rules index token rhs := by
  unfold nontRules HasRule
  rw [List.mem_reverse, List.mem_map]
  constructor
  · rintro ⟨⟨⟨lhs, terms⟩, position⟩, member, same⟩
    obtain ⟨inside, isToken⟩ := List.mem_filter.mp member
    have isLhs : lhs = token := of_decide_eq_true isToken
    subst isLhs
    cases same
    exact List.mem_zipIdx_iff_getElem?.mp inside
  · intro here
    refine ⟨(⟨token, rhs⟩, index), List.mem_filter.mpr ⟨?_, ?_⟩, rfl⟩
    · exact List.mem_zipIdx_iff_getElem?.mpr here
    · exact decide_eq_true rfl

/-- For the empty string a search passes all terms of a rule. -/
theorem itemFinds_none_iff :
    ItemFinds rules known visited index none terms position ↔
      (∀ offset < terms.length, ⟨index, position + offset⟩ ∉ visited) ∧
        ∀ offset other, terms[offset]? = some other →
          VanishesPast rules known (⟨index, position + offset⟩ :: visited)
            other := by
  induction terms generalizing position with
  | nil =>
      constructor
      · intro _
        constructor
        · intro offset inside
          exact absurd inside (Nat.not_lt_zero offset)
        · intro offset other isOther
          cases isOther
      · intro _
        rfl
  | cons term terms inductionHypothesis =>
      rw [itemFinds_cons, inductionHypothesis]
      constructor
      · rintro ⟨fresh, ⟨isTerminal, _⟩ | ⟨past, freshLater, pastLater⟩⟩
        · cases isTerminal
        · constructor
          · intro offset inside
            cases offset with
            | zero => exact fresh
            | succ offset =>
                have later := freshLater offset (Nat.lt_of_succ_lt_succ inside)
                rw [Nat.add_right_comm] at later
                exact later
          · intro offset other isOther
            cases offset with
            | zero =>
                rw [← Option.some.inj isOther]
                exact past
            | succ offset =>
                have later := pastLater offset other isOther
                rw [Nat.add_right_comm] at later
                exact later
      · rintro ⟨fresh, past⟩
        refine ⟨fresh 0 (Nat.succ_pos _), Or.inr ⟨past 0 term rfl, ?_, ?_⟩⟩
        · intro offset inside
          rw [Nat.add_right_comm]
          exact fresh (offset + 1) (Nat.succ_lt_succ inside)
        · intro offset other isOther
          rw [Nat.add_right_comm]
          exact past (offset + 1) other isOther

/-- For a terminal a search passes the terms before one that it is found
at. -/
theorem itemFinds_some_iff {terminal : Token} :
    ItemFinds rules known visited index (some terminal) terms position ↔
      ∃ offset other, terms[offset]? = some other ∧
        (∀ earlier ≤ offset, ⟨index, position + earlier⟩ ∉ visited) ∧
          (∀ earlier another, earlier < offset →
            terms[earlier]? = some another →
              VanishesPast rules known
                (⟨index, position + earlier⟩ :: visited) another) ∧
            BeginsPast rules known terminal
              (⟨index, position + offset⟩ :: visited) other := by
  induction terms generalizing position with
  | nil =>
      constructor
      · intro same
        cases same
      · rintro ⟨offset, other, isOther, _⟩
        cases isOther
  | cons term terms inductionHypothesis =>
      rw [itemFinds_cons, inductionHypothesis]
      constructor
      · rintro ⟨fresh, ⟨_, begins⟩ | ⟨past, offset, other, isOther,
          freshLater, pastLater, begins⟩⟩
        · refine ⟨0, term, rfl, ?_, ?_, begins⟩
          · intro earlier order
            rw [Nat.le_zero.mp order]
            exact fresh
          · intro earlier another before
            exact absurd before (Nat.not_lt_zero earlier)
        · refine ⟨offset + 1, other, isOther, ?_, ?_, ?_⟩
          · intro earlier order
            cases earlier with
            | zero => exact fresh
            | succ earlier =>
                have later := freshLater earlier (Nat.le_of_succ_le_succ order)
                rw [Nat.add_right_comm] at later
                exact later
          · intro earlier another before isAnother
            cases earlier with
            | zero =>
                rw [← Option.some.inj isAnother]
                exact past
            | succ earlier =>
                have later := pastLater earlier another
                  (Nat.lt_of_succ_lt_succ before) isAnother
                rw [Nat.add_right_comm] at later
                exact later
          · rw [Nat.add_right_comm] at begins
            exact begins
      · rintro ⟨offset, other, isOther, fresh, past, begins⟩
        refine ⟨fresh 0 (Nat.zero_le _), ?_⟩
        cases offset with
        | zero =>
            rw [← Option.some.inj isOther] at begins
            exact Or.inl ⟨rfl, begins⟩
        | succ offset =>
            refine Or.inr ⟨past 0 term (Nat.succ_pos _) rfl, offset, other,
              isOther, ?_, ?_, ?_⟩
            · intro earlier order
              rw [Nat.add_right_comm]
              exact fresh (earlier + 1) (Nat.succ_le_succ order)
            · intro earlier another before isAnother
              rw [Nat.add_right_comm]
              exact past (earlier + 1) another (Nat.succ_lt_succ before)
                isAnother
            · rw [Nat.add_right_comm]
              exact begins

/-- What a search finds for an unknown nonterminal it finds from the first item
of one of its rules. -/
theorem finds_iff_items (unknown : ¬known token)
    (kind : isNonTerminal rules token = true) :
    Finds rules known visited token element ↔
      ∃ index rhs, HasRule rules index token rhs ∧
        ItemFinds rules known visited index element rhs 0 := by
  cases element with
  | none =>
      constructor
      · intro past
        cases past with
        | known isKnown => exact absurd isKnown unknown
        | @rule _ _ index rhs _ here fresh outputs =>
            refine ⟨index, rhs, here, itemFinds_none_iff.mpr ⟨?_, ?_⟩⟩
            · intro offset inside
              rw [Nat.zero_add]
              exact fresh offset inside
            · intro offset other isOther
              rw [Nat.zero_add]
              exact outputs offset other isOther
      · rintro ⟨index, rhs, here, finds⟩
        obtain ⟨fresh, outputs⟩ := itemFinds_none_iff.mp finds
        simp only [Nat.zero_add] at fresh outputs
        exact VanishesPast.rule unknown here fresh outputs
  | some terminal =>
      constructor
      · intro past
        cases past with
        | terminal notKind =>
            rw [kind] at notKind
            cases notKind
        | known isKnown => exact absurd isKnown unknown
        | @rule _ _ other index position rhs _ here isOther fresh vanish
            begins =>
            refine ⟨index, rhs, here, itemFinds_some_iff.mpr
              ⟨position, other, isOther, ?_, ?_, ?_⟩⟩
            · intro earlier order
              rw [Nat.zero_add]
              exact fresh earlier order
            · intro earlier another before isAnother
              rw [Nat.zero_add]
              exact vanish earlier another before isAnother
            · rw [Nat.zero_add]
              exact begins
      · rintro ⟨index, rhs, here, finds⟩
        obtain ⟨position, other, isOther, fresh, vanish, begins⟩ :=
          itemFinds_some_iff.mp finds
        simp only [Nat.zero_add] at fresh vanish begins
        exact BeginsPast.rule unknown here isOther fresh vanish begins

theorem Sound.setFirstSet (sound : Sound rules known sets)
    {set : FirstSet Token}
    (exact : ∀ element, element ∈ set ↔ Derived rules token element)
    (acyclic : Acc (LeftOf rules known) token) :
    Sound rules known (setFirstSet sets token set) := by
  unfold GrammarCompiler.setFirstSet
  constructor
  · intro other isKnown
    rw [Function.update_apply]
    split
    · rfl
    · exact sound.isSome other isKnown
  · intro other otherSet here
    rw [Function.update_apply] at here
    split at here
    case isTrue same =>
        rw [same, ← Option.some.inj here]
        exact exact
    case isFalse => exact sound.exact other otherSet here
  · intro other otherSet here
    rw [Function.update_apply] at here
    split at here
    case isTrue same =>
        rw [same]
        exact acyclic
    case isFalse => exact sound.acyclic other otherSet here

/-- The search through rules of a nonterminal, one after the other. -/
theorem foldl_doItem_spec (spec : ComputeSpec rules known visited compute)
    (unknown : ¬known token) (lead : LeadTo rules known visited token)
    {entries : List (Nat × List Token)}
    (each : ∀ entry ∈ entries, HasRule rules entry.1 token entry.2)
    {before after : Progress Token} (sound : Sound rules known before.sets)
    (isAfter : entries.foldl
      (fun progress entry =>
        doItem rules compute visited entry.1 entry.2 0 progress)
      before = after) :
    Sound rules known after.sets ∧
      (∀ element, element ∈ after.set ↔ element ∈ before.set ∨
        ∃ entry ∈ entries,
          ItemFinds rules known visited entry.1 element entry.2 0) ∧
        (after.complete = true → before.complete = true ∧
          ∀ entry ∈ entries, Settled rules known entry.2 0) := by
  induction entries generalizing before with
  | nil =>
      rw [List.foldl_nil] at isAfter
      subst isAfter
      refine ⟨sound, ?_, ?_⟩
      · intro element
        simp
      · intro complete
        refine ⟨complete, ?_⟩
        intro entry member
        cases member
  | cons first rest inductionHypothesis =>
      rw [List.foldl_cons] at isAfter
      have both := List.forall_mem_cons.mp each
      have step := doItem_spec spec both.1 unknown lead sound
        (List.drop_zero) (by
          intro another member
          rw [List.take_zero] at member
          cases member)
      obtain ⟨soundAfter, members, complete⟩ :=
        inductionHypothesis both.2 step.sound isAfter
      refine ⟨soundAfter, ?_, ?_⟩
      · intro element
        rw [members, step.mem_set, List.exists_mem_cons_iff, or_assoc]
      · intro isComplete
        obtain ⟨middle, later⟩ := complete isComplete
        obtain ⟨start, here⟩ := step.complete middle
        exact ⟨start, List.forall_mem_cons.mpr ⟨here, later⟩⟩

/-- The items that a search has not visited. -/
def unvisited (rules : List (UserRule Token)) (visited : List Item) :
    Finset Item :=
  (nonEmptyItems rules).toFinset \ visited.toFinset

omit [DecidableEq Token] in
theorem card_unvisited_cons {item : Item}
    (isItem : item ∈ nonEmptyItems rules) (fresh : item ∉ visited) :
    (unvisited rules (item :: visited)).card <
      (unvisited rules visited).card := by
  apply Finset.card_lt_card
  rw [Finset.ssubset_iff_of_subset]
  · refine ⟨item, ?_, ?_⟩
    · simp [unvisited, isItem, fresh]
    · simp [unvisited]
  · intro other member
    simp only [unvisited, Finset.mem_sdiff, List.mem_toFinset,
      List.mem_cons, not_or] at member ⊢
    exact ⟨member.1, member.2.2⟩

theorem unknown_of_none (sound : Sound rules known sets)
    (missing : termFirstSet rules sets term = none) :
    ¬known term ∧ isNonTerminal rules term = true := by
  unfold termFirstSet at missing
  cases kind : isNonTerminal rules term with
  | false =>
      rw [kind, if_neg Bool.false_ne_true] at missing
      cases missing
  | true =>
      rw [kind, if_pos rfl] at missing
      refine ⟨?_, rfl⟩
      intro isKnown
      have there := sound.isSome term isKnown
      rw [missing] at there
      cases there

/-- A search that is deep enough finds what has a derivation without a repeated
item, and the sets stay sound. -/
theorem computeFirstSet_spec {depth : Nat}
    (deep : (unvisited rules visited).card < depth)
    (sound : Sound rules known sets) (unknown : ¬known token)
    (kind : isNonTerminal rules token = true)
    (lead : LeadTo rules known visited token) :
    Sound rules known (computeFirstSet rules depth sets token visited).2 ∧
      ∀ element,
        element ∈ (computeFirstSet rules depth sets token visited).1 ↔
          Finds rules known visited token element := by
  induction depth generalizing sets token visited with
  | zero => exact absurd deep (Nat.not_lt_zero _)
  | succ depth inductionHypothesis =>
      have spec : ComputeSpec rules known visited
          (computeFirstSet rules depth) := by
        intro sets term item isItem fresh sound missing lead
        have both := unknown_of_none sound missing
        apply inductionHypothesis _ sound both.1 both.2 lead
        have fewer := card_unvisited_cons isItem fresh
        omega
      unfold computeFirstSet
      generalize isAfter : (nontRules rules token).foldl
        (fun progress entry =>
          doItem rules (computeFirstSet rules depth) visited entry.1 entry.2 0
            progress)
        { set := [], complete := true, sets := sets } = after
      obtain ⟨soundAfter, members, complete⟩ := foldl_doItem_spec spec unknown
        lead (fun entry member => mem_nontRules.mp member) sound isAfter
      have finds : ∀ element, element ∈ after.set ↔
          Finds rules known visited token element := by
        intro element
        rw [members, finds_iff_items unknown kind]
        constructor
        · rintro (none | ⟨⟨index, rhs⟩, member, found⟩)
          · cases none
          · exact ⟨index, rhs, mem_nontRules.mp member, found⟩
        · rintro ⟨index, rhs, here, found⟩
          exact Or.inr ⟨(index, rhs), mem_nontRules.mpr here, found⟩
      refine ⟨?_, finds⟩
      show Sound rules known (if after.complete = true then _ else _)
      by_cases isComplete : after.complete = true
      · rw [if_pos isComplete]
        have acyclic : Acc (LeftOf rules known) token := by
          apply Acc.intro
          rintro other ⟨_, index, rhs, position, here, isOther, vanish⟩
          exact (complete isComplete).2 (index, rhs) (mem_nontRules.mpr here)
            position other (Nat.zero_le _) isOther vanish
        apply soundAfter.setFirstSet _ acyclic
        intro element
        rw [finds, finds_iff_of_acc acyclic lead]
      · rw [if_neg isComplete]
        exact soundAfter

/-! ## Sets that are there stay -/

/-- A set that is there stays. -/
def Extends (before after : FirstSets Token) : Prop :=
  ∀ token set, before token = some set → after token = some set

omit [DecidableEq Token] in
theorem Extends.refl (sets : FirstSets Token) : Extends sets sets :=
  fun _ _ here => here

omit [DecidableEq Token] in
theorem Extends.trans {first second third : FirstSets Token}
    (before : Extends first second) (after : Extends second third) :
    Extends first third :=
  fun token set here => after token set (before token set here)

theorem Extends.setFirstSet {before after : FirstSets Token}
    (earlier : Extends before after) (missing : before token = none)
    (set : FirstSet Token) :
    Extends before (setFirstSet after token set) := by
  intro other otherSet here
  unfold GrammarCompiler.setFirstSet
  rw [Function.update_apply]
  split
  case isTrue same =>
      rw [same, missing] at here
      cases here
  case isFalse => exact earlier other otherSet here

theorem doItem_extends
    (keeps : ∀ sets term visited, termFirstSet rules sets term = none →
      Extends sets (compute sets term visited).2)
    (before : Progress Token) :
    Extends before.sets
      (doItem rules compute visited index terms position before).sets := by
  induction terms generalizing position before with
  | nil => exact Extends.refl _
  | cons term terms inductionHypothesis =>
      have initial : Extends before.sets (initialFirstSet rules compute
          before.sets term (⟨index, position⟩ :: visited)).2 := by
        unfold initialFirstSet
        cases here : termFirstSet rules before.sets term with
        | some set => exact Extends.refl _
        | none => exact keeps _ _ _ here
      unfold doItem
      split
      case isTrue => exact Extends.refl _
      case isFalse =>
          split
          rename_i result
          rw [result] at initial
          split
          case isTrue =>
              apply initial.trans
              exact inductionHypothesis ⟨_, _, _⟩
          case isFalse => exact initial

theorem computeFirstSet_extends {depth : Nat}
    (missing : termFirstSet rules sets token = none) :
    Extends sets (computeFirstSet rules depth sets token visited).2 := by
  induction depth generalizing sets token visited with
  | zero => exact Extends.refl _
  | succ depth inductionHypothesis =>
      have all : ∀ entries : List (Nat × List Token),
          ∀ before : Progress Token,
            Extends before.sets (entries.foldl
              (fun progress entry =>
                doItem rules (computeFirstSet rules depth) visited entry.1
                  entry.2 0 progress)
              before).sets := by
        intro entries
        induction entries with
        | nil => exact fun before => Extends.refl _
        | cons first rest others =>
            intro before
            have step := @doItem_extends Token _ rules visited first.2
              first.1 0 (computeFirstSet rules depth)
              (fun sets term visited none => inductionHypothesis none) before
            exact step.trans (others _)
      have notThere : sets token = none := by
        unfold termFirstSet at missing
        split at missing
        · exact missing
        · cases missing
      have search := all (nontRules rules token)
        { set := [], complete := true, sets := sets }
      unfold computeFirstSet
      show Extends sets (if _ then _ else _)
      split
      · exact search.setFirstSet notThere _
      · exact search

end OpenDylan.GrammarCompiler
