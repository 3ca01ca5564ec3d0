import OpenDylan.GrammarCompiler.FirstSetSearch

/-!
# Exactness of the first sets

The sets that `setup-first-sets` leaves are exact just for the grammars in
which each first terminal of a nonterminal has a derivation without a repeated
item, where the nonterminals before it in the grammar may be derived in any
way.  The first sets of items are then exact as well.
-/

namespace OpenDylan.GrammarCompiler

open Lib.Grammar

variable {Token : Type} [DecidableEq Token]

/-! ## First sets of strings -/

/-- A set is the first set of a string of tokens. -/
def IsFirstSet (rules : List (UserRule Token)) (string : List Token)
    (set : FirstSet Token) : Prop :=
  (∀ terminal, some terminal ∈ set ↔ ∃ rest,
    (contextFree rules).Derives (string.map (toSymbol rules))
      (.terminal terminal :: rest)) ∧
    (none ∈ set ↔
      (contextFree rules).Derives (string.map (toSymbol rules)) [])

/-- A string derives the empty string, or one that begins with a terminal. -/
def DerivedString (rules : List (UserRule Token)) :
    List Token → Option Token → Prop
  | [], element => element = none
  | token :: string, element =>
      element.isSome = true ∧ Derived rules token element ∨
        Vanishes rules token ∧ DerivedString rules string element

variable {rules : List (UserRule Token)} {token terminal : Token}
  {string : List Token} {element : Option Token} {set : FirstSet Token}

theorem derivedString_none_iff :
    DerivedString rules string none ↔
      NullableString (contextFree rules) (string.map (toSymbol rules)) := by
  induction string with
  | nil =>
      constructor
      · intro _ symbol member
        cases member
      · exact fun _ => rfl
  | cons token string inductionHypothesis =>
      show (false = true ∧ _ ∨ Vanishes rules token ∧ _) ↔
        NullableString (contextFree rules)
          (toSymbol rules token :: string.map (toSymbol rules))
      rw [inductionHypothesis]
      unfold NullableString
      rw [List.forall_mem_cons]
      constructor
      · rintro (both | both)
        · cases both.1
        · exact both
      · exact Or.inr

theorem derivedString_some_iff :
    DerivedString rules string (some terminal) ↔
      BeginsString (contextFree rules) terminal
        (string.map (toSymbol rules)) := by
  induction string with
  | nil =>
      constructor
      · intro same
        cases same
      · exact fun begins => absurd begins beginsString_nil
  | cons token string inductionHypothesis =>
      rw [List.map_cons, beginsString_cons, ← inductionHypothesis]
      show (true = true ∧ BeginsWith rules terminal token ∨
        Vanishes rules token ∧ _) ↔ _
      rw [eq_self_iff_true, true_and]
      exact Iff.rfl

theorem isFirstSet_iff :
    IsFirstSet rules string set ↔
      ∀ element, element ∈ set ↔ DerivedString rules string element := by
  unfold IsFirstSet
  constructor
  · rintro ⟨terminals, empty⟩ element
    cases element with
    | none => rw [empty, derives_nil_iff, derivedString_none_iff]
    | some terminal =>
        rw [terminals, derives_terminal_iff, derivedString_some_iff]
  · intro members
    constructor
    · intro terminal
      rw [members, derives_terminal_iff, derivedString_some_iff]
    · rw [members, derives_nil_iff, derivedString_none_iff]

theorem derivedString_singleton :
    DerivedString rules [token] element ↔ Derived rules token element := by
  show (element.isSome = true ∧ _ ∨ _ ∧ element = none) ↔ _
  cases element with
  | none =>
      constructor
      · rintro (both | both)
        · cases both.1
        · exact both.1
      · exact fun vanishes => Or.inr ⟨vanishes, rfl⟩
  | some terminal =>
      constructor
      · rintro (both | both)
        · exact both.2
        · cases both.2
      · exact fun begins => Or.inl ⟨rfl, begins⟩

/-! ## Nonterminals in order -/

/-- Each first terminal of a nonterminal has a derivation in which no item is
below itself, but for what is below the nonterminals that come before it in the
grammar. -/
def Unrepeated (rules : List (UserRule Token)) : Prop :=
  ∀ before token after, nonTerminals rules = before ++ token :: after →
    ∀ terminal, BeginsWith rules terminal token →
      BeginsPast rules (· ∈ before) terminal [] token

theorem mem_nonTerminals :
    token ∈ nonTerminals rules ↔ isNonTerminal rules token = true := by
  have all : ∀ (rules : List (UserRule Token)) (found : List Token),
      token ∈ rules.foldl
          (fun found rule =>
            if rule.lhs ∈ found then found else found ++ [rule.lhs])
          found ↔
        token ∈ found ∨ ∃ rule ∈ rules, rule.lhs = token := by
    intro rules
    induction rules with
    | nil => simp
    | cons first rest inductionHypothesis =>
        intro found
        rw [List.foldl_cons, inductionHypothesis, List.exists_mem_cons_iff,
          ← or_assoc]
        apply or_congr_left
        split
        case isTrue member =>
            constructor
            · exact Or.inl
            · rintro (already | same)
              · exact already
              · rw [← same]
                exact member
        case isFalse =>
            rw [List.mem_append, List.mem_singleton]
            exact or_congr_right eq_comm
  unfold nonTerminals isNonTerminal
  rw [all, List.any_eq_true]
  simp

theorem LeftOf.mono {known more : Token → Prop}
    (weaker : ∀ token, known token → more token) {other : Token}
    (isLeft : LeftOf rules more other token) :
    LeftOf rules known other token :=
  ⟨fun isKnown => isLeft.1 (weaker token isKnown), isLeft.2⟩

theorem acc_mono {known more : Token → Prop}
    (weaker : ∀ token, known token → more token)
    (acc : Acc (LeftOf rules known) token) :
    Acc (LeftOf rules more) token := by
  apply Subrelation.accessible _ acc
  intro other token isLeft
  exact isLeft.mono weaker

theorem acc_of_known {known : Token → Prop} (isKnown : known token) :
    Acc (LeftOf rules known) token := by
  apply Acc.intro
  intro other isLeft
  exact absurd isKnown isLeft.1

variable {sets : FirstSets Token} {before : List Token}

omit [DecidableEq Token] in
theorem mem_append_of_mem (token : Token) :
    ∀ other, other ∈ before → other ∈ before ++ [token] :=
  fun _ member => List.mem_append_left [token] member

/-- What `setup-first-sets` does for a nonterminal: the set is exact just when
each first terminal has a derivation without a repeated item. -/
theorem setupFirstSet_spec (sound : Sound rules (· ∈ before) sets)
    (kind : isNonTerminal rules token = true) :
    ∃ set, setupFirstSet rules sets token token = some set ∧
      ((∀ element, element ∈ set ↔ Derived rules token element) ↔
        ∀ terminal, BeginsWith rules terminal token →
          BeginsPast rules (· ∈ before) terminal [] token) ∧
        ((∀ element, element ∈ set ↔ Derived rules token element) →
          Sound rules (· ∈ before ++ [token])
            (setupFirstSet rules sets token)) := by
  unfold setupFirstSet
  cases here : sets token with
  | some set =>
      refine ⟨set, here, ?_, ?_⟩
      · apply iff_of_true (sound.exact token set here)
        intro terminal
        exact beginsPast_of_acc (sound.acyclic token set here) leadTo_nil
      · intro _
        constructor
        · intro other member
          cases List.mem_append.mp member with
          | inl earlier => exact sound.isSome other earlier
          | inr last =>
              show (sets other).isSome = true
              rw [List.mem_singleton.mp last, here]
              rfl
        · exact sound.exact
        · intro other otherSet isSet
          exact acc_mono (mem_append_of_mem token)
            (sound.acyclic other otherSet isSet)
  | none =>
      have missing : termFirstSet rules sets token = none := by
        unfold termFirstSet
        rw [kind, if_pos rfl, here]
      have unknown := (unknown_of_none sound missing).1
      have deep : (unvisited rules []).card < depth rules := by
        have most := List.toFinset_card_le (nonEmptyItems rules)
        have fewer : (unvisited rules []).card ≤
            (nonEmptyItems rules).toFinset.card :=
          Finset.card_le_card Finset.sdiff_subset
        show _ < (nonEmptyItems rules).length + 1
        omega
      obtain ⟨soundAfter, members⟩ :=
        computeFirstSet_spec deep sound unknown kind leadTo_nil
      refine ⟨(computeFirstSet rules (depth rules) sets token []).1, ?_, ?_,
        ?_⟩
      · exact Function.update_self token _ _
      · constructor
        · intro exact terminal begins
          exact (members (some terminal)).mp ((exact (some terminal)).mpr
            begins)
        · intro past element
          rw [members]
          cases element with
          | none => exact vanishesPast_nil_iff
          | some terminal => exact ⟨BeginsPast.beginsWith, past terminal⟩
      · intro exact
        show Sound rules (· ∈ before ++ [token]) (setFirstSet _ token _)
        unfold setFirstSet
        constructor
        · intro other member
          rw [Function.update_apply]
          split
          case isTrue => rfl
          case isFalse different =>
              cases List.mem_append.mp member with
              | inl earlier => exact soundAfter.isSome other earlier
              | inr last =>
                  exact absurd (List.mem_singleton.mp last) different
        · intro other otherSet isSet
          rw [Function.update_apply] at isSet
          split at isSet
          case isTrue same =>
              rw [same, ← Option.some.inj isSet]
              exact exact
          case isFalse => exact soundAfter.exact other otherSet isSet
        · intro other otherSet isSet
          rw [Function.update_apply] at isSet
          split at isSet
          case isTrue same =>
              rw [same]
              exact acc_of_known (List.mem_append_right before
                (List.mem_singleton_self token))
          case isFalse =>
              exact acc_mono (mem_append_of_mem token)
                (soundAfter.acyclic other otherSet isSet)

theorem setupFirstSet_extends (kind : isNonTerminal rules token = true) :
    Extends sets (setupFirstSet rules sets token) := by
  unfold setupFirstSet
  cases here : sets token with
  | some set => exact Extends.refl sets
  | none =>
      have missing : termFirstSet rules sets token = none := by
        unfold termFirstSet
        rw [kind, if_pos rfl, here]
      have search : Extends sets
          (computeFirstSet rules (depth rules) sets token []).2 :=
        computeFirstSet_extends missing
      exact search.setFirstSet here _

theorem foldl_setupFirstSet_extends {tokens : List Token}
    (kinds : ∀ token ∈ tokens, isNonTerminal rules token = true) :
    Extends sets (tokens.foldl (setupFirstSet rules) sets) := by
  induction tokens generalizing sets with
  | nil => exact Extends.refl sets
  | cons token tokens inductionHypothesis =>
      have both := List.forall_mem_cons.mp kinds
      rw [List.foldl_cons]
      exact (setupFirstSet_extends both.1).trans (inductionHypothesis both.2)

/-- The sets after some of the nonterminals. -/
def setsAfter (rules : List (UserRule Token)) (before : List Token) :
    FirstSets Token :=
  before.foldl (setupFirstSet rules) fun _ => none

theorem setsAfter_concat :
    setsAfter rules (before ++ [token]) =
      setupFirstSet rules (setsAfter rules before) token := by
  unfold setsAfter
  rw [List.foldl_append]
  rfl

theorem sound_nil :
    Sound rules (· ∈ ([] : List Token)) (setsAfter rules []) := by
  constructor
  · intro token member
    cases member
  · intro token set here
    cases here
  · intro token set here
    cases here

theorem kind_of_split {after : List Token}
    (whole : nonTerminals rules = before ++ token :: after) :
    isNonTerminal rules token = true := by
  apply mem_nonTerminals.mp
  rw [whole]
  exact List.mem_append_right before List.mem_cons_self

/-- As long as the sets come out exact they stay sound. -/
theorem sound_setsAfter
    (exact : ∀ before token after,
      nonTerminals rules = before ++ token :: after →
        Sound rules (· ∈ before) (setsAfter rules before) →
          ∀ set, setsAfter rules (before ++ [token]) token = some set →
            ∀ element, element ∈ set ↔ Derived rules token element)
    (before after : List Token)
    (whole : nonTerminals rules = before ++ after) :
    Sound rules (· ∈ before) (setsAfter rules before) := by
  induction before using List.reverseRecOn generalizing after with
  | nil => exact sound_nil
  | append_singleton before token inductionHypothesis =>
      rw [List.append_assoc, List.singleton_append] at whole
      have sound := inductionHypothesis (token :: after) whole
      obtain ⟨set, here, _, further⟩ :=
        setupFirstSet_spec sound (kind_of_split whole)
      rw [setsAfter_concat]
      apply further
      apply exact before token after whole sound set
      rw [setsAfter_concat]
      exact here

/-- The sets of all nonterminals are exact just when each first terminal has a
derivation without a repeated item. -/
theorem setupFirstSets_exact_iff :
    (∀ token, isNonTerminal rules token = true → ∃ set,
      setupFirstSets rules token = some set ∧
        ∀ element, element ∈ set ↔ Derived rules token element) ↔
      Unrepeated rules := by
  constructor
  · intro exact before token after whole
    have kind := kind_of_split whole
    have later : ∀ before token after,
        nonTerminals rules = before ++ token :: after →
          ∀ set, setsAfter rules (before ++ [token]) token = some set →
            ∀ element, element ∈ set ↔ Derived rules token element := by
      intro before token after whole set here
      obtain ⟨final, isFinal, members⟩ := exact token (kind_of_split whole)
      have rest : setupFirstSets rules = after.foldl (setupFirstSet rules)
          (setsAfter rules (before ++ [token])) := by
        unfold setupFirstSets setsAfter
        rw [whole, ← List.foldl_append, List.append_assoc]
        rfl
      have stays : Extends (setsAfter rules (before ++ [token]))
          (setupFirstSets rules) := by
        rw [rest]
        apply foldl_setupFirstSet_extends
        intro other member
        apply mem_nonTerminals.mp
        rw [whole]
        exact List.mem_append_right before (List.mem_cons_of_mem token member)
      have same := stays token set here
      rw [isFinal] at same
      rw [← Option.some.inj same]
      exact members
    have sound := sound_setsAfter
      (fun before token after whole _ => later before token after whole)
      before (token :: after) whole
    obtain ⟨set, here, exactIff, _⟩ := setupFirstSet_spec sound kind
    rw [← setsAfter_concat] at here
    exact exactIff.mp (later before token after whole set here)
  · intro unrepeated token kind
    have sound := sound_setsAfter
      (by
        intro before token after whole sound set here
        obtain ⟨other, isOther, exactIff, _⟩ :=
          setupFirstSet_spec sound (kind_of_split whole)
        rw [setsAfter_concat, isOther] at here
        rw [← Option.some.inj here]
        exact exactIff.mpr (unrepeated before token after whole))
      (nonTerminals rules) [] (List.append_nil _).symm
    have member := mem_nonTerminals.mpr kind
    obtain ⟨set, here⟩ := Option.isSome_iff_exists.mp
      (sound.isSome token member)
    exact ⟨set, here, sound.exact token set here⟩

/-! ## Items -/

/-- The terms of the rule of an item from the item on. -/
def termsFrom (rules : List (UserRule Token)) (item : Item) : List Token :=
  match rules[item.rule]? with
  | some rule => rule.rhs.drop item.position
  | none => []

/-- The first sets that the items have are exact. -/
def SlotsExact (rules : List (UserRule Token)) (slots : ItemFirstSets Token) :
    Prop :=
  ∀ item set, slots item = some set →
    ∀ element, element ∈ set ↔ DerivedString rules (termsFrom rules item)
      element

theorem mem_combineFirstSets {alpha beta : FirstSet Token}
    (empty : none ∈ alpha) :
    element ∈ combineFirstSets alpha beta ↔
      element.isSome = true ∧ element ∈ alpha ∨ element ∈ beta := by
  have all : ∀ alpha result : FirstSet Token,
      element ∈ alpha.foldl
          (fun result element =>
            if element.isSome ∧ element ∉ beta then element :: result
            else result)
          result ↔
        (element.isSome = true ∧ element ∈ alpha ∧ element ∉ beta) ∨
          element ∈ result := by
    intro alpha
    induction alpha with
    | nil => simp
    | cons first rest inductionHypothesis =>
        intro result
        rw [List.foldl_cons, inductionHypothesis, List.mem_cons]
        by_cases added : first.isSome = true ∧ first ∉ beta
        · rw [if_pos added, List.mem_cons]
          constructor
          · rintro (later | same | already)
            · exact Or.inl ⟨later.1, Or.inr later.2.1, later.2.2⟩
            · rw [same]
              exact Or.inl ⟨added.1, Or.inl rfl, added.2⟩
            · exact Or.inr already
          · rintro (⟨isTerminal, same | later, fresh⟩ | already)
            · exact Or.inr (Or.inl same)
            · exact Or.inl ⟨isTerminal, later, fresh⟩
            · exact Or.inr (Or.inr already)
        · rw [if_neg added]
          constructor
          · rintro (later | already)
            · exact Or.inl ⟨later.1, Or.inr later.2.1, later.2.2⟩
            · exact Or.inr already
          · rintro (⟨isTerminal, same | later, fresh⟩ | already)
            · rw [same] at isTerminal fresh
              exact absurd ⟨isTerminal, fresh⟩ added
            · exact Or.inl ⟨isTerminal, later, fresh⟩
            · exact Or.inr already
  unfold combineFirstSets
  rw [if_pos empty, all]
  tauto

theorem SlotsExact.update {slots : ItemFirstSets Token}
    (slotsExact : SlotsExact rules slots) {item : Item}
    (exact : ∀ element, element ∈ set ↔
      DerivedString rules (termsFrom rules item) element) :
    SlotsExact rules (Function.update slots item (some set)) := by
  intro other otherSet here
  rw [Function.update_apply] at here
  split at here
  case isTrue same =>
      rw [same, ← Option.some.inj here]
      exact exact
  case isFalse => exact slotsExact other otherSet here

/-- The terms of a nonterminal or a terminal have exact first sets. -/
def SetsExact (rules : List (UserRule Token)) (sets : FirstSets Token) :
    Prop :=
  ∀ token, isNonTerminal rules token = true → ∃ set,
    sets token = some set ∧
      ∀ element, element ∈ set ↔ Derived rules token element

theorem SetsExact.term (exact : SetsExact rules sets) (term : Token) :
    ∃ set, termFirstSet rules sets term = some set ∧
      ∀ element, element ∈ set ↔ Derived rules term element := by
  unfold termFirstSet
  cases kind : isNonTerminal rules term with
  | true => exact exact term kind
  | false =>
      refine ⟨[some term], rfl, ?_⟩
      intro element
      rw [List.mem_singleton, derived_terminal_iff kind]

/-- The first set of what comes from a position on is exact, whether it was
kept or not. -/
theorem nextFirstSet_spec (exact : SetsExact rules sets)
    {slots : ItemFirstSets Token} (slotsExact : SlotsExact rules slots)
    {index position : Nat} {terms : List Token}
    (here : termsFrom rules ⟨index, position⟩ = terms) :
    ∃ set after,
      nextFirstSet rules sets index terms position slots =
          some (set, after) ∧
        (∀ element, element ∈ set ↔ DerivedString rules terms element) ∧
          SlotsExact rules after := by
  induction terms generalizing position with
  | nil =>
      refine ⟨[none], slots, rfl, ?_, slotsExact⟩
      intro element
      exact List.mem_singleton
  | cons term terms inductionHypothesis =>
      obtain ⟨first, isFirst, members⟩ := exact.term term
      unfold nextFirstSet
      by_cases simple : isNonTerminal rules term = false ∨ terms = []
      · refine ⟨first, slots, ?_, ?_, slotsExact⟩
        · rw [if_pos simple, isFirst]
          rfl
        · intro element
          rw [members]
          cases simple with
          | inl kind =>
              show _ ↔ (_ ∨ Vanishes rules term ∧ _)
              have solid : ¬Derived rules term none := by
                rw [derived_terminal_iff kind]
                exact nofun
              rw [derived_terminal_iff kind]
              constructor
              · intro same
                rw [same]
                exact Or.inl ⟨rfl, rfl⟩
              · rintro (both | both)
                · exact both.2
                · exact absurd both.1 solid
          | inr last =>
              rw [last, derivedString_singleton]
      · rw [if_neg simple]
        cases slot : slots ⟨index, position⟩ with
        | some kept =>
            refine ⟨kept, slots, rfl, ?_, slotsExact⟩
            rw [← here]
            exact slotsExact _ kept slot
        | none =>
            rw [isFirst]
            have next : termsFrom rules ⟨index, position + 1⟩ = terms := by
              unfold termsFrom at here ⊢
              cases isRule : rules[index]? with
              | none =>
                  rw [isRule] at here
                  cases here
              | some rule =>
                  simp only [isRule] at here ⊢
                  rw [← List.drop_drop, here]
                  rfl
            by_cases empty : none ∈ first
            · obtain ⟨rest, after, isRest, restMembers, afterExact⟩ :=
                inductionHypothesis next
              have combined : ∀ element,
                  element ∈ combineFirstSets first rest ↔
                    DerivedString rules (term :: terms) element := by
                intro element
                have vanishes : Vanishes rules term := (members none).mp empty
                rw [mem_combineFirstSets empty, members, restMembers]
                show _ ↔ (_ ∨ Vanishes rules term ∧ _)
                tauto
              refine ⟨combineFirstSets first rest, _, ?_, combined,
                afterExact.update (here.symm ▸ combined)⟩
              show (if none ∈ first then _ else _) = _
              rw [if_pos empty, isRest]
              rfl
            · have alone : ∀ element, element ∈ first ↔
                  DerivedString rules (term :: terms) element := by
                intro element
                have solid : ¬Vanishes rules term := fun vanishes =>
                  empty ((members none).mpr vanishes)
                rw [members]
                show _ ↔ (_ ∨ Vanishes rules term ∧ _)
                cases element with
                | none =>
                    constructor
                    · exact fun vanishes => absurd vanishes solid
                    · rintro (both | both)
                      · cases both.1
                      · exact absurd both.1 solid
                | some terminal => tauto
              refine ⟨first, _, ?_, alone,
                slotsExact.update (here.symm ▸ alone)⟩
              show (if none ∈ first then _ else _) = _
              rw [if_neg empty]

/-! ## All first sets -/

/-- The first set of each nonterminal, and those of what comes after each item,
whatever items they are asked for in which order, are exact. -/
def FirstSetsExact (rules : List (UserRule Token)) : Prop :=
  (∀ token, isNonTerminal rules token = true → ∃ set,
    setupFirstSets rules token = some set ∧ IsFirstSet rules [token] set) ∧
    ∀ items : List Item, (∀ item ∈ items, item ∈ nonEmptyItems rules) →
      ∃ answers,
        itemNextFirstSets rules (setupFirstSets rules) items
            (fun _ => none) = some answers ∧
          List.Forall₂
            (fun item set => IsFirstSet rules (termsAfter rules item) set)
            items answers

theorem itemNextFirstSets_spec (exact : SetsExact rules sets)
    {slots : ItemFirstSets Token} (slotsExact : SlotsExact rules slots)
    (items : List Item) :
    ∃ answers, itemNextFirstSets rules sets items slots = some answers ∧
      List.Forall₂
        (fun item set => IsFirstSet rules (termsAfter rules item) set)
        items answers := by
  induction items generalizing slots with
  | nil => exact ⟨[], rfl, List.Forall₂.nil⟩
  | cons item items inductionHypothesis =>
      have same : termsFrom rules ⟨item.rule, item.position + 1⟩ =
          termsAfter rules item := rfl
      obtain ⟨set, after, answer, members, afterExact⟩ :=
        nextFirstSet_spec exact slotsExact same
      obtain ⟨answers, others, all⟩ := inductionHypothesis afterExact
      refine ⟨set :: answers, ?_, ?_⟩
      · unfold itemNextFirstSets itemNextFirstSet
        rw [answer]
        show (itemNextFirstSets rules sets items after).map _ = _
        rw [others]
        rfl
      · exact List.Forall₂.cons (isFirstSet_iff.mpr members) all

/-- All first sets are exact just for the grammars in which each first terminal
of a nonterminal has a derivation without a repeated item. -/
theorem firstSetsExact_iff_unrepeated (rules : List (UserRule Token)) :
    FirstSetsExact rules ↔ Unrepeated rules := by
  rw [← setupFirstSets_exact_iff]
  constructor
  · rintro ⟨nonterminals, _⟩ token kind
    obtain ⟨set, here, isFirst⟩ := nonterminals token kind
    refine ⟨set, here, ?_⟩
    intro element
    rw [isFirstSet_iff.mp isFirst, derivedString_singleton]
  · intro exact
    constructor
    · intro token kind
      obtain ⟨set, here, members⟩ := exact token kind
      refine ⟨set, here, isFirstSet_iff.mpr ?_⟩
      intro element
      rw [members, derivedString_singleton]
    · intro items _
      apply itemNextFirstSets_spec exact _ items
      intro item set here
      cases here

/-- A grammar with a cycle through a nonterminal that may vanish: an `x` is a
`y`, and a `y` is nothing or an `x` with a terminal after it. -/
def hiddenCycle : List (UserRule Nat) :=
  [⟨0, [1]⟩, ⟨1, [0, 2]⟩, ⟨1, []⟩]

/-- The terminal that an `x` may begin with is missing from its first set. -/
theorem not_firstSetsExact_hiddenCycle : ¬FirstSetsExact hiddenCycle := by
  rintro ⟨nonterminals, _⟩
  obtain ⟨set, here, isFirst⟩ := nonterminals 0 rfl
  have isSet : setupFirstSets hiddenCycle 0 = some [none] := by decide
  rw [isSet] at here
  have members := isFirstSet_iff.mp isFirst (some 2)
  rw [← Option.some.inj here, derivedString_singleton] at members
  have nothing : Vanishes hiddenCycle 1 := by
    refine vanishes_iff.mpr ⟨2, [], rfl, ?_⟩
    intro other member
    cases member
  have vanishes : Vanishes hiddenCycle 0 := by
    refine vanishes_iff.mpr ⟨0, [1], rfl, ?_⟩
    intro other member
    rw [List.mem_singleton.mp member]
    exact nothing
  have itself : BeginsWith hiddenCycle 2 2 :=
    beginsWith_iff.mpr (Or.inl ⟨rfl, rfl⟩)
  have second : BeginsWith hiddenCycle 2 1 := by
    refine beginsWith_iff.mpr (Or.inr ⟨1, [0, 2], 1, 2, rfl, rfl, ?_,
      itself⟩)
    intro other member
    rw [List.mem_singleton.mp member]
    exact vanishes
  have first : Derived hiddenCycle 0 (some 2) := by
    refine beginsWith_iff.mpr (Or.inr ⟨0, [1], 0, 1, rfl, rfl, ?_, second⟩)
    intro other member
    cases member
  have missing : some 2 ∉ ([none] : FirstSet Nat) := by decide
  exact missing (members.mpr first)

end OpenDylan.GrammarCompiler
