import OpenDylan.GrammarCompiler.FirstSets
import OpenDylan.Lib.Grammar

/-!
# Derivations that a cut search finds

The rules of a user are a context-free grammar.  A search that is cut off at
the items that it is already at finds what has a derivation in which no item is
below itself.  Below a nonterminal whose set is known every derivation counts.
For the empty string such a derivation is found whenever there is any, and for
a first terminal it is found where no nonterminal is to the left of itself.
-/

namespace OpenDylan.GrammarCompiler

open Lib.Grammar

variable {Token : Type} [DecidableEq Token]

/-! ## The grammar -/

/-- The symbol of a token. -/
def toSymbol (rules : List (UserRule Token)) (token : Token) :
    Symbol Token (Option Token) :=
  if isNonTerminal rules token then .nonterminal (some token)
  else .terminal token

/-- The grammar of a user, which starts with the nonterminal of the first
rule. -/
abbrev contextFree (rules : List (UserRule Token)) :
    ContextFreeGrammar Token where
  NT := Option Token
  initial := rules.head?.map UserRule.lhs
  rules := (rules.map fun rule =>
    (⟨some rule.lhs, rule.rhs.map (toSymbol rules)⟩ :
      ContextFreeRule Token (Option Token))).toFinset

/-- A rule is the one at an index. -/
def HasRule (rules : List (UserRule Token)) (index : Nat) (token : Token)
    (rhs : List Token) : Prop :=
  rules[index]? = some ⟨token, rhs⟩

/-- A token derives the empty string. -/
def Vanishes (rules : List (UserRule Token)) (token : Token) : Prop :=
  Nullable (contextFree rules) (toSymbol rules token)

/-- A token derives a string that begins with a terminal. -/
def BeginsWith (rules : List (UserRule Token)) (terminal token : Token) :
    Prop :=
  Begins (contextFree rules) terminal (toSymbol rules token)

variable {rules : List (UserRule Token)} {token other terminal : Token}
  {rhs : List Token} {index position : Nat}

theorem isNonTerminal_of_rule
    (here : HasRule rules index token rhs) :
    isNonTerminal rules token = true := by
  apply List.any_eq_true.mpr
  exact ⟨⟨token, rhs⟩, List.mem_of_getElem? here, decide_eq_true rfl⟩

theorem mem_rules_iff {rule : ContextFreeRule Token (Option Token)} :
    rule ∈ (contextFree rules).rules ↔
      ∃ (index : Nat) (token : Token) (rhs : List Token),
        HasRule rules index token rhs ∧
          rule = ⟨some token, rhs.map (toSymbol rules)⟩ := by
  unfold contextFree
  rw [List.mem_toFinset, List.mem_map]
  constructor
  · rintro ⟨user, member, same⟩
    obtain ⟨index, here⟩ := List.mem_iff_getElem?.mp member
    exact ⟨index, user.lhs, user.rhs, here, same.symm⟩
  · rintro ⟨index, token, rhs, here, same⟩
    exact ⟨⟨token, rhs⟩, List.mem_of_getElem? here, same.symm⟩

theorem toSymbol_nonterminal (here : HasRule rules index token rhs) :
    toSymbol rules token = .nonterminal (some token) := by
  unfold toSymbol
  rw [if_pos (isNonTerminal_of_rule here)]

theorem eq_of_toSymbol
    (same : toSymbol rules token = .nonterminal (some other)) :
    token = other := by
  unfold toSymbol at same
  split at same
  · exact Option.some.inj (Symbol.nonterminal.inj same)
  · cases same

theorem toSymbol_terminal (here : isNonTerminal rules token = false) :
    toSymbol rules token = .terminal token := by
  unfold toSymbol
  rw [here, if_neg Bool.false_ne_true]

/-- A token derives the empty string by a rule whose right-hand side does. -/
theorem vanishes_iff :
    Vanishes rules token ↔ ∃ (index : Nat) (rhs : List Token),
      HasRule rules index token rhs ∧
        ∀ other ∈ rhs, Vanishes rules other := by
  unfold Vanishes
  rw [nullable_iff]
  constructor
  · rintro ⟨rule, member, same, outputs⟩
    obtain ⟨index, lhs, rhs, here, isRule⟩ := mem_rules_iff.mp member
    subst isRule
    have isToken := eq_of_toSymbol same
    subst isToken
    refine ⟨index, rhs, here, ?_⟩
    intro other isOther
    exact outputs _ (List.mem_map_of_mem isOther)
  · rintro ⟨index, rhs, here, outputs⟩
    refine ⟨_, mem_rules_iff.mpr ⟨index, token, rhs, here, rfl⟩,
      toSymbol_nonterminal here, ?_⟩
    intro symbol isSymbol
    obtain ⟨other, isOther, same⟩ := List.mem_map.mp isSymbol
    rw [← same]
    exact outputs other isOther

/-- A token derives a string that begins with a terminal by being it, or by a
rule. -/
theorem beginsWith_iff :
    BeginsWith rules terminal token ↔
      (isNonTerminal rules token = false ∧ token = terminal) ∨
        ∃ (index : Nat) (rhs : List Token) (position : Nat) (other : Token),
          HasRule rules index token rhs ∧ rhs[position]? = some other ∧
            (∀ another ∈ rhs.take position, Vanishes rules another) ∧
              BeginsWith rules terminal other := by
  unfold BeginsWith
  rw [begins_iff]
  apply or_congr
  · cases kind : isNonTerminal rules token with
    | true =>
        unfold toSymbol
        rw [kind, if_pos rfl]
        constructor
        · intro same
          cases same
        · intro both
          cases both.1
    | false =>
        rw [toSymbol_terminal kind]
        constructor
        · intro same
          exact ⟨rfl, Symbol.terminal.inj same⟩
        · rintro ⟨_, same⟩
          rw [same]
  · constructor
    · rintro ⟨rule, member, same, before, symbol, after, output, nullable,
        begins⟩
      obtain ⟨index, lhs, rhs, here, isRule⟩ := mem_rules_iff.mp member
      subst isRule
      have isToken := eq_of_toSymbol same
      subst isToken
      obtain ⟨front, rest, whole, isBefore, isRest⟩ :=
        List.map_eq_append_iff.mp output
      obtain ⟨other, back, isBack, isOther, _⟩ :=
        List.map_eq_cons_iff.mp isRest
      subst whole
      subst isBack
      subst isBefore
      refine ⟨index, _, front.length, other, here, ?_, ?_, ?_⟩
      · simp
      · rw [List.take_left]
        intro another isAnother
        exact nullable _ (List.mem_map_of_mem isAnother)
      · rw [isOther]
        exact begins
    · rintro ⟨index, rhs, position, other, here, isOther, vanish, begins⟩
      obtain ⟨inside, isElement⟩ := List.getElem?_eq_some_iff.mp isOther
      have whole : rhs = rhs.take position ++ other ::
          rhs.drop (position + 1) := by
        rw [← isElement, List.getElem_cons_drop, List.take_append_drop]
      refine ⟨_, mem_rules_iff.mpr ⟨index, token, rhs, here, rfl⟩,
        toSymbol_nonterminal here,
        (rhs.take position).map (toSymbol rules), toSymbol rules other,
        (rhs.drop (position + 1)).map (toSymbol rules), ?_, ?_, begins⟩
      · show rhs.map (toSymbol rules) = _
        nth_rewrite 1 [whole]
        rw [List.map_append, List.map_cons]
      · intro symbol isSymbol
        obtain ⟨another, isAnother, same⟩ := List.mem_map.mp isSymbol
        rw [← same]
        exact vanish another isAnother

/-! ## Derivations without repeated items -/

/-- A token derives the empty string by a derivation in which no item is below
itself or is one of those visited, but for what is below known tokens. -/
inductive VanishesPast (rules : List (UserRule Token))
    (known : Token → Prop) : List Item → Token → Prop where
  | known {visited : List Item} {token : Token} (isKnown : known token)
      (vanishes : Vanishes rules token) :
      VanishesPast rules known visited token
  | rule {visited : List Item} {token : Token} {index : Nat}
      {rhs : List Token} (unknown : ¬known token)
      (here : HasRule rules index token rhs)
      (fresh : ∀ position < rhs.length, ⟨index, position⟩ ∉ visited)
      (outputs : ∀ position other, rhs[position]? = some other →
        VanishesPast rules known (⟨index, position⟩ :: visited) other) :
      VanishesPast rules known visited token

/-- A token derives a string that begins with a terminal by such a
derivation. -/
inductive BeginsPast (rules : List (UserRule Token)) (known : Token → Prop)
    (terminal : Token) : List Item → Token → Prop where
  | terminal {visited : List Item}
      (kind : isNonTerminal rules terminal = false) :
      BeginsPast rules known terminal visited terminal
  | known {visited : List Item} {token : Token} (isKnown : known token)
      (begins : BeginsWith rules terminal token) :
      BeginsPast rules known terminal visited token
  | rule {visited : List Item} {token other : Token} {index position : Nat}
      {rhs : List Token} (unknown : ¬known token)
      (here : HasRule rules index token rhs)
      (isOther : rhs[position]? = some other)
      (fresh : ∀ earlier ≤ position, ⟨index, earlier⟩ ∉ visited)
      (vanish : ∀ earlier another, earlier < position →
        rhs[earlier]? = some another →
          VanishesPast rules known (⟨index, earlier⟩ :: visited) another)
      (begins : BeginsPast rules known terminal
        (⟨index, position⟩ :: visited) other) :
      BeginsPast rules known terminal visited token

variable {known : Token → Prop} {visited : List Item}

theorem VanishesPast.vanishes
    (past : VanishesPast rules known visited token) :
    Vanishes rules token := by
  induction past with
  | known _ vanishes => exact vanishes
  | rule _ here _ _ inductionHypothesis =>
      refine vanishes_iff.mpr ⟨_, _, here, ?_⟩
      intro other member
      obtain ⟨position, isOther⟩ := List.mem_iff_getElem?.mp member
      exact inductionHypothesis position other isOther

theorem BeginsPast.beginsWith
    (past : BeginsPast rules known terminal visited token) :
    BeginsWith rules terminal token := by
  induction past with
  | terminal kind => exact beginsWith_iff.mpr (Or.inl ⟨kind, rfl⟩)
  | known _ begins => exact begins
  | @rule visited token other index position rhs unknown here isOther fresh
      vanish _ inductionHypothesis =>
      refine beginsWith_iff.mpr (Or.inr ⟨index, rhs, position, other, here,
        isOther, ?_, inductionHypothesis⟩)
      intro another member
      obtain ⟨earlier, isAnother⟩ := List.mem_iff_getElem?.mp member
      rw [List.getElem?_take] at isAnother
      split at isAnother
      case isTrue before =>
          exact (vanish earlier another before isAnother).vanishes
      case isFalse => cases isAnother

/-! ## The empty string -/

/-- A token derives the empty string by a derivation that is not too high. -/
def VanishesIn (rules : List (UserRule Token)) : Nat → Token → Prop
  | 0, _ => False
  | height + 1, token => ∃ (index : Nat) (rhs : List Token),
      HasRule rules index token rhs ∧
        ∀ other ∈ rhs, VanishesIn rules height other

omit [DecidableEq Token] in
theorem VanishesIn.succ {height : Nat}
    (vanishes : VanishesIn rules height token) :
    VanishesIn rules (height + 1) token := by
  induction height generalizing token with
  | zero => exact vanishes.elim
  | succ height inductionHypothesis =>
      obtain ⟨index, rhs, here, outputs⟩ := vanishes
      refine ⟨index, rhs, here, ?_⟩
      intro other member
      exact inductionHypothesis (outputs other member)

omit [DecidableEq Token] in
theorem VanishesIn.mono {height higher : Nat} (order : height ≤ higher)
    (vanishes : VanishesIn rules height token) :
    VanishesIn rules higher token := by
  induction order with
  | refl => exact vanishes
  | step _ inductionHypothesis => exact inductionHypothesis.succ

omit [DecidableEq Token] in
/-- There is a height that is enough for all tokens of a right-hand side. -/
theorem exists_height_of_each
    (each : ∀ other ∈ rhs, ∃ height, VanishesIn rules height other) :
    ∃ height, ∀ other ∈ rhs, VanishesIn rules height other := by
  induction rhs with
  | nil =>
      refine ⟨0, ?_⟩
      intro other isOther
      cases isOther
  | cons first rest inductionHypothesis =>
      have both := List.forall_mem_cons.mp each
      obtain ⟨firstHeight, isFirst⟩ := both.1
      obtain ⟨restHeight, isRest⟩ := inductionHypothesis both.2
      refine ⟨max firstHeight restHeight, ?_⟩
      intro other isOther
      cases List.mem_cons.mp isOther with
      | inl same =>
          rw [same]
          exact isFirst.mono (Nat.le_max_left _ _)
      | inr later =>
          exact (isRest other later).mono (Nat.le_max_right _ _)

theorem Vanishes.height (vanishes : Vanishes rules token) :
    ∃ height, VanishesIn rules height token := by
  unfold Vanishes at vanishes
  have all : ∀ symbol, Nullable (contextFree rules) symbol →
      ∀ token, toSymbol rules token = symbol →
        ∃ height, VanishesIn rules height token := by
    intro symbol nullable
    induction nullable with
    | rule member _ inductionHypothesis =>
        intro token same
        obtain ⟨index, lhs, rhs, here, isRule⟩ := mem_rules_iff.mp member
        subst isRule
        have isToken := eq_of_toSymbol same
        subst isToken
        have each : ∀ other ∈ rhs, ∃ height,
            VanishesIn rules height other := by
          intro other isOther
          exact inductionHypothesis _ (List.mem_map_of_mem isOther) other rfl
        obtain ⟨height, bound⟩ := exists_height_of_each each
        exact ⟨height + 1, index, rhs, here, bound⟩
  exact all _ vanishes token rfl

/-- The lowest derivation of the empty string does not pass an item again. -/
theorem VanishesIn.past (height : Nat) :
    ∀ token visited, VanishesIn rules height token →
      (∀ item ∈ visited, ∀ lhs rhs, HasRule rules item.rule lhs rhs →
        ¬VanishesIn rules height lhs) →
      VanishesPast rules known visited token := by
  induction height using Nat.strong_induction_on with
  | _ height inductionHypothesis =>
      intro token visited vanishes higher
      by_cases isKnown : known token
      · apply VanishesPast.known isKnown
        have all : ∀ height token, VanishesIn rules height token →
            Vanishes rules token := by
          intro height
          induction height with
          | zero => exact fun _ => False.elim
          | succ height lower =>
              rintro token ⟨index, rhs, here, outputs⟩
              exact vanishes_iff.mpr ⟨index, rhs, here,
                fun other member => lower other (outputs other member)⟩
        exact all height token vanishes
      · classical
        have some : ∃ height, VanishesIn rules height token :=
          ⟨height, vanishes⟩
        have least := Nat.find_spec some
        have small : Nat.find some ≤ height := Nat.find_min' some vanishes
        cases isLeast : Nat.find some with
        | zero =>
            rw [isLeast] at least
            exact least.elim
        | succ lower =>
            rw [isLeast] at least small
            obtain ⟨index, rhs, here, outputs⟩ := least
            have notLower : ¬VanishesIn rules lower token :=
              Nat.find_min some (by omega)
            apply VanishesPast.rule isKnown here
            · intro position _ member
              exact higher _ member token rhs here vanishes
            · intro position other isOther
              apply inductionHypothesis lower (by omega) other _
                (outputs other (List.mem_of_getElem? isOther))
              intro item member lhs itemRhs itemHere
              cases List.mem_cons.mp member with
              | inl isItem =>
                  subst isItem
                  have same := Option.some.inj (here.symm.trans itemHere)
                  cases same
                  exact notLower
              | inr earlier =>
                  intro vanishesLow
                  exact higher item earlier lhs itemRhs itemHere
                    (vanishesLow.mono (by omega))

/-- What derives the empty string does so without a repeated item. -/
theorem vanishesPast_nil_iff :
    VanishesPast rules known [] token ↔ Vanishes rules token := by
  constructor
  · exact VanishesPast.vanishes
  · intro vanishes
    obtain ⟨height, low⟩ := vanishes.height
    apply VanishesIn.past height token [] low
    intro item member
    cases member

/-! ## What is to the left -/

/-- A token is the first one of a rule of another, after ones that derive the
empty string. -/
def LeftOf (rules : List (UserRule Token)) (known : Token → Prop)
    (other token : Token) : Prop :=
  ¬known token ∧ ∃ (index : Nat) (rhs : List Token) (position : Nat),
    HasRule rules index token rhs ∧ rhs[position]? = some other ∧
      ∀ another ∈ rhs.take position, Vanishes rules another

/-- The items visited lead to a token. -/
def LeadTo (rules : List (UserRule Token)) (known : Token → Prop)
    (visited : List Item) (token : Token) : Prop :=
  ∀ item ∈ visited, ∃ lhs rhs, HasRule rules item.rule lhs rhs ∧
    Relation.TransGen (LeftOf rules known) token lhs

omit [DecidableEq Token] in
theorem not_transGen_self {r : Token → Token → Prop} (acc : Acc r token) :
    ¬Relation.TransGen r token token := by
  have further := acc.transGen
  induction further with
  | intro token _ inductionHypothesis =>
      intro circle
      exact inductionHypothesis token circle acc circle

theorem leadTo_nil : LeadTo rules known [] token := by
  intro item member
  cases member

theorem LeadTo.cons (lead : LeadTo rules known visited token)
    (here : HasRule rules index token rhs)
    (isLeft : LeftOf rules known other token) :
    LeadTo rules known (⟨index, position⟩ :: visited) other := by
  intro item member
  cases List.mem_cons.mp member with
  | inl isItem =>
      subst isItem
      exact ⟨token, rhs, here, Relation.TransGen.single isLeft⟩
  | inr earlier =>
      obtain ⟨lhs, itemRhs, itemHere, path⟩ := lead item earlier
      exact ⟨lhs, itemRhs, itemHere,
        (Relation.TransGen.single isLeft).trans path⟩

/-- Where nothing is to the left of itself, no item of a token leads to it. -/
theorem LeadTo.fresh (lead : LeadTo rules known visited token)
    (acc : Acc (LeftOf rules known) token)
    (here : HasRule rules index token rhs) :
    ⟨index, position⟩ ∉ visited := by
  intro member
  obtain ⟨lhs, itemRhs, itemHere, path⟩ := lead _ member
  have same := Option.some.inj (here.symm.trans itemHere)
  cases same
  exact not_transGen_self acc path

theorem leftOf_of_vanish (unknown : ¬known token)
    (here : HasRule rules index token rhs)
    (isOther : rhs[position]? = some other)
    (vanish : ∀ another ∈ rhs.take position, Vanishes rules another) :
    LeftOf rules known other token :=
  ⟨unknown, index, rhs, position, here, isOther, vanish⟩

/-- Where nothing is to the left of itself, every derivation is without a
repeated item. -/
theorem vanishesPast_of_acc (acc : Acc (LeftOf rules known) token)
    (lead : LeadTo rules known visited token)
    (vanishes : Vanishes rules token) :
    VanishesPast rules known visited token := by
  induction acc generalizing visited with
  | intro token below inductionHypothesis =>
      by_cases isKnown : known token
      · exact VanishesPast.known isKnown vanishes
      · obtain ⟨index, rhs, here, outputs⟩ := vanishes_iff.mp vanishes
        apply VanishesPast.rule isKnown here
        · intro position _
          exact lead.fresh (Acc.intro token below) here
        · intro position other isOther
          have isLeft := leftOf_of_vanish isKnown here isOther
            fun another member => outputs another (List.mem_of_mem_take member)
          exact inductionHypothesis other isLeft (lead.cons here isLeft)
            (outputs other (List.mem_of_getElem? isOther))

theorem beginsPast_of_acc (acc : Acc (LeftOf rules known) token)
    (lead : LeadTo rules known visited token)
    (begins : BeginsWith rules terminal token) :
    BeginsPast rules known terminal visited token := by
  induction acc generalizing visited with
  | intro token below inductionHypothesis =>
      by_cases isKnown : known token
      · exact BeginsPast.known isKnown begins
      · rcases beginsWith_iff.mp begins with ⟨kind, same⟩ |
          ⟨index, rhs, position, other, here, isOther, vanish, later⟩
        · subst same
          exact BeginsPast.terminal kind
        · have isLeft := leftOf_of_vanish isKnown here isOther vanish
          apply BeginsPast.rule isKnown here isOther
          · intro earlier _
            exact lead.fresh (Acc.intro token below) here
          · intro earlier another before isAnother
            have inTake : another ∈ rhs.take position := by
              apply List.mem_iff_getElem?.mpr
              exact ⟨earlier, by rw [List.getElem?_take, if_pos before,
                isAnother]⟩
            have earlierLeft := leftOf_of_vanish isKnown here isAnother
              fun each member => vanish each
                (List.mem_of_mem_take (by
                  rw [List.take_take, Nat.min_eq_left (Nat.le_of_lt before)]
                  exact member : each ∈ (rhs.take position).take earlier))
            exact vanishesPast_of_acc (below another earlierLeft)
              (lead.cons here earlierLeft) (vanish another inTake)
          · exact inductionHypothesis other isLeft (lead.cons here isLeft)
              later

end OpenDylan.GrammarCompiler
