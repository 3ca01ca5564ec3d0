import Mathlib.Computability.ContextFreeGrammar

/-!
# What strings of a grammar begin with

A string of symbols derives the empty string when each of its symbols does, and
it derives a string that begins with a terminal when one of its symbols does
and what is before that symbol derives the empty string.  Both are said of
symbols by the rules that are applied to them, which is easier to reason about
than derivations.
-/

namespace OpenDylan.Lib.Grammar

variable {T : Type*} {g : ContextFreeGrammar T}

/-- A symbol derives the empty string. -/
inductive Nullable (g : ContextFreeGrammar T) : Symbol T g.NT → Prop where
  | rule {rule : ContextFreeRule T g.NT} (member : rule ∈ g.rules)
      (outputs : ∀ symbol ∈ rule.output, Nullable g symbol) :
      Nullable g (.nonterminal rule.input)

/-- A symbol derives a string that begins with a terminal. -/
inductive Begins (g : ContextFreeGrammar T) (terminal : T) :
    Symbol T g.NT → Prop where
  | terminal : Begins g terminal (.terminal terminal)
  | rule {rule : ContextFreeRule T g.NT} {symbol : Symbol T g.NT}
      {before after : List (Symbol T g.NT)} (member : rule ∈ g.rules)
      (output : rule.output = before ++ symbol :: after)
      (nullable : ∀ other ∈ before, Nullable g other)
      (begins : Begins g terminal symbol) :
      Begins g terminal (.nonterminal rule.input)

/-- Each symbol of a string derives the empty string. -/
def NullableString (g : ContextFreeGrammar T)
    (string : List (Symbol T g.NT)) : Prop :=
  ∀ symbol ∈ string, Nullable g symbol

/-- A symbol of a string derives a string that begins with a terminal, and the
ones before it derive the empty string. -/
def BeginsString (g : ContextFreeGrammar T) (terminal : T)
    (string : List (Symbol T g.NT)) : Prop :=
  ∃ before symbol after, string = before ++ symbol :: after ∧
    NullableString g before ∧ Begins g terminal symbol

variable {terminal : T} {symbol : Symbol T g.NT}
  {string before after : List (Symbol T g.NT)}

theorem nullable_iff :
    Nullable g symbol ↔ ∃ rule ∈ g.rules,
      symbol = .nonterminal rule.input ∧ NullableString g rule.output := by
  constructor
  · intro nullable
    cases nullable with
    | @rule rule member outputs => exact ⟨rule, member, rfl, outputs⟩
  · rintro ⟨rule, member, same, outputs⟩
    rw [same]
    exact Nullable.rule member outputs

theorem begins_iff :
    Begins g terminal symbol ↔ symbol = .terminal terminal ∨
      ∃ rule ∈ g.rules, symbol = .nonterminal rule.input ∧
        BeginsString g terminal rule.output := by
  constructor
  · intro begins
    cases begins with
    | terminal => exact Or.inl rfl
    | @rule rule first before after member output nullable begins =>
        exact Or.inr ⟨rule, member, rfl, before, first, after, output,
          nullable, begins⟩
  · rintro (same | ⟨rule, member, same, before, first, after, output,
      nullable, begins⟩)
    · rw [same]
      exact Begins.terminal
    · rw [same]
      exact Begins.rule member output nullable begins

theorem nullableString_append :
    NullableString g (before ++ after) ↔
      NullableString g before ∧ NullableString g after :=
  List.forall_mem_append

theorem beginsString_nil : ¬BeginsString g terminal [] := by
  rintro ⟨before, symbol, after, whole, _⟩
  cases before with
  | nil => cases whole
  | cons first rest => cases whole

theorem beginsString_cons :
    BeginsString g terminal (symbol :: string) ↔
      Begins g terminal symbol ∨
        Nullable g symbol ∧ BeginsString g terminal string := by
  constructor
  · rintro ⟨before, other, after, whole, nullable, begins⟩
    cases before with
    | nil =>
        cases whole
        exact Or.inl begins
    | cons first rest =>
        cases whole
        have both := List.forall_mem_cons.mp nullable
        exact Or.inr ⟨both.1, rest, other, after, rfl, both.2, begins⟩
  · rintro (begins | ⟨nullable, before, other, after, whole, rest, begins⟩)
    · refine ⟨[], symbol, string, rfl, ?_, begins⟩
      intro other member
      cases member
    · refine ⟨symbol :: before, other, after, ?_, ?_, begins⟩
      · rw [whole]
        rfl
      · exact List.forall_mem_cons.mpr ⟨nullable, rest⟩

theorem beginsString_append :
    BeginsString g terminal (before ++ after) ↔
      BeginsString g terminal before ∨
        NullableString g before ∧ BeginsString g terminal after := by
  induction before with
  | nil =>
      have all : NullableString g ([] : List (Symbol T g.NT)) := by
        intro symbol member
        cases member
      constructor
      · intro begins
        exact Or.inr ⟨all, begins⟩
      · rintro (none | begins)
        · exact absurd none beginsString_nil
        · exact begins.2
  | cons symbol before inductionHypothesis =>
      have split : NullableString g (symbol :: before) ↔
          Nullable g symbol ∧ NullableString g before := List.forall_mem_cons
      rw [List.cons_append, beginsString_cons, beginsString_cons,
        inductionHypothesis, split]
      tauto

/-! ## Derivations -/

/-- What a step leads to derives the empty string only if what it starts from
does. -/
theorem nullableString_of_produces
    {source target : List (Symbol T g.NT)} (step : g.Produces source target)
    (nullable : NullableString g target) : NullableString g source := by
  obtain ⟨rule, member, rewrites⟩ := step
  obtain ⟨before, after, isSource, isTarget⟩ := rewrites.exists_parts
  rw [isTarget, nullableString_append, nullableString_append] at nullable
  obtain ⟨⟨first, output⟩, last⟩ := nullable
  rw [isSource, nullableString_append, nullableString_append]
  refine ⟨⟨first, ?_⟩, last⟩
  intro symbol isInput
  rw [List.mem_singleton.mp isInput]
  exact Nullable.rule member output

theorem beginsString_of_produces
    {source target : List (Symbol T g.NT)} (step : g.Produces source target)
    (begins : BeginsString g terminal target) :
    BeginsString g terminal source := by
  obtain ⟨rule, member, rewrites⟩ := step
  obtain ⟨before, after, isSource, isTarget⟩ := rewrites.exists_parts
  have input : ∀ symbols, BeginsString g terminal symbols →
      symbols = rule.output →
        BeginsString g terminal [.nonterminal rule.input] := by
    rintro symbols ⟨front, symbol, rest, whole, nullable, first⟩ same
    rw [beginsString_cons]
    exact Or.inl (Begins.rule member (same ▸ whole) nullable first)
  have nullableInput : NullableString g rule.output →
      NullableString g [.nonterminal rule.input] := by
    intro output symbol isInput
    rw [List.mem_singleton.mp isInput]
    exact Nullable.rule member output
  rw [isTarget, beginsString_append, beginsString_append,
    nullableString_append] at begins
  rw [isSource, beginsString_append, beginsString_append,
    nullableString_append]
  rcases begins with (first | ⟨nullable, output⟩) | ⟨⟨first, output⟩, last⟩
  · exact Or.inl (Or.inl first)
  · exact Or.inl (Or.inr ⟨nullable, input _ output rfl⟩)
  · exact Or.inr ⟨⟨first, nullableInput output⟩, last⟩

theorem derives_append {source target other result : List (Symbol T g.NT)}
    (first : g.Derives source target) (second : g.Derives other result) :
    g.Derives (source ++ other) (target ++ result) :=
  (first.append_right other).trans (second.append_left target)

theorem derives_rule {rule : ContextFreeRule T g.NT}
    (member : rule ∈ g.rules) :
    g.Derives [.nonterminal rule.input] rule.output :=
  ContextFreeGrammar.Produces.single
    ⟨rule, member, ContextFreeRule.Rewrites.input_output⟩

theorem derives_nil_of_each
    (each : ∀ symbol ∈ string, g.Derives [symbol] []) :
    g.Derives string [] := by
  induction string with
  | nil => exact ContextFreeGrammar.Derives.refl []
  | cons symbol string inductionHypothesis =>
      have both := List.forall_mem_cons.mp each
      exact derives_append both.1 (inductionHypothesis both.2)

theorem Nullable.derives (nullable : Nullable g symbol) :
    g.Derives [symbol] [] := by
  induction nullable with
  | rule member _ inductionHypothesis =>
      exact (derives_rule member).trans
        (derives_nil_of_each inductionHypothesis)

theorem NullableString.derives (nullable : NullableString g string) :
    g.Derives string [] :=
  derives_nil_of_each fun symbol member => (nullable symbol member).derives

/-- A string derives the empty string when each of its symbols does. -/
theorem derives_nil_iff :
    g.Derives string [] ↔ NullableString g string := by
  constructor
  · intro derives
    induction derives using Relation.ReflTransGen.head_induction_on with
    | refl =>
        intro symbol member
        cases member
    | head step _ inductionHypothesis =>
        exact nullableString_of_produces step inductionHypothesis
  · exact NullableString.derives

theorem Begins.derives (begins : Begins g terminal symbol) :
    ∃ rest, g.Derives [symbol] (.terminal terminal :: rest) := by
  induction begins with
  | terminal => exact ⟨[], ContextFreeGrammar.Derives.refl _⟩
  | @rule rule symbol before after member output nullable _ hypothesis =>
      obtain ⟨rest, derives⟩ := hypothesis
      have front : g.Derives before [] := NullableString.derives nullable
      refine ⟨rest ++ after, (derives_rule member).trans ?_⟩
      rw [output]
      exact derives_append front (derives.append_right after)

/-- A string derives a string that begins with a terminal when one of its
symbols does and what is before it derives the empty string. -/
theorem derives_terminal_iff :
    (∃ rest, g.Derives string (.terminal terminal :: rest)) ↔
      BeginsString g terminal string := by
  constructor
  · rintro ⟨rest, derives⟩
    induction derives using Relation.ReflTransGen.head_induction_on with
    | refl =>
        rw [beginsString_cons]
        exact Or.inl Begins.terminal
    | head step _ inductionHypothesis =>
        exact beginsString_of_produces step inductionHypothesis
  · rintro ⟨before, symbol, after, whole, nullable, begins⟩
    obtain ⟨rest, derives⟩ := begins.derives
    refine ⟨rest ++ after, ?_⟩
    rw [whole]
    exact derives_append (NullableString.derives nullable)
      (derives.append_right after)

end OpenDylan.Lib.Grammar
