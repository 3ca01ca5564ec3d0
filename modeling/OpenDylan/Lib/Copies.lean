import Mathlib.Data.List.Basic

/-!
# Sequences of copies

A copy puts the value of a variable or a constant into a variable.  Reading a
reference back through a sequence of copies says which value it has after
them, in terms of the store before them, for every store.
-/

namespace OpenDylan.Lib.Copies

variable {Var Const Value : Type}

/-! ## References -/

/-- What a copy reads. -/
inductive Reference (Var Const : Type) where
  | variable (name : Var)
  | constant (value : Const)
deriving DecidableEq

/-- The value of a reference in a store. -/
def Reference.evaluate (constants : Const → Value) (store : Var → Value) :
    Reference Var Const → Value
  | .variable name => store name
  | .constant value => constants value

/-- In the store of the variables themselves, a reference is its value. -/
@[simp]
theorem Reference.evaluate_self (reference : Reference Var Const) :
    reference.evaluate Reference.constant Reference.variable = reference := by
  cases reference <;> rfl

/-- A copy; without a target or a source it does nothing. -/
structure Copy (Var Const : Type) where
  target : Option Var
  source : Option (Reference Var Const)

/-! ## Performing copies -/

section Stores

variable [DecidableEq Var]

def Copy.perform (constants : Const → Value) (copy : Copy Var Const)
    (store : Var → Value) : Var → Value :=
  match copy.target, copy.source with
  | some target, some source =>
      Function.update store target (source.evaluate constants store)
  | _, _ => store

/-- The store after a sequence of copies. -/
def perform (constants : Const → Value) :
    List (Copy Var Const) → (Var → Value) → Var → Value
  | [], store => store
  | copy :: copies, store =>
      perform constants copies (copy.perform constants store)

@[simp]
theorem perform_append (constants : Const → Value)
    (copies more : List (Copy Var Const)) (store : Var → Value) :
    perform constants (copies ++ more) store =
      perform constants more (perform constants copies store) := by
  induction copies generalizing store with
  | nil => rfl
  | cons copy copies ih => exact ih _

/-! ## Reading back -/

/-- The reference that has, before a copy, the value of a reference after
it. -/
def Copy.readBack (copy : Copy Var Const) :
    Reference Var Const → Reference Var Const
  | .variable name =>
      match copy.target, copy.source with
      | some target, some source =>
          if name = target then source else .variable name
      | _, _ => .variable name
  | .constant value => .constant value

/-- The same for a sequence of copies. -/
def readBack : List (Copy Var Const) → Reference Var Const →
    Reference Var Const
  | [], reference => reference
  | copy :: copies, reference => copy.readBack (readBack copies reference)

theorem readBack_append (copies more : List (Copy Var Const))
    (reference : Reference Var Const) :
    readBack (copies ++ more) reference =
      readBack copies (readBack more reference) := by
  induction copies with
  | nil => rfl
  | cons copy copies ih => exact congrArg copy.readBack ih

theorem Copy.evaluate_perform (constants : Const → Value)
    (copy : Copy Var Const) (store : Var → Value)
    (reference : Reference Var Const) :
    reference.evaluate constants (copy.perform constants store) =
      (copy.readBack reference).evaluate constants store := by
  obtain ⟨target, source⟩ := copy
  cases reference with
  | constant value => rfl
  | «variable» name =>
      cases target with
      | none => rfl
      | some target =>
          cases source with
          | none => rfl
          | some source =>
              by_cases same : name = target
              · subst same
                simp [Reference.evaluate, perform, readBack]
              · simp [Reference.evaluate, perform, readBack, same]

/-- A reference has after the copies the value that it is read back to. -/
theorem evaluate_perform (constants : Const → Value)
    (copies : List (Copy Var Const)) (store : Var → Value)
    (reference : Reference Var Const) :
    reference.evaluate constants (perform constants copies store) =
      (readBack copies reference).evaluate constants store := by
  induction copies generalizing store with
  | nil => rfl
  | cons copy copies ih => exact (ih _).trans (copy.evaluate_perform ..)

end Stores

end OpenDylan.Lib.Copies
