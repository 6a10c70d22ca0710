import Packrat.Value

/-!
# Callback — actions and predicates

A grammar calls back into its user in two places: an action replaces the value of a match, a
predicate accepts or refuses it. A callback may keep state of its own, of type `σ`, which the run
hands from call to call. It may refuse the match with a message, and it may panic, which counts as a
refusal too: `CallbackError.message` gives the text of either.
-/

namespace Packrat

/-- Why a callback gave no answer. -/
inductive CallbackError where
  /-- It refused the match. -/
  | rejected (message : String)
  /-- It panicked, with a text or with some other payload. -/
  | panicked (payload : Option String)
deriving DecidableEq, Repr

/-- The text of the refusal. -/
def CallbackError.message : CallbackError → String
  | rejected message => message
  | panicked payload => "callback panicked: " ++ payload.getD "non-string payload"

/-- A function on values that may refuse, and that may use and change the callbacks' state. -/
abbrev Callback (υ σ α : Type) := Value υ → StateM σ (Except CallbackError α)

/-- A callback that gives a value its new value. -/
abbrev Action (υ σ : Type) := Callback υ σ (Value υ)

/-- A callback that accepts or refuses a value. -/
abbrev Predicate (υ σ : Type) := Callback υ σ Bool

/-- The callback that computes its answer from the value alone. -/
def Callback.ofFunction {υ σ α : Type} (f : Value υ → Except CallbackError α) : Callback υ σ α :=
  fun v => pure (f v)

end Packrat
