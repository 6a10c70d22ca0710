import Packrat.Run
import Packrat.Callback

/-!
# Plan — what a combinator does, as data

A `Plan` says what is done next and how the answer is gone on with: look where the window ends,
match a child, or call a callback. So a combinator can only do these three things, and whatever is
true of the three is true of every combinator. A `Rule` is a plan for each cursor. Plans are a
monad; `Engine` carries them out.
-/

namespace Packrat

/-- What is done in a run to find an answer in `α`. -/
inductive Plan (υ σ α : Type) : Type 1 where
  /-- The answer is known. -/
  | done (answer : α)
  /-- Looks where the window ends. -/
  | look (next : Cursor → Plan υ σ α)
  /-- Matches a child, in the window or in the narrower one that is given. -/
  | apply (window : Option Cursor) (child : Nat) (start : Cursor) (next : Step υ → Plan υ σ α)
  /-- Calls a callback on the value of a match. -/
  | call {β : Type} (kind : CallbackKind) (callback : Callback υ σ β) (start : Cursor) (m : Match υ)
      (next : Except CallbackError β → Plan υ σ α)

/-- What is done to match at a cursor. -/
abbrev Rule (υ σ : Type) := Cursor → Plan υ σ (Step υ)

namespace Plan

variable {υ σ α β : Type}

/-- One plan after the other. -/
protected def bind : Plan υ σ α → (α → Plan υ σ β) → Plan υ σ β
  | done a, f => f a
  | look next, f => look fun limit => (next limit).bind f
  | apply window child start next, f => apply window child start fun step => (next step).bind f
  | call kind callback start m next, f => call kind callback start m fun a => (next a).bind f

instance : Monad (Plan υ σ) where
  pure := done
  bind := Plan.bind

/-- The end of the window. -/
def limit : Plan υ σ Cursor := look done

/-! ## Plans as a monad -/

section Laws

variable (f : α → Plan υ σ β)

@[simp]
theorem pure_eq_done (a : α) : (pure a : Plan υ σ α) = done a := rfl

@[simp]
theorem bind_eq_bind (p : Plan υ σ α) : p >>= f = p.bind f := rfl

@[simp]
theorem bind_done (a : α) : (done a).bind f = f a := rfl

@[simp]
theorem bind_look (next : Cursor → Plan υ σ α) :
    (look next).bind f = look fun limit => (next limit).bind f := rfl

@[simp]
theorem bind_limit (f : Cursor → Plan υ σ β) : limit.bind f = look f := rfl

@[simp]
theorem bind_apply (window : Option Cursor) (child : Nat) (start : Cursor)
    (next : Step υ → Plan υ σ α) :
    (apply window child start next).bind f
      = apply window child start fun step => (next step).bind f := rfl

end Laws

end Plan

namespace Rule

variable {υ σ : Type}

/-- Matches a child. -/
def child (index : Nat) : Rule υ σ := fun start => .apply none index start .done

/-- Matches a child with the window narrowed to end at `stop`. -/
def childWithin (index : Nat) (stop : Cursor) : Rule υ σ := fun start =>
  .apply (some stop) index start .done

end Rule

end Packrat
