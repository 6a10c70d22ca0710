import Packrat.Grammar.Builder

/-!
# Grammar/Call — builder calls as data

A `Call` is one of the three things that a builder can be asked for, with its arguments. Handles
of any builder may stand in it; the builder that performs the call refuses strange ones. A call
that fails does not end a list of calls: `Builder.performAll` answers every one of them.
-/

namespace Packrat

/-- A call on a builder, with callbacks on objects `υ` and state `σ`. -/
inductive Call (υ σ : Type) where
  /-- Append a combinator. -/
  | add (request : Node Handle υ σ)
  /-- Append a placeholder for a fresh slot. -/
  | indirect
  /-- Give the slot of a placeholder its target. -/
  | bind (placeholder target : Handle)

namespace Call

variable {υ σ : Type}

/-- What a call that succeeds answers. -/
inductive Answer where
  /-- An entry was made, with this handle. -/
  | made (handle : Handle)
  /-- A slot was bound. -/
  | bound
deriving DecidableEq, Repr

/-- The computation that a call stands for. -/
def toBuild : Call υ σ → Build υ σ Answer
  | add request => .made <$> Build.add request
  | indirect => .made <$> Build.indirect
  | bind placeholder target => (fun _ => .bound) <$> Build.bindIndirect placeholder target

end Call

namespace Builder

variable {υ σ : Type}

/-- Performs a call: its answer, and the builder afterwards. -/
def perform (b : Builder υ σ) (call : Call υ σ) : Except GrammarError Call.Answer × Builder υ σ :=
  call.toBuild.run.run b

/-- Performs calls one after the other: an answer to each, and the builder after the last. -/
def performAll (b : Builder υ σ) :
    List (Call υ σ) → List (Except GrammarError Call.Answer) × Builder υ σ
  | [] => ([], b)
  | call :: calls =>
    let (answer, b) := b.perform call
    let (answers, b) := b.performAll calls
    (answer :: answers, b)

end Builder

end Packrat
