import Packrat.Proofs.Engine.Recursion

/-!
# Proofs/Engine/Execution — a matcher at work on a state

A matcher is a function from a cursor and a state to a step and a state. Here are its equations in
that form, one for each thing that takes an argument: a child is matched, a callback is called, an
outcome is remembered or not, a slot is entered again, too deep, or rightly. Later proofs use these
and never unfold the engine.
-/

namespace Packrat

variable {υ σ α : Type}

/-- An entry at a cursor in the window of a state. -/
abbrev Run.site (run : Run υ σ) (index : Nat) (start : Cursor) : Site := ⟨index, start, run.limit⟩

namespace Plan

variable (self : Nat) (m : Nat → Matcher υ σ) (run : Run υ σ)

theorem run_apply (window : Option Cursor) (c : Nat) (start : Cursor)
    (next : Step υ → Plan υ σ α) :
    (apply window c start next).run self m run
      = (next (Matcher.inWindow window (m c) start run).1).run self m
          (Matcher.inWindow window (m c) start run).2 := rfl

end Plan

namespace Matcher

variable (inner : Matcher υ σ) (start : Cursor) (run : Run υ σ)

/-! ## Callbacks -/

theorem call_eq {β : Type} (self : Nat) (kind : CallbackKind) (f : Callback υ σ β) (x : Match υ) :
    call self kind f start x run
      = ((f x.shown run.host).1,
          match (f x.shown run.host).1 with
          | .ok _ =>
            { run.note (.called (run.site self start)) with host := (f x.shown run.host).2 }
          | .error e =>
            { run.note (.called (run.site self start)) with
              host := (f x.shown run.host).2 }.note (.rejected kind start e.message)) := by
  change (call self kind f start x).run run = _
  rcases h : f x.shown run.host with ⟨_ | _, host⟩ <;>
    simp only [call, StateT.run_bind, StateT.run_modify, StateT.run_modifyGet, StateT.run_pure,
      pure_bind, Run.host_note, h] <;> rfl

/-! ## Remembering -/

variable {inner start run} {node : Nat}

theorem remembered_of_some {step : Step υ} (h : run.memo[run.site node start]? = some step) :
    remembered true node inner start run
      = (step, run.note (.recalled (run.site node start) step)) := by
  simp only [remembered, if_true, bind, StateT.bind, get, getThe, MonadStateOf.get, StateT.get,
    pure, h]
  rfl

theorem remembered_of_none (h : run.memo[run.site node start]? = none) :
    remembered true node inner start run
      = ((evaluated node inner start run).1,
          (evaluated node inner start run).2.remember (run.site node start)
            (evaluated node inner start run).1) := by
  simp only [remembered, if_true, bind, StateT.bind, get, getThe, MonadStateOf.get, StateT.get,
    pure, h]
  rfl

/-! ## Following slots -/

variable {bound target : Nat} {slot : Slot}

theorem follow_of_mem {inner? : Option (Matcher υ σ)}
    (h : run.site target start ∈ run.active) :
    follow bound slot target inner? start run
      = (.error (.here (.leftRecursion slot) start),
          run.note (.leftRecursion slot (run.site target start))) := by
  simp only [follow, bind, StateT.bind, get, getThe, MonadStateOf.get, StateT.get, pure, h]
  rfl

theorem follow_none (h : run.site target start ∉ run.active) :
    follow bound slot target none start run
      = (.error (.here (.recursionLimit bound) start),
          run.note (.depthExceeded bound (run.site target start))) := by
  simp only [follow, bind, StateT.bind, get, getThe, MonadStateOf.get, StateT.get, pure, h]
  rfl

theorem follow_some (h : run.site target start ∉ run.active) :
    follow bound slot target (some inner) start run
      = ((inner start (run.enter slot (run.site target start))).1,
          (inner start (run.enter slot (run.site target start))).2.leave
            (run.site target start)) := by
  simp only [follow, bind, StateT.bind, get, getThe, MonadStateOf.get, StateT.get, pure, h]
  rfl

end Matcher

end Packrat
