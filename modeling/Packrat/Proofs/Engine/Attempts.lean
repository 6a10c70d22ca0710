import Packrat.Proofs.Semantics.Integers

/-!
# Proofs/Engine/Attempts — one item after the other

A counted repetition and a row of the same item make the same attempts: they follow the item so
many times, each from where the one before stopped, until it fails (`Attempts`). Only the place that
they tell of differs then (`Exec.attempts`, `Attempts.exec_row`), because the failure has got as far
as both places (`Fail.Within.reportedAt_eq`).

What has been told so far, and counted, has no influence on what is done next (`Exec.retold`).
-/

namespace Packrat

variable {υ σ : Type}

/-! ## Failures told of another place -/

/-- The failure with another position, and nothing else changed. -/
def Fail.movedTo (f : Fail) (position : Cursor) : Fail := { f with position }

/-- The outcome with its failure, if it is one, at another position. -/
def Step.movedTo (step : Step υ) (position : Cursor) : Step υ := step.mapError (·.movedTo position)

/-- The outcome as it is reported at a place. -/
def Step.reportedAt (step : Step υ) (position : Cursor) : Step υ :=
  step.mapError (·.reportedAt position)

/-- A failure behind a cursor got as far as that at least, so reporting it there only moves it. -/
theorem Fail.Within.reportedAt_eq {start cursor limit : Cursor} {f : Fail}
    (h : f.Within cursor limit) (hstart : start.Spans cursor) :
    f.reportedAt start = f.movedTo start := by
  have hle : start ≤ f.deepest := (hstart.trans (h.before.trans h.between)).le
  have hmax : max f.deepest start = f.deepest := Std.LawfulOrderLeftLeaningMax.max_eq_left _ _ hle
  rw [Fail.reportedAt, hmax, Fail.movedTo]

/-! ## Attempts -/

/-- An item is attempted so many times, each time where it stopped before, until it fails. The last
attempt, if it failed, was made at `last`, and otherwise `last` is where they all ended. -/
inductive Attempts (A : Applies υ σ) (item : Nat) :
    Nat → Cursor → Array (Value υ) → Run υ σ → Step υ → (last : Cursor) → Run υ σ → Prop
  /-- Nothing more is to be attempted. -/
  | all {cursor values run} : Attempts A item 0 cursor values run
      (.ok (.of cursor (.sequence values.toList))) cursor run
  /-- The item fails. -/
  | short {count cursor values run f run'} (h : A item cursor run (.error f) run') :
      Attempts A item (count + 1) cursor values run (.error f) cursor run'
  /-- The item matches. -/
  | more {count cursor values run m run' step last run''} (h : A item cursor run (.ok m) run')
      (hrest : Attempts A item count m.stop (m.collect values) run' step last run'') :
      Attempts A item (count + 1) cursor values run step last run''

namespace Grammar

variable {g : Grammar υ σ} {config : Config} {input : Input} {budget self item count : Nat}
  {start cursor : Cursor} {values : Array (Value υ)} {run run' run'' : Run υ σ} {step : Step υ}

/-! ## Counted repetitions and rows -/

/-- **A counted repetition makes its attempts**, and reports the failure where it was made. -/
theorem Exec.attempts (h : g.Exec config input budget
      (.plan self (Rule.repeatFrom (.child item) count cursor values)) run step run') :
    ∃ raw last, Attempts (g.applies config input budget) item count cursor values run raw last run'
      ∧ step = raw.reportedAt last := by
  induction count generalizing cursor values run with
  | zero =>
    obtain ⟨rfl, rfl⟩ := Exec.of_done h
    exact ⟨_, cursor, .all, rfl⟩
  | succ count ih =>
    obtain ⟨s, run₁, hitem, ⟨f, rfl, rfl, rfl⟩ | ⟨m, rfl, hrest⟩⟩ := Exec.andThen_child h
    · exact ⟨_, cursor, .short hitem, rfl⟩
    · obtain ⟨raw, last, hattempts, rfl⟩ := ih hrest
      exact ⟨raw, last, .more hitem hattempts, rfl⟩

/-- A part of a row that fails ends the row. -/
theorem Exec.andThen_error {c : Nat} {next : Match υ → Plan υ σ (Step υ)} {f : Fail}
    (h : g.applies config input budget c cursor run (.error f) run') :
    g.Exec config input budget (.plan self (Rule.andThen start (.child c) cursor next)) run
      (.error (f.reportedAt start)) run' := by
  have hback : run'.withLimit run.limit = run' := h.agrees.withLimit_eq
  rw [← hback]
  cases hf : f.isFatal with
  | true => exact .abort h hf rfl rfl
  | false =>
    have hcalm : Step.fatal? (.error f : Step υ) = none := Step.fatal?_error_eq_none.2 hf
    exact .apply h hcalm (.done (Step.fatal?_error_eq_none.2 hf))

/-- Behind a part that matches the row goes on. -/
theorem Exec.andThen_ok {c : Nat} {next : Match υ → Plan υ σ (Step υ)} {m : Match υ}
    (h : g.applies config input budget c cursor run (.ok m) run')
    (hnext : g.Exec config input budget (.plan self (next m)) run' step run'') :
    g.Exec config input budget (.plan self (Rule.andThen start (.child c) cursor next)) run
      step run'' := by
  have hback : run'.withLimit run.limit = run' := h.agrees.withLimit_eq
  exact .apply h rfl (hback.symm ▸ hnext)

end Grammar

namespace Attempts

variable {g : Grammar υ σ} {config : Config} {input : Input} {budget self item count : Nat}
  {start cursor last : Cursor} {values : Array (Value υ)} {run run' : Run υ σ} {step : Step υ}

/-- **A row of the same item makes the same attempts**, and reports the failure where it began. -/
theorem exec_row
    (h : Attempts (g.applies config input budget) item count cursor values run step last run') :
    g.Exec config input budget (.plan self (Rule.sequenceFrom start
      ((List.replicate count item).map .child) cursor values)) run (step.reportedAt start)
      run' := by
  induction h with
  | all => exact .done rfl
  | short h => exact Grammar.Exec.andThen_error h
  | more h hrest ih => exact Grammar.Exec.andThen_ok h ih

/-- Attempts are made inside the window, and a failure lies behind the last of them. -/
theorem inBounds
    (h : Attempts (g.applies config input budget) item count cursor values run step last run')
    (hcursor : cursor.Spans run.limit) (hrun : run.InBounds input) :
    cursor.Spans last ∧ Step.Within last run.limit step := by
  induction h with
  | all => exact ⟨hcursor.self, hcursor.self, hcursor⟩
  | short h => exact ⟨hcursor.self, (h.inBounds ⟨rfl, hcursor⟩ hrun).1⟩
  | more h hrest ih =>
    obtain ⟨⟨hstop, hlimit⟩, hrun'⟩ := h.inBounds ⟨rfl, hcursor⟩ hrun
    rw [← h.agrees.limit] at hlimit ⊢
    obtain ⟨hlast, hstep⟩ := ih hlimit hrun'
    exact ⟨hstop.trans hlast, hstep⟩

end Attempts

/-! ## What has been told -/

/-- The states are the same but for what has been told and counted. -/
def Run.Retold (run twin : Run υ σ) : Prop := ∃ stats trace, twin = { run with stats, trace }

theorem Run.retold_note (run : Run υ σ) (e : Event υ) : run.Retold (run.note e) := ⟨_, _, rfl⟩

theorem Run.Retold.symm {run twin : Run υ σ} (h : run.Retold twin) : twin.Retold run := by
  obtain ⟨stats, trace, rfl⟩ := h
  exact ⟨run.stats, run.trace, rfl⟩

theorem Run.Retold.trans {a b c : Run υ σ} (hab : a.Retold b) (hbc : b.Retold c) : a.Retold c := by
  obtain ⟨stats, trace, rfl⟩ := hab
  obtain ⟨stats', trace', rfl⟩ := hbc
  exact ⟨stats', trace', rfl⟩

/-- A callback answers alike, and leaves the like. -/
theorem Matcher.call_retold {β : Type} (self : Nat) (kind : CallbackKind) (f : Callback υ σ β)
    (start : Cursor) (m : Match υ) {run twin : Run υ σ} (h : run.Retold twin) :
    (Matcher.call self kind f start m twin).1 = (Matcher.call self kind f start m run).1
      ∧ (Matcher.call self kind f start m run).2.Retold
        (Matcher.call self kind f start m twin).2 := by
  obtain ⟨stats, trace, rfl⟩ := h
  rw [Matcher.call_eq, Matcher.call_eq]
  refine ⟨rfl, ?_⟩
  dsimp only
  cases (f m.shown run.host).1 with
  | ok a => exact ⟨_, _, rfl⟩
  | error e => exact ⟨_, _, rfl⟩

namespace Grammar

variable {g : Grammar υ σ} {config : Config} {input : Input} {budget : Nat} {task : Task υ σ}
  {run run' twin : Run υ σ} {step : Step υ}

/-- **What has been told has no influence**: the same is done, and the same is left. -/
theorem Exec.retold (h : g.Exec config input budget task run step run') (htwin : run.Retold twin) :
    ∃ twin', g.Exec config input budget task twin step twin' ∧ run'.Retold twin' := by
  induction h generalizing twin with
  | recalled hm he hs =>
    obtain ⟨stats, trace, rfl⟩ := htwin
    exact ⟨_, .recalled hm he hs, _, _, rfl⟩
  | stored hm he hs h ih =>
    obtain ⟨stats, trace, rfl⟩ := htwin
    obtain ⟨_, h', stats', trace', rfl⟩ := ih ⟨_, _, rfl⟩
    exact ⟨_, .stored hm he hs h', _, _, rfl⟩
  | fresh hm he h ih =>
    obtain ⟨stats, trace, rfl⟩ := htwin
    obtain ⟨_, h', stats', trace', rfl⟩ := ih ⟨_, _, rfl⟩
    exact ⟨_, .fresh hm he h', _, _, rfl⟩
  | reentered he ht ha =>
    obtain ⟨stats, trace, rfl⟩ := htwin
    exact ⟨_, .reentered he ht ha, _, _, rfl⟩
  | tooDeep he ht ha =>
    obtain ⟨stats, trace, rfl⟩ := htwin
    exact ⟨_, .tooDeep he ht ha, _, _, rfl⟩
  | entered he ht ha h ih =>
    obtain ⟨stats, trace, rfl⟩ := htwin
    obtain ⟨_, h', stats', trace', rfl⟩ := ih ⟨_, _, rfl⟩
    exact ⟨_, .entered he ht ha h', _, _, rfl⟩
  | done hf => exact ⟨twin, .done hf, htwin⟩
  | look h ih =>
    obtain ⟨stats, trace, rfl⟩ := htwin
    obtain ⟨twin', h', htwin'⟩ := ih ⟨_, _, rfl⟩
    exact ⟨twin', .look h', htwin'⟩
  | abort h hf hnext hkind ih =>
    obtain ⟨stats, trace, rfl⟩ := htwin
    obtain ⟨_, h', stats', trace', rfl⟩ := ih ⟨_, _, rfl⟩
    exact ⟨_, .abort h' hf hnext hkind, _, _, rfl⟩
  | apply h hf hnext ihChild ihNext =>
    obtain ⟨stats, trace, rfl⟩ := htwin
    obtain ⟨_, h', stats', trace', rfl⟩ := ihChild ⟨_, _, rfl⟩
    obtain ⟨twin', hnext', htwin'⟩ := ihNext ⟨_, _, rfl⟩
    exact ⟨twin', .apply h' hf hnext', htwin'⟩
  | @call budget self run β kind start m next step run' f hnext ih =>
    obtain ⟨hanswer, hcall⟩ := Matcher.call_retold self kind f start m htwin
    obtain ⟨twin', hnext', htwin'⟩ := ih hcall
    exact ⟨twin', .call (hanswer.symm ▸ hnext'), htwin'⟩

end Grammar

/-- The same attempts are made. -/
theorem Attempts.retold {g : Grammar υ σ} {config : Config} {input : Input}
    {budget item count : Nat} {cursor last : Cursor} {values : Array (Value υ)}
    {run run' twin : Run υ σ} {step : Step υ}
    (h : Attempts (g.applies config input budget) item count cursor values run step last run')
    (htwin : run.Retold twin) :
    ∃ twin', Attempts (g.applies config input budget) item count cursor values twin step last twin'
      ∧ run'.Retold twin' := by
  induction h generalizing twin with
  | all => exact ⟨twin, .all, htwin⟩
  | short h =>
    obtain ⟨twin', h', htwin'⟩ := Grammar.Exec.retold h htwin
    exact ⟨twin', .short h', htwin'⟩
  | more h hrest ih =>
    obtain ⟨twin', h', htwin'⟩ := Grammar.Exec.retold h htwin
    obtain ⟨twin'', hrest', htwin''⟩ := ih htwin'
    exact ⟨twin'', .more h' hrest', htwin''⟩

end Packrat
