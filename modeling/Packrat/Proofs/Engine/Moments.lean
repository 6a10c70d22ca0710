import Mathlib.Logic.Relation
import Packrat.Proofs.Engine.Bounds

/-!
# Proofs/Engine/Moments — what a run passes through

`Exec` tells how things end. What happens in between is told by moments: a `Moment` is a task that
is about to be carried out, in a state and with so many more slots to enter. One moment leads to the
next (`Grammar.Leads`) when its task starts another one, or goes on behind a child that has been
matched; a run passes through whatever its first moment leads to (`Grammar.Passes`).

What leads on keeps a property of moments, so that the property holds of all of them
(`Passes.invariant`). The first such fact is that every moment is in bounds (`Passes.inBounds`).
-/

namespace Packrat

variable {υ σ : Type}

/-- A task that is about to be carried out, with `budget` more slots to enter. -/
structure Moment (υ σ : Type) : Type 1 where
  budget : Nat
  task : Task υ σ
  run : Run υ σ

namespace Grammar

section

variable (g : Grammar υ σ) (config : Config) (input : Input)

/-- One moment leads to the next: a task starts another one, or a plan goes on. -/
inductive Leads : Moment υ σ → Moment υ σ → Prop
  /-- A combinator is matched whose outcome is not remembered. -/
  | evaluated {budget i start run n} (he : g.entries[i]? = some (.node n))
      (hs : config.memoize = true → run.memo[run.site i start]? = none) :
      Leads ⟨budget, .entry i start, run⟩
        ⟨budget, .plan i (n.rule input start), run.note (.evaluated (run.site i start))⟩
  /-- A slot is followed to its target. -/
  | entered {budget i start run slot target} (he : g.entries[i]? = some (.indirect slot))
      (ht : g.targets[slot.index]? = some target) (ha : run.site target start ∉ run.active) :
      Leads ⟨budget + 1, .entry i start, run⟩
        ⟨budget, .entry target start, run.enter slot (run.site target start)⟩
  /-- A plan looks where the window ends. -/
  | look {budget self run next} :
      Leads ⟨budget, .plan self (.look next), run⟩ ⟨budget, .plan self (next run.limit), run⟩
  /-- A child is about to be matched. -/
  | child {budget self run window c start next} :
      Leads ⟨budget, .plan self (.apply window c start next), run⟩
        ⟨budget, .entry c start, run.withLimit (window.getD run.limit)⟩
  /-- A child has been matched, and the plan goes on. -/
  | rest {budget self run window c start next step run'}
      (h : g.Exec config input budget (.entry c start) (run.withLimit (window.getD run.limit))
        step run')
      (hf : Step.fatal? step = none) :
      Leads ⟨budget, .plan self (.apply window c start next), run⟩
        ⟨budget, .plan self (next step), run'.withLimit run.limit⟩
  /-- A callback has been called, and the plan goes on. -/
  | called {budget self run β kind start m next} {f : Callback υ σ β} :
      Leads ⟨budget, .plan self (.call kind f start m next), run⟩
        ⟨budget, .plan self (next (Matcher.call self kind f start m run).1),
          (Matcher.call self kind f start m run).2⟩

/-- The moment in which a run starts. -/
def first (root : Handle) (host : σ) : Moment υ σ :=
  ⟨config.maxRecursionDepth, .entry root.index .start, .fresh input host⟩

/-- One moment leads to another by and by. -/
abbrev Reaches : Moment υ σ → Moment υ σ → Prop := Relation.ReflTransGen (g.Leads config input)

/-- The run passes through the moment. -/
def Passes (root : Handle) (host : σ) (moment : Moment υ σ) : Prop :=
  g.Reaches config input (first config input root host) moment

end

variable {g : Grammar υ σ} {config : Config} {input : Input} {root : Handle} {host : σ}
  {moment : Moment υ σ}

/-- **What holds at first and is kept by what leads on holds at every moment of a run.** -/
theorem Passes.invariant {P : Moment υ σ → Prop}
    (hpass : g.Passes config input root host moment) (hfirst : P (first config input root host))
    (hleads : ∀ {a b}, P a → g.Leads config input a b → P b) : P moment := by
  induction hpass with
  | refl => exact hfirst
  | tail _ hstep ih => exact hleads ih hstep

end Grammar

/-! ## Moments and events -/

/-- What a callback adds to the trace. -/
theorem Matcher.trace_call {β : Type} (self : Nat) (kind : CallbackKind) (f : Callback υ σ β)
    (start : Cursor) (m : Match υ) (run : Run υ σ) :
    ∃ events, (Matcher.call self kind f start m run).2.trace.toList = run.trace.toList ++ events
      ∧ ∀ e ∈ events, e = .called (run.site self start)
        ∨ ∃ message, e = .rejected kind start message := by
  rw [Matcher.call_eq]
  dsimp only
  split
  · refine ⟨[.called (run.site self start)], ?_, by simp⟩
    rw [Run.trace_note, Array.toList_push]
  · next err _ =>
    refine ⟨[.called (run.site self start), .rejected kind start err.message], ?_, by simp⟩
    simp only [Run.trace_note, Array.toList_push, List.append_assoc, List.cons_append,
      List.nil_append]

namespace Grammar

/-- The event is one that the moment's task brings about itself. -/
inductive Tells (g : Grammar υ σ) (config : Config) (input : Input) :
    Moment υ σ → Event υ → Prop
  | evaluated {budget i start run n} (he : g.entries[i]? = some (.node n)) :
      Tells g config input ⟨budget, .entry i start, run⟩ (.evaluated (run.site i start))
  | settled {budget i start run n step run'} (he : g.entries[i]? = some (.node n))
      (h : g.Exec config input budget (.entry i start) run step run') :
      Tells g config input ⟨budget, .entry i start, run⟩ (.settled (run.site i start) step)
  | recalled {budget i start run n step} (he : g.entries[i]? = some (.node n))
      (hs : run.memo[run.site i start]? = some step) :
      Tells g config input ⟨budget, .entry i start, run⟩ (.recalled (run.site i start) step)
  | entered {budget i start run slot target} (he : g.entries[i]? = some (.indirect slot))
      (ht : g.targets[slot.index]? = some target) (ha : run.site target start ∉ run.active) :
      Tells g config input ⟨budget + 1, .entry i start, run⟩
        (.entered slot (run.site target start :: run.active) (run.depth + 1))
  | leftRecursion {budget i start run slot target} (he : g.entries[i]? = some (.indirect slot))
      (ht : g.targets[slot.index]? = some target) (ha : run.site target start ∈ run.active) :
      Tells g config input ⟨budget, .entry i start, run⟩
        (.leftRecursion slot (run.site target start))
  | depthExceeded {i start run slot target} (he : g.entries[i]? = some (.indirect slot))
      (ht : g.targets[slot.index]? = some target) (ha : run.site target start ∉ run.active) :
      Tells g config input ⟨0, .entry i start, run⟩
        (.depthExceeded config.maxRecursionDepth (run.site target start))
  | called {budget self run β kind start m next} {f : Callback υ σ β} :
      Tells g config input ⟨budget, .plan self (.call kind f start m next), run⟩
        (.called (run.site self start))
  | rejected {budget self run β kind start m next message} {f : Callback υ σ β} :
      Tells g config input ⟨budget, .plan self (.call kind f start m next), run⟩
        (.rejected kind start message)

variable {g : Grammar υ σ} {config : Config} {input : Input} {budget : Nat} {task : Task υ σ}
  {run run' : Run υ σ} {step : Step υ}

/-- An event was there before, or some moment that this one reaches brought it about. -/
def Told (g : Grammar υ σ) (config : Config) (input : Input) (moment : Moment υ σ)
    (e : Event υ) : Prop :=
  e ∈ moment.run.trace.toList ∨
    ∃ moment', g.Reaches config input moment moment' ∧ g.Tells config input moment' e

theorem Told.head {a b : Moment υ σ} {e : Event υ} (hab : g.Leads config input a b)
    (h : g.Told config input b e)
    (hnew : e ∈ b.run.trace.toList → e ∈ a.run.trace.toList ∨ g.Tells config input a e) :
    g.Told config input a e := by
  obtain he | ⟨moment, hreach, htells⟩ := h
  · exact (hnew he).imp_right fun htells => ⟨a, .refl, htells⟩
  · exact .inr ⟨moment, .head hab hreach, htells⟩

theorem Tells.of_mem_note {moment : Moment υ σ} {run : Run υ σ} {e e' : Event υ}
    (h : g.Tells config input moment e') (he : e ∈ (run.note e').trace.toList) :
    e ∈ run.trace.toList ∨ g.Tells config input moment e := by
  obtain he | rfl := (Run.mem_trace_note ..).1 he
  · exact .inl he
  · exact .inr h

theorem Told.note {moment : Moment υ σ} {run : Run υ σ} {e e' : Event υ}
    (he : e ∈ (run.note e').trace.toList)
    (h : e ∈ run.trace.toList → g.Told config input moment e)
    (htells : g.Tells config input moment e') : g.Told config input moment e := by
  obtain he | htells := htells.of_mem_note he
  · exact h he
  · exact .inr ⟨moment, .refl, htells⟩

/-- **Every event of a trace is brought about by some moment.** -/
theorem Exec.told (h : g.Exec config input budget task run step run') {e : Event υ}
    (he : e ∈ run'.trace.toList) : g.Told config input ⟨budget, task, run⟩ e := by
  induction h with
  | recalled hm hentry hs => exact .note he .inl (.recalled hentry hs)
  | @stored budget i start run n step run' hm hentry hs h ih =>
    refine .note he (fun he => ?_) (.settled hentry (.stored hm hentry hs h))
    exact (ih he).head (.evaluated hentry fun _ => hs) (Tells.evaluated hentry).of_mem_note
  | @fresh budget i start run n step run' hm hentry h ih =>
    have hplain : config.memoize = true → run.memo[run.site i start]? = none :=
      fun hmemo => nomatch hm.symm.trans hmemo
    refine .note he (fun he => ?_) (.settled hentry (.fresh hm hentry h))
    exact (ih he).head (.evaluated hentry hplain) (Tells.evaluated hentry).of_mem_note
  | reentered hentry ht ha => exact .note he .inl (.leftRecursion hentry ht ha)
  | tooDeep hentry ht ha => exact .note he .inl (.depthExceeded hentry ht ha)
  | entered hentry ht ha h ih =>
    exact (ih he).head (.entered hentry ht ha) (Tells.entered hentry ht ha).of_mem_note
  | done => exact .inl he
  | look h ih => exact (ih he).head .look .inl
  | abort h hf hnext hkind ih => exact (ih he).head .child .inl
  | @apply budget self run window c start next step run' step' run'' h hf hnext ihChild ihNext =>
    obtain he | ⟨moment, hreach, htells⟩ := ihNext he
    · exact (ihChild he).head .child .inl
    · exact .inr ⟨moment, .head (.rest h hf) hreach, htells⟩
  | @call budget self run β kind start m next step run' f hnext ih =>
    obtain ⟨events, htrace, hevents⟩ := Matcher.trace_call self kind f start m run
    refine (ih he).head .called fun he => ?_
    rw [htrace] at he
    obtain he | he := List.mem_append.1 he
    · exact .inl he
    · obtain rfl | ⟨message, rfl⟩ := hevents e he
      · exact .inr .called
      · exact .inr .rejected

end Grammar

/-! ## Moments are in bounds -/

/-- A bounded plan has a window to be bounded by. -/
theorem Plan.Bounded.spans {p : Plan υ σ (Step υ)} {start limit : Cursor}
    (h : p.Bounded start limit) : start.Spans limit := by
  induction p with
  | done step =>
    have hstep : Step.Within start limit step := h
    cases step with
    | ok m => exact hstep.1.trans hstep.2
    | error f => exact hstep.before.trans (hstep.between.trans hstep.behind)
  | look next ih => exact ih limit h
  | apply window c cursor next ih => exact h.1.trans (h.2.1.trans h.2.2.1)
  | call kind f cursor m next ih => exact ih (.error (.panicked none)) (h.2 _)

/-- The task keeps to the window, from `start` on, and all that the run knows fits the input. -/
structure Moment.InBounds (input : Input) (start : Cursor) (moment : Moment υ σ) : Prop where
  task : moment.task.Bounded start moment.run.limit
  run : moment.run.InBounds input

namespace Moment.InBounds

variable {input : Input} {start : Cursor} {moment : Moment υ σ}

theorem spans (h : moment.InBounds input start) : start.Spans moment.run.limit := by
  obtain ⟨htask, -⟩ := h
  obtain ⟨budget, task, run⟩ := moment
  cases task with
  | entry i cursor => exact htask.2
  | plan self p => exact Plan.Bounded.spans htask

end Moment.InBounds

namespace Grammar

variable {g : Grammar υ σ} {config : Config} {input : Input} {root : Handle} {host : σ}
  {a b moment : Moment υ σ} {start : Cursor}

/-- A moment in bounds leads to moments in bounds, no further back and in no wider window. -/
theorem Leads.inBounds (h : g.Leads config input a b) (ha : a.InBounds input start) :
    ∃ start', b.InBounds input start' ∧ start.Spans start' ∧ b.run.limit.Spans a.run.limit := by
  have hspans := ha.spans
  obtain ⟨htask, hrun⟩ := ha
  cases h with
  | @evaluated budget i cursor run n he hs =>
    obtain ⟨rfl, hstart⟩ := htask
    exact ⟨cursor, ⟨n.bounded_rule input run.limit cursor hstart, hrun.note (hrun.site hstart i)⟩,
      hstart.self, .refl hstart.right⟩
  | @entered budget i cursor run slot target he ht hactive =>
    obtain ⟨rfl, hstart⟩ := htask
    exact ⟨cursor, ⟨⟨rfl, hstart⟩, hrun.enter (hrun.site hstart target) slot⟩, hstart.self,
      .refl hstart.right⟩
  | look => exact ⟨start, ⟨htask, hrun⟩, hspans.self, .refl hspans.right⟩
  | child =>
    obtain ⟨hcursor, hwindow, hlimit, -⟩ := htask
    exact ⟨_, ⟨⟨rfl, hwindow⟩, hrun.withLimit (hlimit.trans hrun.limit)⟩, hcursor, hlimit⟩
  | rest h hf =>
    obtain ⟨hcursor, hwindow, hlimit, hrest⟩ := htask
    obtain ⟨hstep, hrun'⟩ := h.inBounds ⟨rfl, hwindow⟩ (hrun.withLimit (hlimit.trans hrun.limit))
    exact ⟨start, ⟨hrest _ hstep, hrun'.withLimit hrun.limit⟩, hspans.self, .refl hspans.right⟩
  | @called budget self run β kind cursor m next f =>
    -- A callback has its own state only: the window stays.
    have hlimit : (Matcher.call self kind f cursor m run).2.limit = run.limit :=
      (Matcher.call_agrees ..).limit
    refine ⟨start, ⟨?_, hrun.call htask.1⟩, hspans.self, ?_⟩
    · rw [hlimit]
      exact htask.2 _
    · rw [hlimit]
      exact .refl hspans.right

theorem first_inBounds (config : Config) (input : Input) (root : Handle) (host : σ) :
    (first config input root host : Moment υ σ).InBounds input .start :=
  ⟨⟨rfl, .of_bitPosition_le (Nat.succ_pos 7) (Nat.succ_pos 7) (Nat.zero_le _)⟩, .fresh input host⟩

/-- **Every moment of a run is in bounds.** -/
theorem Passes.inBounds (h : g.Passes config input root host moment) :
    ∃ start, moment.InBounds input start := by
  refine h.invariant (P := fun m => ∃ start, m.InBounds input start)
    ⟨_, first_inBounds config input root host⟩ ?_
  rintro a b ⟨start, ha⟩ hab
  obtain ⟨start', hb, -⟩ := hab.inBounds ha
  exact ⟨start', hb⟩

end Grammar

end Packrat
