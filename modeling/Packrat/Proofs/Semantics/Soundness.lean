import Packrat.Proofs.Engine.Start
import Packrat.Proofs.Semantics.Settles

/-!
# Proofs/Semantics/Soundness — what the engine finds is so

The engine remembers outcomes, keeps the targets that it follows, and counts slots. None of it
shows: an outcome that is not fatal is the outcome of the entry, and left recursion is reported only
where there is no outcome.

Two invariants carry this. What is remembered are outcomes (`Run.Sound`). And whatever target is
being followed *demands* what is carried out now: it has no outcome unless that has one, of no
greater height (`Run.Demands`). So a target that is followed again where it stands would have an
outcome of smaller height whenever it has one, and therefore has none.
-/

namespace Packrat

variable {υ σ : Type}

/-- The task ends in this outcome, by rules nested less than `n` deep. -/
def Task.EndsIn (g : Grammar υ σ) (input : Input) (n : Nat) (limit : Cursor) :
    Task υ σ → Step υ → Prop
  | entry i start, step => g.SettlesIn input n i start limit step
  | plan _ p, step => p.Yields (g.SettlesIn input n) limit step

/-- A plan that is carried out is strict and calls pure callbacks. -/
def Task.Pure : Task υ σ → Prop
  | entry .. => True
  | plan _ p => p.Strict (fun _ => True) fun _ f => f.IsPure

variable {g : Grammar υ σ} {config : Config} {input : Input} {task : Task υ σ} {limit : Cursor}
  {run run' : Run υ σ} {step : Step υ}

theorem Task.EndsIn.mono {n m : Nat} (hnm : n ≤ m) (h : task.EndsIn g input n limit step) :
    task.EndsIn g input m limit step := by
  cases task with
  | entry i start => exact Grammar.SettlesIn.mono hnm h
  | plan self p => exact Plan.Yields.mono h fun _ _ _ _ => Grammar.SettlesIn.mono hnm

/-- What is left of a plan behind a child whose outcome is known. -/
theorem Task.EndsIn.rest (hpure : g.PureCallbacks) {n k self c : Nat} {window : Option Cursor}
    {start : Cursor} {next : Step υ → Plan υ σ (Step υ)} {s : Step υ}
    (hchild : g.SettlesIn input k c start (window.getD limit) s)
    (h : (Task.plan self (.apply window c start next)).EndsIn g input n limit step) :
    (Task.plan self (next s)).EndsIn g input n limit step := by
  obtain ⟨s', hs', hnext⟩ := h
  obtain rfl := Grammar.SettlesIn.unique hpure hchild hs'
  exact hnext

/-- What is left of a plan behind a pure callback whose answer is known. -/
theorem Task.EndsIn.answered {β : Type} {n self : Nat} {kind : CallbackKind} {f : Callback υ σ β}
    {start : Cursor} {m : Match υ} {next : Except CallbackError β → Plan υ σ (Step υ)}
    {a : Except CallbackError β} (hf : f.IsPure) (ha : f.Answers m.shown a)
    (h : (Task.plan self (.call kind f start m next)).EndsIn g input n limit step) :
    (Task.plan self (next a)).EndsIn g input n limit step := by
  obtain ⟨a', ha', hnext⟩ := h
  obtain rfl := hf.unique ha ha'
  exact hnext

theorem Matcher.answers_call {β : Type} (self : Nat) (kind : CallbackKind) (f : Callback υ σ β)
    (start : Cursor) (m : Match υ) (run : Run υ σ) :
    f.Answers m.shown (Matcher.call self kind f start m run).1 := by
  rw [Matcher.call_eq]
  exact ⟨run.host, rfl⟩

/-! ## The invariants -/

/-- What is remembered are outcomes. -/
def Run.Sound (g : Grammar υ σ) (input : Input) (run : Run υ σ) : Prop :=
  ∀ (site : Site) step, run.memo[site]? = some step →
    g.Settles input site.node site.start site.limit step

/-- No target that is followed has an outcome unless the task has one, of no greater height. -/
def Run.Demands (g : Grammar υ σ) (input : Input) (run : Run υ σ) (task : Task υ σ) : Prop :=
  ∀ site ∈ run.active, ∀ n step, g.SettlesIn input n site.node site.start site.limit step →
    ∃ m ≤ n, ∃ step', task.EndsIn g input m run.limit step'

/-- What an outcome says about the task: it is the task's outcome, or it is the bound on slots, or
there is no outcome. -/
structure Task.Judged (g : Grammar υ σ) (config : Config) (input : Input) (task : Task υ σ)
    (limit : Cursor) (step : Step υ) : Prop where
  settled : Step.fatal? step = none → ∃ n, task.EndsIn g input n limit step
  stuck : ∀ kind, Step.fatal? step = some kind →
    kind = .recursionLimit config.maxRecursionDepth ∨
      ∀ n step', ¬task.EndsIn g input n limit step'

theorem Run.Sound.remember (h : run.Sound g input) {site : Site}
    (hstep : g.Settles input site.node site.start site.limit step) :
    (run.remember site step).Sound g input := by
  intro site' step' hs
  obtain ⟨rfl, rfl⟩ | hs := memo_remember_cases _ _ _ hs
  · exact hstep
  · exact h site' step' hs

/-- A demand is passed on to a task that is needed. -/
theorem Run.Demands.pass {task' : Task υ σ} (h : run.Demands g input task)
    (hactive : run'.active = run.active)
    (hneeds : ∀ n step, task.EndsIn g input n run.limit step →
      ∃ m ≤ n, ∃ step', task'.EndsIn g input m run'.limit step') : run'.Demands g input task' := by
  intro site hsite n step hs
  rw [hactive] at hsite
  obtain ⟨m, hmn, step', hstep'⟩ := h site hsite n step hs
  obtain ⟨k, hkm, hk⟩ := hneeds m step' hstep'
  exact ⟨k, Nat.le_trans hkm hmn, hk⟩

/-- A combinator needs its plan. -/
theorem Run.Demands.evaluate {i : Nat} {node : Node Nat υ σ} {start : Cursor} {e : Event υ}
    (he : g.entries[i]? = some (.node node)) (h : run.Demands g input (.entry i start)) :
    (run.note e).Demands g input (.plan i (node.rule input start)) := by
  refine h.pass rfl fun n step hn => ?_
  cases n with
  | zero => exact hn.elim
  | succ n => exact ⟨n, Nat.le_succ n, step, (Grammar.settlesIn_node he).1 hn⟩

/-- A placeholder needs its target, and so does the target itself. -/
theorem Run.Demands.enter {i target : Nat} {slot : Slot} {start : Cursor}
    (he : g.entries[i]? = some (.indirect slot)) (ht : g.targets[slot.index]? = some target)
    (h : run.Demands g input (.entry i start)) :
    (run.enter slot (run.site target start)).Demands g input (.entry target start) := by
  intro site hsite n step hs
  obtain rfl | hsite := List.mem_cons.1 hsite
  · exact ⟨n, Nat.le_refl n, step, hs⟩
  · obtain ⟨m, hmn, step', hm⟩ := h site hsite n step hs
    cases m with
    | zero => exact hm.elim
    | succ m => exact ⟨m, Nat.le_of_succ_le hmn, step', (Grammar.settlesIn_indirect he ht).1 hm⟩

/-- A plan needs the child that it matches next. -/
theorem Run.Demands.child {self c : Nat} {window : Option Cursor} {start : Cursor}
    {next : Step υ → Plan υ σ (Step υ)}
    (h : run.Demands g input (.plan self (.apply window c start next))) :
    (run.withLimit (window.getD run.limit)).Demands g input (.entry c start) := by
  refine h.pass rfl fun n step hn => ?_
  obtain ⟨s, hs, -⟩ := hn
  exact ⟨n, Nat.le_refl n, s, hs⟩

/-- Behind a child whose outcome is known a plan needs what is left of it. -/
theorem Run.Demands.rest (hpure : g.PureCallbacks) {k self c : Nat} {window : Option Cursor}
    {start : Cursor} {next : Step υ → Plan υ σ (Step υ)}
    (hchild : g.SettlesIn input k c start (window.getD run.limit) step)
    (hactive : run'.active = run.active)
    (h : run.Demands g input (.plan self (.apply window c start next))) :
    (run'.withLimit run.limit).Demands g input (.plan self (next step)) :=
  h.pass hactive fun n step' hn => ⟨n, Nat.le_refl n, step', hn.rest hpure hchild⟩

/-- Behind a pure callback a plan needs what is left of it. -/
theorem Run.Demands.answered {β : Type} {self : Nat} {kind : CallbackKind} {f : Callback υ σ β}
    {start : Cursor} {m : Match υ} {next : Except CallbackError β → Plan υ σ (Step υ)}
    (hf : f.IsPure)
    (h : run.Demands g input (.plan self (.call kind f start m next))) :
    (Matcher.call self kind f start m run).2.Demands g input
      (.plan self (next (Matcher.call self kind f start m run).1)) := by
  have hagrees := Matcher.call_agrees self kind f start m run
  refine h.pass hagrees.active fun n step hn => ⟨n, Nat.le_refl n, step, ?_⟩
  rw [hagrees.limit]
  exact hn.answered hf (Matcher.answers_call ..)

theorem Run.Sound.call {β : Type} {self : Nat} {kind : CallbackKind} {f : Callback υ σ β}
    {start : Cursor} {m : Match υ} (h : run.Sound g input) :
    (Matcher.call self kind f start m run).2.Sound g input := by
  rw [Run.Sound, Matcher.memo_call]
  exact h

/-- **What demands itself has no outcome.** -/
theorem not_settlesIn_of_descent {i : Nat} {start limit : Cursor}
    (h : ∀ n step, g.SettlesIn input n i start limit step →
      ∃ m < n, ∃ step', g.SettlesIn input m i start limit step') (n : Nat) (step : Step υ) :
    ¬g.SettlesIn input n i start limit step := by
  induction n using Nat.strongRecOn generalizing step with
  | ind n ih =>
    intro hs
    obtain ⟨m, hm, step', hs'⟩ := h n step hs
    exact ih m hm step' hs'

/-! ## What is found -/

namespace Grammar

/-- **What is carried out ends as it may**, unless it fails for good, and what is remembered
afterwards are outcomes. Callbacks may answer as they like: an outcome is one for some answers. -/
theorem Exec.settles {budget : Nat} (h : g.Exec config input budget task run step run')
    (hsound : run.Sound g input) (hf : Step.fatal? step = none) :
    (∃ n, task.EndsIn g input n run.limit step) ∧ run'.Sound g input := by
  induction h with
  | recalled hm he hs => exact ⟨hsound _ _ hs, hsound⟩
  | stored hm he hs h ih =>
    obtain ⟨⟨n, hn⟩, hsound'⟩ := ih hsound hf
    have hentry := (settlesIn_node he).2 hn
    exact ⟨⟨n + 1, hentry⟩, Run.Sound.remember hsound' ⟨n + 1, hentry⟩⟩
  | fresh hm he h ih =>
    obtain ⟨⟨n, hn⟩, hsound'⟩ := ih hsound hf
    exact ⟨⟨n + 1, (settlesIn_node he).2 hn⟩, hsound'⟩
  | reentered => cases hf
  | tooDeep => cases hf
  | entered he ht ha h ih =>
    obtain ⟨⟨n, hn⟩, hsound'⟩ := ih hsound hf
    exact ⟨⟨n + 1, (settlesIn_indirect he ht).2 hn⟩, hsound'⟩
  | done => exact ⟨⟨0, rfl⟩, hsound⟩
  | look h ih =>
    obtain ⟨⟨n, hn⟩, hsound'⟩ := ih hsound hf
    exact ⟨⟨n, hn⟩, hsound'⟩
  | abort h hfatal hnext hkind =>
    exact absurd hf (Step.fatal?_ne_none hfatal hkind)
  | @apply budget self run window c start next s run' step run'' h hs hnext ihChild ihNext =>
    obtain ⟨⟨k, hk⟩, hsound'⟩ := ihChild hsound hs
    obtain ⟨⟨n, hn⟩, hsound''⟩ := ihNext hsound' hf
    exact ⟨⟨max k n, s, Task.EndsIn.mono (Nat.le_max_left ..) hk,
      Task.EndsIn.mono (Nat.le_max_right ..) hn⟩, hsound''⟩
  | @call budget self run β kind start m next step run' f hnext ih =>
    obtain ⟨⟨n, hn⟩, hsound'⟩ := ih hsound.call hf
    rw [(Matcher.call_agrees self kind f start m run).limit] at hn
    exact ⟨⟨n, _, Matcher.answers_call self kind f start m run, hn⟩, hsound'⟩

/-! ## What is not found -/

section

variable {i : Nat} {start : Cursor}

/-- Without an outcome of its plan a combinator has none. -/
theorem not_endsIn_node {node : Node Nat υ σ} (he : g.entries[i]? = some (.node node))
    (h : ∀ n step, ¬(Task.plan i (node.rule input start)).EndsIn g input n limit step) (n : Nat)
    (step : Step υ) : ¬(Task.entry i start : Task υ σ).EndsIn g input n limit step := by
  intro hs
  cases n with
  | zero => exact hs
  | succ n => exact h n step ((settlesIn_node he).1 hs)

/-- Without an outcome of its target a placeholder has none. -/
theorem not_endsIn_indirect {slot : Slot} {target : Nat}
    (he : g.entries[i]? = some (.indirect slot)) (ht : g.targets[slot.index]? = some target)
    (h : ∀ n step, ¬g.SettlesIn input n target start limit step) (n : Nat) (step : Step υ) :
    ¬(Task.entry i start : Task υ σ).EndsIn g input n limit step := by
  intro hs
  cases n with
  | zero => exact hs
  | succ n => exact h n step ((settlesIn_indirect he ht).1 hs)

end

/-- **What fails for good has no outcome**, unless slots were entered too deep. -/
theorem Exec.stuck (hpure : g.PureCallbacks) {budget : Nat}
    (h : g.Exec config input budget task run step run') (htask : task.Pure)
    (hsound : run.Sound g input) (hdemands : run.Demands g input task) {kind : FailureKind}
    (hkind : Step.fatal? step = some kind) :
    kind = .recursionLimit config.maxRecursionDepth ∨
      ∀ n step', ¬task.EndsIn g input n run.limit step' := by
  induction h with
  | recalled hm he hs =>
    obtain ⟨n, hn⟩ := hsound _ _ hs
    cases hn.fatal?_eq_none.symm.trans hkind
  | @stored budget i start run node step run' hm he hs h ih =>
    obtain hlimit | hnone := ih (node.strict_rule input (fun _ _ => trivial) (hpure i node he) start)
      hsound (hdemands.evaluate he) hkind
    · exact .inl hlimit
    · exact .inr (not_endsIn_node he hnone)
  | @fresh budget i start run node step run' hm he h ih =>
    obtain hlimit | hnone := ih (node.strict_rule input (fun _ _ => trivial) (hpure i node he) start)
      hsound (hdemands.evaluate he) hkind
    · exact .inl hlimit
    · exact .inr (not_endsIn_node he hnone)
  | @reentered budget i start run slot target he ht ha =>
    -- The target demands the placeholder, and the placeholder is higher by one than the target.
    refine .inr (not_endsIn_indirect he ht (not_settlesIn_of_descent fun n step hs => ?_))
    obtain ⟨m, hmn, step', hm⟩ := hdemands _ ha n step hs
    cases m with
    | zero => exact hm.elim
    | succ m => exact ⟨m, hmn, step', (settlesIn_indirect he ht).1 hm⟩
  | tooDeep => exact .inl (Option.some.inj hkind).symm
  | entered he ht ha h ih =>
    obtain hlimit | hnone := ih trivial hsound (hdemands.enter he ht) hkind
    · exact .inl hlimit
    · exact .inr (not_endsIn_indirect he ht hnone)
  | done hf => cases hf.symm.trans hkind
  | look h ih => exact ih (htask _) hsound hdemands hkind
  | abort h hf hnext hkind' ih =>
    rw [Step.fatal?_error_congr hkind'] at hkind
    refine (ih trivial hsound hdemands.child hkind).imp_right fun hnone n step' hn => ?_
    obtain ⟨s, hs, -⟩ := hn
    exact hnone n s hs
  | apply h hf hnext ihChild ihNext =>
    obtain ⟨⟨k, hk⟩, hsound'⟩ := h.settles hsound hf
    -- The memo is sound again and the targets are the same, so the rest starts as the plan did.
    refine (ihNext (htask.2.2 _ hf) hsound' (hdemands.rest hpure hk h.agrees.active)
      hkind).imp_right fun hnone n step' hn => ?_
    exact hnone n step' (hn.rest hpure hk)
  | @call budget self run β kind' start m next step run' f hnext ih =>
    have hanswer := Matcher.answers_call self kind' f start m run
    have hrest := ih (htask.2 _) hsound.call (hdemands.answered htask.1) hkind
    rw [(Matcher.call_agrees self kind' f start m run).limit] at hrest
    exact hrest.imp_right fun hnone n step' hn => hnone n step' (hn.answered htask.1 hanswer)

/-- **What is carried out is judged rightly**, and what is remembered afterwards are outcomes,
unless the run is over. -/
theorem Exec.judged (hpure : g.PureCallbacks) {budget : Nat}
    (h : g.Exec config input budget task run step run') (htask : task.Pure)
    (hsound : run.Sound g input) (hdemands : run.Demands g input task) :
    task.Judged g config input run.limit step ∧
      (Step.fatal? step = none → run'.Sound g input) :=
  ⟨⟨fun hf => (h.settles hsound hf).1, fun _ => h.stuck hpure htask hsound hdemands⟩,
    fun hf => (h.settles hsound hf).2⟩

/-- In a fresh state nothing is remembered, and nothing is demanded. -/
theorem fresh_sound (g : Grammar υ σ) (input : Input) (host : σ) :
    (Run.fresh input host : Run υ σ).Sound g input := by
  intro site step hs
  exact nomatch Run.memo_fresh.symm.trans hs

theorem fresh_demands (g : Grammar υ σ) (input : Input) (host : σ) (task : Task υ σ) :
    (Run.fresh input host : Run υ σ).Demands g input task :=
  fun _ hsite => nomatch hsite

/-- The callback of nested parentheses computes its answer from the value alone. -/
theorem pureCallbacks_parens : parens.PureCallbacks := by
  intro i node he
  have hmem := Array.mem_of_getElem? he
  simp only [parens, List.mem_toArray, List.mem_cons, Entry.node.injEq, reduceCtorEq,
    List.not_mem_nil, or_false, false_or] at hmem
  obtain rfl | rfl | rfl | rfl | rfl := hmem
  · trivial
  · trivial
  · trivial
  · trivial
  · exact Callback.isPure_ofFunction _

end Grammar

end Packrat
