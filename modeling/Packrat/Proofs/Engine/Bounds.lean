import Packrat.Proofs.Engine.Start
import Packrat.Proofs.Input.Machine

/-!
# Proofs/Engine/Bounds — cursors stay in the input

Every place that a run looks at is a stretch of the input, and every outcome lies within the window
it belongs to. The invariant of a run says so of the window, of the targets being followed, of what
is remembered and of all that happened (`Run.InBounds`); bounded plans keep it, and all rules make
bounded plans.
-/

namespace Packrat

variable {υ σ : Type} {input : Input}

/-! ## The invariant -/

/-- The place is a stretch of the input: the cursor, the window end and the end of the input stand
in this order, and bit offsets are below eight. -/
structure Site.Fits (input : Input) (site : Site) : Prop where
  window : site.start.Spans site.limit
  inside : site.limit.Spans input.stop

/-- The places of an event fit the input, and its outcome lies within its window. -/
def Event.InBounds (input : Input) : Event υ → Prop
  | evaluated site | leftRecursion _ site | depthExceeded _ site | called site => site.Fits input
  | settled site step | recalled site step =>
    site.Fits input ∧ Step.Within site.start site.limit step
  | entered _ active _ => ∀ site ∈ active, site.Fits input
  | rejected _ start _ => start.Spans input.stop

/-- All that a run knows fits the input. -/
structure Run.InBounds (input : Input) (run : Run υ σ) : Prop where
  limit : run.limit.Spans input.stop
  active : ∀ site ∈ run.active, site.Fits input
  memo : ∀ (site : Site) step, run.memo[site]? = some step →
    Step.Within site.start site.limit step
  trace : ∀ e ∈ run.trace.toList, e.InBounds input

/-- The task keeps to the window from `start` to `limit`. -/
def Task.Bounded (start limit : Cursor) : Task υ σ → Prop
  | entry _ cursor => cursor = start ∧ start.Spans limit
  | plan _ p => p.Bounded start limit

/-- The outcome of a whole run lies within the input. -/
def Result.Within (input : Input) : Result υ → Prop
  | .ok success => Cursor.start.Spans success.cursor ∧ success.cursor.Spans input.stop
  | .error f => f.Within .start input.stop

theorem Result.within_ofStep {step : Step υ} (h : Step.Within .start input.stop step) :
    Result.Within input (.ofStep step) := by
  cases step <;> exact h

namespace Run.InBounds

variable {run : Run υ σ} {start : Cursor}

theorem note (h : run.InBounds input) {e : Event υ} (he : e.InBounds input) :
    (run.note e).InBounds input := by
  refine ⟨h.limit, h.active, h.memo, fun e' he' => ?_⟩
  obtain he' | rfl := (mem_trace_note ..).1 he'
  · exact h.trace e' he'
  · exact he

/-- An entry inside the window is a place of the input. -/
theorem site (h : run.InBounds input) (hstart : start.Spans run.limit) (index : Nat) :
    (run.site index start).Fits input :=
  ⟨hstart, h.limit⟩

theorem remember (h : run.InBounds input) {site : Site} {step : Step υ}
    (hstep : Step.Within site.start site.limit step) : (run.remember site step).InBounds input := by
  refine ⟨h.limit, h.active, fun site' step' hs => ?_, h.trace⟩
  obtain ⟨rfl, rfl⟩ | hs := memo_remember_cases _ _ _ hs
  · exact hstep
  · exact h.memo site' step' hs

theorem enter (h : run.InBounds input) {site : Site} (hsite : site.Fits input) (slot : Slot) :
    (run.enter slot site).InBounds input := by
  have hactive : ∀ s ∈ site :: run.active, s.Fits input := by
    intro s hs
    obtain rfl | hs := List.mem_cons.1 hs
    · exact hsite
    · exact h.active s hs
  exact ⟨h.limit, hactive, h.memo,
    (h.note (e := .entered slot (site :: run.active) (run.depth + 1)) hactive).trace⟩

theorem leave (h : run.InBounds input) (site : Site) : (run.leave site).InBounds input :=
  ⟨h.limit, fun s hs => h.active s (List.mem_of_mem_erase hs), h.memo, h.trace⟩

theorem withLimit (h : run.InBounds input) {limit : Cursor} (hlimit : limit.Spans input.stop) :
    (run.withLimit limit).InBounds input :=
  ⟨hlimit, h.active, h.memo, h.trace⟩

theorem call (h : run.InBounds input) (hstart : start.Spans run.limit) {β : Type} {self : Nat}
    {kind : CallbackKind} {f : Callback υ σ β} {m : Match υ} :
    (Matcher.call self kind f start m run).2.InBounds input := by
  have hcalled := h.note (e := .called (run.site self start)) (h.site hstart self)
  rw [Matcher.call_eq]
  dsimp only
  split
  · exact ⟨hcalled.limit, hcalled.active, hcalled.memo, hcalled.trace⟩
  · next err _ =>
    have hrejected := hcalled.note (e := .rejected kind start err.message) (hstart.trans h.limit)
    exact ⟨hrejected.limit, hrejected.active, hrejected.memo, hrejected.trace⟩

/-- Nothing has happened yet. -/
theorem fresh (input : Input) (host : σ) : (Run.fresh input host : Run υ σ).InBounds input := by
  refine ⟨.refl (Nat.succ_pos 7), fun _ hs => (nomatch hs), fun site step hs => ?_,
    fun _ he => (nomatch he)⟩
  exact nomatch memo_fresh.symm.trans hs

end Run.InBounds

/-! ## Runs stay in bounds -/

namespace Grammar

variable {g : Grammar υ σ} {config : Config}

/-- **What is carried out in bounds ends within its window and leaves the run in bounds.** -/
theorem Exec.inBounds {budget : Nat} {task : Task υ σ} {run run' : Run υ σ} {step : Step υ}
    (h : g.Exec config input budget task run step run') {start : Cursor}
    (htask : task.Bounded start run.limit) (hrun : run.InBounds input) :
    Step.Within start run.limit step ∧ run'.InBounds input := by
  induction h generalizing start with
  | @recalled budget i cursor run n step hm he hs =>
    obtain ⟨rfl, hstart⟩ := htask
    have hstep := hrun.memo _ _ hs
    exact ⟨hstep, hrun.note (e := .recalled (run.site i cursor) step) ⟨hrun.site hstart i, hstep⟩⟩
  | @stored budget i cursor run n step run' hm he hs h ih =>
    obtain ⟨rfl, hstart⟩ := htask
    have hsite := hrun.site hstart i
    obtain ⟨hstep, hrun'⟩ := ih (n.bounded_rule input run.limit cursor hstart) (hrun.note hsite)
    have hsettled := hrun'.note (e := .settled (run.site i cursor) step) ⟨hsite, hstep⟩
    exact ⟨hstep, hsettled.remember hstep⟩
  | @fresh budget i cursor run n step run' hm he h ih =>
    obtain ⟨rfl, hstart⟩ := htask
    have hsite := hrun.site hstart i
    obtain ⟨hstep, hrun'⟩ := ih (n.bounded_rule input run.limit cursor hstart) (hrun.note hsite)
    exact ⟨hstep, hrun'.note (e := .settled (run.site i cursor) step) ⟨hsite, hstep⟩⟩
  | @reentered budget i cursor run slot target he ht ha =>
    obtain ⟨rfl, hstart⟩ := htask
    exact ⟨Fail.within_here _ hstart, hrun.note (hrun.site hstart target)⟩
  | @tooDeep i cursor run slot target he ht ha =>
    obtain ⟨rfl, hstart⟩ := htask
    exact ⟨Fail.within_here _ hstart, hrun.note (hrun.site hstart target)⟩
  | @entered budget i cursor run slot target step run' he ht ha h ih =>
    obtain ⟨rfl, hstart⟩ := htask
    obtain ⟨hstep, hrun'⟩ := ih ⟨rfl, hstart⟩ (hrun.enter (hrun.site hstart target) slot)
    exact ⟨hstep, hrun'.leave _⟩
  | done hf => exact ⟨htask, hrun⟩
  | look h ih => exact ih htask hrun
  | abort h hf hnext hkind ih =>
    obtain ⟨-, hcursor, hwindow, hrest⟩ := htask
    obtain ⟨hstep, hrun'⟩ := ih ⟨rfl, hcursor⟩ (hrun.withLimit (hwindow.trans hrun.limit))
    have hdone := hrest _ hstep
    rw [hnext] at hdone
    exact ⟨hdone, hrun'.withLimit hrun.limit⟩
  | apply h hf hnext ihChild ihNext =>
    obtain ⟨-, hcursor, hwindow, hrest⟩ := htask
    obtain ⟨hstep, hrun'⟩ := ihChild ⟨rfl, hcursor⟩ (hrun.withLimit (hwindow.trans hrun.limit))
    exact ihNext (hrest _ hstep) (hrun'.withLimit hrun.limit)
  | @call budget self run β kind cursor m next step run' f hnext ih =>
    -- A callback has its own state only: the window stays.
    have hlimit : (Matcher.call self kind f cursor m run).2.limit = run.limit :=
      (Matcher.call_agrees ..).limit
    rw [← hlimit]
    refine ih ?_ (hrun.call htask.1)
    rw [hlimit]
    exact htask.2 _

/-- Every entry, a placeholder too, ends within its window and leaves the run in bounds. -/
theorem matcher_inBounds (config : Config) (budget : Nat) {i : Nat} (hi : i < g.entries.size)
    {start : Cursor} {run : Run υ σ} (hrun : run.InBounds input) (hstart : start.Spans run.limit) :
    Step.Within start run.limit (g.matcher config input budget i start run).1
      ∧ (g.matcher config input budget i start run).2.InBounds input :=
  (exec_matcher budget hi start run).inBounds ⟨rfl, hstart⟩ hrun

/-- **Runs stay in bounds**, whatever byte counts the input declares. Every place of a run is a
stretch of the input, every outcome lies within its window, and so does the result. Placeholders
leave no outcome in the trace; for them, as for all entries, the step from any state in bounds is
within the window and leads to a state in bounds. In a machine no read of a run faults. -/
theorem run_inBounds (config : Config) {root : Handle} (hroot : g.Owns root)
    (hsize : input.bytes.size < 2 ^ 61) (host : σ) :
    ∃ report, g.run config root input host = .ok report
      ∧ (∀ e ∈ report.trace.toList, e.InBounds input)
      ∧ Result.Within input report.result
      ∧ (∀ budget i start (run : Run υ σ), i < g.entries.size → run.InBounds input →
        start.Spans run.limit →
          Step.Within start run.limit (g.matcher config input budget i start run).1
            ∧ (g.matcher config input budget i start run).2.InBounds input)
      ∧ ∀ site, .evaluated site ∈ report.trace.toList →
        ∀ n, g.entries[site.node]? = some (.node n) →
          n.ReadsSafely input site.start site.limit := by
  obtain ⟨report, step, run', hrun, hexec, hresult, htrace⟩ := exec_run config hroot input host
  have hfresh : (Run.fresh input host : Run υ σ).InBounds input := .fresh input host
  have hstart : Cursor.start.Spans input.stop :=
    .of_bitPosition_le (Nat.succ_pos 7) (Nat.succ_pos 7) (Nat.zero_le _)
  obtain ⟨hstep, hrun'⟩ := hexec.inBounds ⟨rfl, hstart⟩ hfresh
  refine ⟨report, hrun, ?_⟩
  rw [htrace, hresult]
  refine ⟨hrun'.trace, Result.within_ofStep hstep, fun budget i start run hi h hspans =>
    matcher_inBounds config budget hi h hspans, fun site hsite n _ => ?_⟩
  obtain ⟨hwindow, hinside⟩ : site.Fits input := hrun'.trace _ hsite
  have hword : 8 * input.bytes.size < wordBound := by
    rw [wordBound]
    omega
  exact n.reads_safely hwindow hinside hword

/-- The input is a pair of parentheses. -/
theorem run_inBounds_parens : parens.Owns ⟨0, 5⟩ ∧ (#[0x28, 0x29] : Array UInt8).size < 2 ^ 61 ∧
    ∃ report, parens.run {} ⟨0, 5⟩ ⟨#[0x28, 0x29]⟩ () = .ok report
      ∧ (∀ e ∈ report.trace.toList, e.InBounds ⟨#[0x28, 0x29]⟩)
      ∧ Result.Within ⟨#[0x28, 0x29]⟩ report.result
      ∧ (∀ budget i start (run : Run Unit Unit), i < parens.entries.size →
        run.InBounds ⟨#[0x28, 0x29]⟩ → start.Spans run.limit →
          Step.Within start run.limit (parens.matcher {} ⟨#[0x28, 0x29]⟩ budget i start run).1
            ∧ (parens.matcher {} ⟨#[0x28, 0x29]⟩ budget i start run).2.InBounds ⟨#[0x28, 0x29]⟩)
      ∧ ∀ site, .evaluated site ∈ report.trace.toList →
        ∀ n, parens.entries[site.node]? = some (.node n) →
          n.ReadsSafely ⟨#[0x28, 0x29]⟩ site.start site.limit :=
  ⟨by decide, by decide, run_inBounds {} (by decide) (by decide) ()⟩

end Grammar

end Packrat
