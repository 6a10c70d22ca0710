import Packrat.Proofs.Engine.Exec
import Packrat.Proofs.Engine.Start

/-!
# Proofs/Engine/Fatal — fatal failures surface

Left recursion and the recursion limit end a run. As long as nothing fails for good a run is *calm*:
its trace and its memo know of no fatal failure. Once something does, the run *unwinds*: from then
on nodes are settled with the very same kind of failure, and nothing else happens. That a
remembered fatal failure is never used again follows, because what is remembered in a calm run is
not fatal.

Main statements: `Exec.calm_or_unwinds` for everything that can be carried out, and
`run_surfaces` for whole runs.
-/

namespace Packrat

variable {υ σ : Type}

/-! ## Fatal events -/

namespace Event

/-- The kind of the fatal failure that an event reports. -/
def fatal? : Event υ → Option FailureKind
  | settled _ step | recalled _ step => Step.fatal? step
  | leftRecursion slot _ => some (.leftRecursion slot)
  | depthExceeded bound _ => some (.recursionLimit bound)
  | _ => none

/-- Only a failure is passed on: a node is settled with a fatal failure of this kind. -/
def Unwinds (kind : FailureKind) (e : Event υ) : Prop :=
  ∃ site step, e = .settled site step ∧ Step.fatal? step = some kind

/-- The event is the use of a remembered fatal failure. -/
def Replays (e : Event υ) : Prop := ∃ site step, e = .recalled site step ∧ Step.fatal? step ≠ none

/-- If the first event reports a fatal failure, then the second only passes it on. -/
def Surfaces (e e' : Event υ) : Prop := ∀ kind, e.fatal? = some kind → e'.Unwinds kind

theorem Surfaces.of_calm {e e' : Event υ} (h : e.fatal? = none) : e.Surfaces e' :=
  fun _ hkind => nomatch h.symm.trans hkind

theorem not_replays_of_calm {e : Event υ} (h : e.fatal? = none) : ¬e.Replays := by
  rintro ⟨site, step, rfl, hstep⟩
  exact hstep h

end Event

/-! ## Calm runs and unwinding runs -/

namespace Run

/-- Nothing has failed for good. -/
structure Calm (run : Run υ σ) : Prop where
  trace : ∀ e ∈ run.trace.toList, e.fatal? = none
  memo : ∀ (site : Site) step, run.memo[site]? = some step → Step.fatal? step = none

/-- Something has failed for good, with this kind, and nothing else has happened since. -/
structure Unwinding (kind : FailureKind) (run : Run υ σ) : Prop where
  same : ∀ e ∈ run.trace.toList, ∀ kind', e.fatal? = some kind' → kind' = kind
  surfaces : run.trace.toList.Pairwise Event.Surfaces
  fresh : ∀ e ∈ run.trace.toList, ¬e.Replays

variable {run run' : Run υ σ} {kind : FailureKind} {e : Event υ}

theorem Calm.note (h : run.Calm) (he : e.fatal? = none) : (run.note e).Calm := by
  refine ⟨fun e' he' => ?_, h.memo⟩
  obtain he' | rfl := (mem_trace_note ..).1 he'
  · exact h.trace e' he'
  · exact he

theorem Calm.remember (h : run.Calm) {site : Site} {step : Step υ}
    (hstep : Step.fatal? step = none) : (run.remember site step).Calm := by
  refine ⟨h.trace, fun site' step' hs => ?_⟩
  obtain ⟨-, rfl⟩ | hs := memo_remember_cases _ _ _ hs
  · exact hstep
  · exact h.memo site' step' hs

/-- Nothing has happened yet. -/
theorem Calm.fresh (input : Input) (host : σ) : (Run.fresh input host : Run υ σ).Calm :=
  ⟨fun _ he => (nomatch he), fun _ _ hs => nomatch memo_fresh.symm.trans hs⟩

/-- A calm trace is one in which fatal failures surface, there being none. -/
theorem Calm.surfaces (h : run.Calm) : run.trace.toList.Pairwise Event.Surfaces :=
  List.pairwise_of_forall_mem_list fun e he _ _ => .of_calm (h.trace e he)

/-- The first fatal event. -/
theorem Calm.unwinding_note (h : run.Calm) (he : e.fatal? = some kind) (hfresh : ¬e.Replays) :
    (run.note e).Unwinding kind := by
  constructor
  · intro e' he' kind' hkind'
    obtain he' | rfl := (mem_trace_note ..).1 he'
    · exact nomatch (h.trace e' he').symm.trans hkind'
    · exact Option.some.inj (hkind'.symm.trans he)
  · rw [trace_note, Array.toList_push, List.pairwise_append]
    refine ⟨h.surfaces, List.pairwise_singleton _ _, fun e' he' _ _ => ?_⟩
    exact .of_calm (h.trace e' he')
  · intro e' he'
    obtain he' | rfl := (mem_trace_note ..).1 he'
    · exact Event.not_replays_of_calm (h.trace e' he')
    · exact hfresh

/-- A fatal failure is passed on. -/
theorem Unwinding.note_settled (h : run.Unwinding kind) {site : Site} {step : Step υ}
    (hstep : Step.fatal? step = some kind) : (run.note (.settled site step)).Unwinding kind := by
  constructor
  · intro e' he' kind' hkind'
    obtain he' | rfl := (mem_trace_note ..).1 he'
    · exact h.same e' he' kind' hkind'
    · exact Option.some.inj (hkind'.symm.trans hstep)
  · rw [trace_note, Array.toList_push, List.pairwise_append]
    refine ⟨h.surfaces, List.pairwise_singleton _ _, fun e' he' e'' he'' kind' hkind' => ?_⟩
    obtain rfl := List.mem_singleton.1 he''
    rw [h.same e' he' kind' hkind']
    exact ⟨site, step, rfl, hstep⟩
  · intro e' he'
    obtain he' | rfl := (mem_trace_note ..).1 he'
    · exact h.fresh e' he'
    · rintro ⟨_, _, hrecalled, -⟩
      exact nomatch hrecalled

theorem Unwinding.of_trace_eq (h : run.Unwinding kind) (htrace : run'.trace = run.trace) :
    run'.Unwinding kind :=
  ⟨htrace ▸ h.same, htrace ▸ h.surfaces, htrace ▸ h.fresh⟩

/-- What a callback does is no fatal failure. -/
theorem Calm.call (h : run.Calm) {β : Type} {self : Nat} {how : CallbackKind} {f : Callback υ σ β}
    {start : Cursor} {m : Match υ} : (Matcher.call self how f start m run).2.Calm := by
  have hcalled := h.note (e := .called (run.site self start)) rfl
  rw [Matcher.call_eq]
  dsimp only
  split
  · exact ⟨hcalled.trace, hcalled.memo⟩
  · next err _ =>
    have hrejected := hcalled.note (e := .rejected how start err.message) rfl
    exact ⟨hrejected.trace, hrejected.memo⟩

/-- What an outcome leaves behind: a calm run, or one that unwinds because of it. -/
structure After (step : Step υ) (run : Run υ σ) : Prop where
  calm : Step.fatal? step = none → run.Calm
  unwinding : ∀ kind, Step.fatal? step = some kind → run.Unwinding kind

theorem After.settled {step : Step υ} {site : Site} (h : run.After step) :
    (run.note (.settled site step)).After step :=
  ⟨fun hs => (h.calm hs).note hs, fun _ hs => (h.unwinding _ hs).note_settled hs⟩

end Run

/-! ## Whatever is carried out -/

namespace Grammar

variable {g : Grammar υ σ} {config : Config} {input : Input}

/-- **What is carried out in a calm run leaves it calm, or it fails for good and leaves it
unwinding.** -/
theorem Exec.calm_or_unwinds {budget : Nat} {task : Task υ σ} {run run' : Run υ σ} {step : Step υ}
    (h : g.Exec config input budget task run step run') (hrun : run.Calm) : run'.After step := by
  induction h with
  | @recalled budget i start run n step hm he hs =>
    have hstep : Step.fatal? step = none := hrun.memo _ _ hs
    exact ⟨fun _ => hrun.note hstep, fun kind hkind => nomatch hstep.symm.trans hkind⟩
  | @stored budget i start run n step run' hm he hs h ih =>
    have hafter : (run'.note (.settled (run.site i start) step)).After step :=
      (ih (hrun.note rfl)).settled
    -- A fatal failure is remembered too, but an unwinding run promises nothing of its memo.
    refine ⟨fun hstep => (hafter.calm hstep).remember hstep, fun kind hkind => ?_⟩
    exact (hafter.unwinding kind hkind).of_trace_eq rfl
  | fresh hm he h ih => exact (ih (hrun.note rfl)).settled
  | reentered =>
    refine ⟨fun hstep => (nomatch hstep), fun kind hkind => hrun.unwinding_note hkind ?_⟩
    rintro ⟨_, _, hrecalled, -⟩
    exact nomatch hrecalled
  | tooDeep =>
    refine ⟨fun hstep => (nomatch hstep), fun kind hkind => hrun.unwinding_note hkind ?_⟩
    rintro ⟨_, _, hrecalled, -⟩
    exact nomatch hrecalled
  | @entered budget i start run slot target step run' he ht ha h ih =>
    have hcalm : (run.enter slot (run.site target start)).Calm :=
      ⟨(hrun.note (e := .entered slot (run.site target start :: run.active) (run.depth + 1))
        rfl).trace, hrun.memo⟩
    have hafter := ih hcalm
    refine ⟨fun hstep => ?_, fun kind hkind => ?_⟩
    · exact ⟨(hafter.calm hstep).trace, (hafter.calm hstep).memo⟩
    · exact (hafter.unwinding kind hkind).of_trace_eq rfl
  | done hf => exact ⟨fun _ => hrun, fun kind hkind => nomatch hf.symm.trans hkind⟩
  | look h ih => exact ih hrun
  | @abort budget self run window c start next f f' run' h hf hnext hkind ih =>
    have hafter := ih ⟨hrun.trace, hrun.memo⟩
    have hfatal := Step.fatal?_error_congr (υ := υ) hkind
    refine ⟨fun hstep => ?_, fun kind hstep => ?_⟩
    · have hcalm := hafter.calm (hfatal.symm.trans hstep)
      exact ⟨hcalm.trace, hcalm.memo⟩
    · exact (hafter.unwinding kind (hfatal.symm.trans hstep)).of_trace_eq rfl
  | apply h hf hnext ihChild ihNext =>
    have hcalm := (ihChild ⟨hrun.trace, hrun.memo⟩).calm hf
    exact ihNext ⟨hcalm.trace, hcalm.memo⟩
  | call hnext ih => exact ih hrun.call

/-- **Fatal failures surface.** A run carries its root out, and what happens on the way is its
trace. Once an event reports left recursion or the recursion limit, nodes are settled with the same
kind of failure and nothing else happens: no node is evaluated, no outcome is recalled, no callback
is called. The run ends in a failure of that very kind, and no remembered fatal failure is ever
used. -/
theorem run_surfaces (config : Config) {root : Handle} (hroot : g.Owns root) (input : Input)
    (host : σ) :
    ∃ report step run', g.run config root input host = .ok report
      ∧ g.Exec config input config.maxRecursionDepth (.entry root.index .start)
        (.fresh input host) step run'
      ∧ report.result = .ofStep step ∧ report.trace = run'.trace
      ∧ report.trace.toList.Pairwise Event.Surfaces
      ∧ (∀ e ∈ report.trace.toList, ∀ kind, e.fatal? = some kind →
        ∃ f, report.result = .error f ∧ f.kind = kind)
      ∧ ∀ e ∈ report.trace.toList, ¬e.Replays := by
  obtain ⟨report, step, run', hrun, hexec, hresult, htrace⟩ := exec_run config hroot input host
  have hafter := hexec.calm_or_unwinds (.fresh input host)
  refine ⟨report, step, run', hrun, hexec, hresult, htrace, ?_⟩
  rw [htrace, hresult]
  cases hstep : Step.fatal? step with
  | none =>
    have hcalm := hafter.calm hstep
    refine ⟨hcalm.surfaces, fun e he kind hkind => ?_, fun e he => ?_⟩
    · exact nomatch (hcalm.trace e he).symm.trans hkind
    · exact Event.not_replays_of_calm (hcalm.trace e he)
  | some kind =>
    have hunwinding := hafter.unwinding kind hstep
    refine ⟨hunwinding.surfaces, fun e he kind' hkind' => ?_, hunwinding.fresh⟩
    obtain ⟨f, rfl, -, hf⟩ := Step.fatal?_eq_some.1 hstep
    exact ⟨f, rfl, hf.trans (hunwinding.same e he kind' hkind').symm⟩

/-- A grammar that enters itself before it has consumed anything. -/
def leftRecursive : Grammar Unit Unit where
  id := 0
  entries := #[.indirect ⟨0⟩, .node (.optional 0)]
  targets := #[1]
  child_lt := by decide
  slot_lt := by
    intro i h slot he
    have hmem := Array.getElem_mem h
    rw [he] at hmem
    simp only [List.mem_toArray, List.mem_cons, Entry.indirect.injEq, reduceCtorEq,
      List.not_mem_nil, or_false] at hmem
    rw [hmem]
    decide
  target_lt := by decide

/-- Its slot is entered again where it stands, and the run tells so. -/
theorem leftRecursive_fails : ∃ report, leftRecursive.run {} ⟨0, 1⟩ ⟨#[]⟩ () = .ok report
    ∧ .leftRecursion ⟨0⟩ ⟨1, .start, .start⟩ ∈ report.trace.toList
    ∧ report.result = .error (.here (.leftRecursion ⟨0⟩) .start) :=
  ⟨_, rfl, List.mem_iff_getElem?.2 ⟨3, rfl⟩, rfl⟩

/-- The failure passes through an optional part, twice. -/
theorem run_surfaces_leftRecursive : leftRecursive.Owns ⟨0, 1⟩ ∧
    ∃ report step run', leftRecursive.run {} ⟨0, 1⟩ ⟨#[]⟩ () = .ok report
      ∧ leftRecursive.Exec {} ⟨#[]⟩ ({} : Config).maxRecursionDepth (.entry 1 .start)
        (.fresh ⟨#[]⟩ ()) step run'
      ∧ report.result = .ofStep step ∧ report.trace = run'.trace
      ∧ report.trace.toList.Pairwise Event.Surfaces
      ∧ (∀ e ∈ report.trace.toList, ∀ kind, e.fatal? = some kind →
        ∃ f, report.result = .error f ∧ f.kind = kind)
      ∧ (∀ e ∈ report.trace.toList, ¬e.Replays)
      ∧ .leftRecursion ⟨0⟩ ⟨1, .start, .start⟩ ∈ report.trace.toList
      ∧ report.result = .error (.here (.leftRecursion ⟨0⟩) .start) := by
  have hroot : leftRecursive.Owns ⟨0, 1⟩ := by decide
  obtain ⟨report, step, run', hrun, hexec, hresult, htrace, hsurfaces, hends, hfresh⟩ :=
    run_surfaces {} hroot ⟨#[]⟩ ()
  obtain ⟨report', hrun', hevent, hfails⟩ := leftRecursive_fails
  obtain rfl := Except.ok.inj (hrun.symm.trans hrun')
  exact ⟨hroot, report, step, run', hrun, hexec, hresult, htrace, hsurfaces, hends, hfresh, hevent,
    hfails⟩

end Grammar

end Packrat
