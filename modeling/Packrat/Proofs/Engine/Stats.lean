import Packrat.Proofs.Engine.Start

/-!
# Proofs/Engine/Stats — the counts of a run are those of its trace

A run keeps its counts as its trace grows. So at the end they can be read off the trace: how many
nodes were matched afresh (`evaluations_ofEvents`), and how deep slots were entered
(`maxDepth_ofEvents_le`).
-/

namespace Packrat

variable {υ σ : Type}

/-! ## Counts over events -/

/-- The place where a node is matched afresh. -/
def Event.evaluated? : Event υ → Option Site
  | evaluated site => some site
  | _ => none

/-- The places where nodes are matched afresh, in order. -/
def evaluatedSites (events : List (Event υ)) : List Site := events.filterMap Event.evaluated?

namespace Stats

/-- The counts over a list of events. -/
def ofEvents (events : List (Event υ)) : Stats := events.foldl count {}

theorem evaluations_foldl (events : List (Event υ)) (stats : Stats) :
    (events.foldl count stats).evaluations
      = stats.evaluations + (evaluatedSites events).length := by
  induction events generalizing stats with
  | nil => rfl
  | cons e events ih =>
    rw [List.foldl_cons, ih]
    cases e with
    | evaluated site =>
      change stats.evaluations + 1 + (evaluatedSites events).length
        = stats.evaluations + ((evaluatedSites events).length + 1)
      omega
    | _ => rfl

theorem evaluations_ofEvents (events : List (Event υ)) :
    (ofEvents events).evaluations = (evaluatedSites events).length :=
  (evaluations_foldl events {}).trans (Nat.zero_add _)

theorem maxDepth_foldl_le {events : List (Event υ)} {stats : Stats} {bound : Nat}
    (hstats : stats.maxDepth ≤ bound)
    (h : ∀ slot active depth, .entered slot active depth ∈ events → depth ≤ bound) :
    (events.foldl count stats).maxDepth ≤ bound := by
  induction events generalizing stats with
  | nil => exact hstats
  | cons e events ih =>
    refine ih ?_ fun slot active depth he => h slot active depth (List.mem_cons_of_mem _ he)
    cases e with
    | entered slot active depth =>
      exact Nat.max_le.2 ⟨hstats, h slot active depth List.mem_cons_self⟩
    | _ => exact hstats

theorem maxDepth_ofEvents_le {events : List (Event υ)} {bound : Nat}
    (h : ∀ slot active depth, .entered slot active depth ∈ events → depth ≤ bound) :
    (ofEvents events).maxDepth ≤ bound :=
  maxDepth_foldl_le (Nat.zero_le bound) h

end Stats

/-! ## Runs count what happens -/

/-- The counts of the run are those of its trace. -/
def Run.Counted (run : Run υ σ) : Prop := run.stats = .ofEvents run.trace.toList

namespace Run.Counted

variable {run : Run υ σ}

theorem note (h : run.Counted) (e : Event υ) : (run.note e).Counted := by
  change run.stats.count e = .ofEvents (run.trace.push e).toList
  rw [h, Array.toList_push, Stats.ofEvents, Stats.ofEvents, List.foldl_append]
  rfl

theorem remember (h : run.Counted) {site : Site} {step : Step υ} :
    (run.remember site step).Counted := h

theorem call (h : run.Counted) {β : Type} {self : Nat} {kind : CallbackKind} {f : Callback υ σ β}
    {start : Cursor} {m : Match υ} : (Matcher.call self kind f start m run).2.Counted := by
  have hcalled := h.note (.called (run.site self start))
  rw [Matcher.call_eq]
  dsimp only
  split
  · exact hcalled
  · next err _ => exact hcalled.note (.rejected kind start err.message)

end Run.Counted

namespace Grammar

variable {g : Grammar υ σ} {config : Config} {input : Input} {budget : Nat} {task : Task υ σ}
  {run run' : Run υ σ} {step : Step υ}

theorem Exec.counted (h : g.Exec config input budget task run step run') (hrun : run.Counted) :
    run'.Counted := by
  induction h with
  | recalled => exact hrun.note _
  | stored _ _ _ _ ih => exact ((ih (hrun.note _)).note _).remember
  | fresh _ _ _ ih => exact (ih (hrun.note _)).note _
  | reentered => exact hrun.note _
  | tooDeep => exact hrun.note _
  | @entered _ _ _ run slot target _ _ _ _ _ _ ih =>
    exact ih (hrun.note (.entered slot (run.site target _ :: run.active) (run.depth + 1)))
  | done => exact hrun
  | look _ ih => exact ih hrun
  | abort _ _ _ _ ih => exact ih hrun
  | apply _ _ _ ihChild ihNext => exact ihNext (ihChild hrun)
  | call _ ih => exact ih hrun.call

/-- A whole run ends in a report of the state that it ends in, and of counts over its trace. -/
theorem exec_report (config : Config) {root : Handle} (hroot : g.Owns root) (input : Input)
    (host : σ) :
    ∃ report step run', g.run config root input host = .ok report
      ∧ g.Exec config input config.maxRecursionDepth (.entry root.index .start)
        (.fresh input host) step run'
      ∧ report.result = .ofStep step ∧ report.trace = run'.trace
      ∧ report.stats.evaluations = (evaluatedSites run'.trace.toList).length
      ∧ report.stats.maxDepth = (Stats.ofEvents run'.trace.toList).maxDepth
      ∧ report.stats.cacheEntries = run'.memo.size := by
  obtain ⟨step, run', hexec, hrun⟩ := exec_root config hroot input host
  have hstats : run'.stats = .ofEvents run'.trace.toList := hexec.counted rfl
  have hevaluations : run'.stats.evaluations = (evaluatedSites run'.trace.toList).length := by
    rw [hstats, Stats.evaluations_ofEvents]
  have hdepth : run'.stats.maxDepth = (Stats.ofEvents run'.trace.toList).maxDepth := by
    rw [hstats]
  exact ⟨_, step, run', hrun, hexec, rfl, rfl, hevaluations, hdepth, rfl⟩

end Grammar

end Packrat
