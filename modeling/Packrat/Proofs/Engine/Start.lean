import Packrat.Callback.Library
import Packrat.Proofs.Engine.Exec

/-!
# Proofs/Engine/Start — whole runs

A whole run is one entry carried out in a fresh state, at the start of the input and with the window
open to its end. `Grammar.exec_run` says so in terms of the relation, so that what holds of
everything that can be carried out becomes a fact about reports.
-/

namespace Packrat

variable {υ σ : Type}

/-- The state in which a run starts. -/
def Run.fresh (input : Input) (host : σ) : Run υ σ := { limit := input.stop, host }

theorem Run.memo_fresh {input : Input} {host : σ} {site : Site} :
    (Run.fresh input host : Run υ σ).memo[site]? = none := by
  simp [Run.fresh]

/-- What is known after a run of an entry that has ended in a step and left a state. -/
def Report.ofStep (root : Handle) (input : Input) (step : Step υ) (run : Run υ σ) :
    Report υ σ where
  root := root
  inputSize := input.bytes.size
  result := .ofStep step
  stats := { run.stats with cacheEntries := run.memo.size }
  trace := run.trace
  host := run.host

namespace Grammar

variable {g : Grammar υ σ} {root : Handle}

/-- A run of a root that the grammar owns carries the root's entry out. -/
theorem exec_root (config : Config) (hroot : g.Owns root) (input : Input) (host : σ) :
    ∃ step run', g.Exec config input config.maxRecursionDepth (.entry root.index .start)
        (.fresh input host) step run'
      ∧ g.run config root input host = .ok (.ofStep root input step run') :=
  ⟨_, _, exec_matcher config.maxRecursionDepth hroot.2 .start _, if_pos hroot⟩

/-- It reports what the root's entry does. -/
theorem run_of_exec {config : Config} {input : Input} {host : σ} {step : Step υ} {run' : Run υ σ}
    (hroot : g.Owns root) (h : g.Exec config input config.maxRecursionDepth
      (.entry root.index .start) (.fresh input host) step run') :
    g.run config root input host = .ok (.ofStep root input step run') := by
  obtain ⟨step₁, run₁, h₁, hrun⟩ := exec_root config hroot input host
  obtain ⟨rfl, rfl⟩ := h.unique h₁
  exact hrun

/-- **A run of a root that the grammar owns ends in a report**, which tells what the root's entry
does in the fresh state. -/
theorem exec_run (config : Config) (hroot : g.Owns root) (input : Input) (host : σ) :
    ∃ report step run', g.run config root input host = .ok report
      ∧ g.Exec config input config.maxRecursionDepth (.entry root.index .start)
        (.fresh input host) step run'
      ∧ report.result = .ofStep step ∧ report.trace = run'.trace := by
  obtain ⟨step, run', h, hrun⟩ := exec_root config hroot input host
  exact ⟨_, step, run', hrun, h, rfl, rfl⟩

/-! ## A recursive grammar -/

/-- Nested parentheses: nothing, or a pair of parentheses around the grammar itself. The root drops
the value. -/
def parens : Grammar Unit Unit where
  id := 0
  entries := #[.indirect ⟨0⟩, .node (.byte 0x28), .node (.byte 0x29), .node (.middle 1 0 2),
    .node (.optional 3), .node (.action 4 .ignore)]
  targets := #[4]
  child_lt := by decide
  slot_lt := by
    intro i h slot he
    have hmem := Array.getElem_mem h
    rw [he] at hmem
    simp only [List.mem_toArray, List.mem_cons, Entry.indirect.injEq, reduceCtorEq,
      List.not_mem_nil, or_false] at hmem
    rw [hmem]
    decide
  target_lt := by decide

end Grammar

end Packrat
