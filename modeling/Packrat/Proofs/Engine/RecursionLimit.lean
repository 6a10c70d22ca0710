import Packrat.Proofs.Engine.Depth
import Packrat.Proofs.Engine.Lockstep
import Packrat.Proofs.Semantics.Memoization

/-!
# Proofs/Engine/RecursionLimit — what the bound on slots decides

A run knows of its bound on slots only where the bound is met, and that ends the run. So a run that
does not end there is the same under every bound that leaves room for the slots it had inside one
another (`Exec.rebound`), and each run *needs* a certain depth: below it, it ends at the bound, and
from it on it is always the same (`exists_need`).

Main statements: `run_raise` compares two bounds, and `run_needs` compares, at each bound, the run
that remembers outcomes with the one that does not. The first may need less, for an outcome that was
found at little depth is recalled where working it out would need more.
-/

namespace Packrat

variable {υ σ : Type}

/-- The run has ended at its bound on slots. -/
def Result.Exceeds (bound : Nat) (result : Result υ) : Prop :=
  ∃ f, result = .error f ∧ f.kind = .recursionLimit bound

theorem Result.exceeds_ofStep {step : Step υ} {bound : Nat} :
    (Result.ofStep step).Exceeds bound ↔ Step.fatal? step = some (.recursionLimit bound) := by
  constructor
  · rintro ⟨f, hf, hkind⟩
    cases step with
    | ok m => cases hf
    | error f' =>
      obtain rfl := Except.error.inj hf
      exact Step.fatal?_eq_some.2 ⟨f', rfl, by rw [Fail.isFatal, hkind]; rfl, hkind⟩
  · intro hstep
    obtain ⟨f, rfl, -, hkind⟩ := Step.fatal?_eq_some.1 hstep
    exact ⟨f, rfl, hkind⟩

theorem Matcher.maxDepth_call {β : Type} (self : Nat) (kind : CallbackKind) (f : Callback υ σ β)
    (start : Cursor) (m : Match υ) (run : Run υ σ) :
    (Matcher.call self kind f start m run).2.stats.maxDepth = run.stats.maxDepth := by
  rw [Matcher.call_eq]
  dsimp only
  split <;> rfl

namespace Grammar

variable {g : Grammar υ σ} {config config' : Config} {input : Input} {budget budget' : Nat}
  {task : Task υ σ} {run run' : Run υ σ} {step : Step υ} {root : Handle} {host : σ}

/-! ## The depth that a run reports -/

/-- The depth that is reported never goes down, and it stays within what may be entered. -/
theorem Exec.maxDepth_le (h : g.Exec config input budget task run step run') :
    run.stats.maxDepth ≤ run'.stats.maxDepth
      ∧ run'.stats.maxDepth ≤ max run.stats.maxDepth (run.depth + budget) := by
  induction h with
  | recalled => exact ⟨Nat.le_refl _, Nat.le_max_left ..⟩
  | stored _ _ _ _ ih => exact ih
  | fresh _ _ _ ih => exact ih
  | reentered => exact ⟨Nat.le_refl _, Nat.le_max_left ..⟩
  | tooDeep => exact ⟨Nat.le_refl _, Nat.le_max_left ..⟩
  | @entered budget i start run slot target step run' _ _ _ _ ih =>
    have hlow : max run.stats.maxDepth (run.depth + 1) ≤ run'.stats.maxDepth := ih.1
    have hhigh : run'.stats.maxDepth
        ≤ max (max run.stats.maxDepth (run.depth + 1)) (run.depth + 1 + budget) := ih.2
    change _ ≤ run'.stats.maxDepth ∧ run'.stats.maxDepth ≤ _
    omega
  | done => exact ⟨Nat.le_refl _, Nat.le_max_left ..⟩
  | look _ ih => exact ih
  | abort _ _ _ _ ih => exact ih
  | @apply budget self run window c start next step run' step' run'' h _ _ ihChild ihNext =>
    have hdepth : run'.depth = run.depth := h.agrees.depth
    obtain ⟨hlow, hhigh⟩ := ihChild
    obtain ⟨hlow', hhigh'⟩ := ihNext
    simp only [Run.withLimit] at hlow hhigh hlow' hhigh'
    omega
  | @call budget self run β kind start m next step run' f _ ih =>
    rw [Matcher.maxDepth_call, (Matcher.call_agrees self kind f start m run).depth] at ih
    exact ih

/-- A run that ends at a bound on slots ends at its own. -/
theorem Exec.recursionLimit_eq {limit : Nat}
    (h : g.Exec config input config.maxRecursionDepth (.entry root.index .start)
      (.fresh input host) step run')
    (hstep : Step.fatal? step = some (.recursionLimit limit)) :
    limit = config.maxRecursionDepth := by
  obtain ⟨site, hsite⟩ := h.exists_depthExceeded (.fresh input host) hstep
  obtain hnone | ⟨moment, -, htells⟩ := h.told hsite
  · cases hnone
  · cases htells
    rfl

/-- A run that does not end at its own bound ends at none. -/
theorem Exec.decided
    (h : g.Exec config input config.maxRecursionDepth (.entry root.index .start)
      (.fresh input host) step run')
    (hstep : Step.fatal? step ≠ some (.recursionLimit config.maxRecursionDepth)) (limit : Nat) :
    Step.fatal? step ≠ some (.recursionLimit limit) := by
  intro hlimit
  rw [h.recursionLimit_eq hlimit] at hlimit
  exact hstep hlimit

/-! ## Other bounds -/

/-- **What does not end at the bound on slots is done alike under every bound that has room for
it.** -/
theorem Exec.rebound (h : g.Exec config input budget task run step run')
    (hmemoize : config'.memoize = config.memoize)
    (hstep : ∀ limit, Step.fatal? step ≠ some (.recursionLimit limit))
    (hroom : run'.stats.maxDepth ≤ run.depth + budget') :
    g.Exec config' input budget' task run step run' := by
  induction h generalizing budget' with
  | recalled hm he hs => exact .recalled (hmemoize.trans hm) he hs
  | stored hm he hs _ ih => exact .stored (hmemoize.trans hm) he hs (ih hstep hroom)
  | fresh hm he _ ih => exact .fresh (hmemoize.trans hm) he (ih hstep hroom)
  | reentered he ht ha => exact .reentered he ht ha
  | tooDeep => exact absurd rfl (hstep config.maxRecursionDepth)
  | @entered budget i start run slot target step run' he ht ha h ih =>
    -- The slot that is entered is among those that there is room for.
    have hdepth : max run.stats.maxDepth (run.depth + 1) ≤ run'.stats.maxDepth := h.maxDepth_le.1
    have hroom : run'.stats.maxDepth ≤ run.depth + budget' := hroom
    obtain ⟨rest, rfl⟩ : ∃ rest, budget' = rest + 1 := ⟨budget' - 1, by omega⟩
    have hrest : run'.stats.maxDepth ≤ run.depth + 1 + rest := by omega
    exact .entered he ht ha (ih hstep hrest)
  | done hf => exact .done hf
  | look _ ih => exact .look (ih hstep hroom)
  | abort _ hf hnext hkind ih =>
    refine .abort (ih (fun limit hlimit => hstep limit ?_) hroom) hf hnext hkind
    rw [Step.fatal?_error_congr hkind, hlimit]
  | @apply budget self run window c start next step run' step' run'' h hf hnext ihChild ihNext =>
    have hlow : run'.stats.maxDepth ≤ run''.stats.maxDepth := hnext.maxDepth_le.1
    have hchild : ∀ limit, Step.fatal? step ≠ some (.recursionLimit limit) :=
      fun limit hlimit => nomatch hf.symm.trans hlimit
    refine .apply (ihChild hchild (Nat.le_trans hlow hroom)) hf (ihNext hstep ?_)
    rw [Run.depth_withLimit, h.agrees.depth]
    exact hroom
  | @call budget self run β kind start m next step run' f _ ih =>
    refine .call (ih hstep ?_)
    rw [(Matcher.call_agrees self kind f start m run).depth]
    exact hroom

/-- **Raising the bound on slots never changes a decided run.** With pure callbacks a run that does
not end at its bound has the same result and the same counts under every greater bound; so a run
that ends at the greater bound ends at the smaller one too. -/
theorem run_raise (hpure : g.PureCallbacks) (config : Config) {bound : Nat}
    (hbound : config.maxRecursionDepth ≤ bound) (hroot : g.Owns root) (input : Input)
    (host host' : σ) :
    ∃ report report', g.run config root input host = .ok report
      ∧ g.run { config with maxRecursionDepth := bound } root input host' = .ok report'
      ∧ (¬report.result.Exceeds config.maxRecursionDepth →
        report'.result = report.result ∧ report'.stats = report.stats
          ∧ report'.trace = report.trace)
      ∧ ∀ limit, report'.result.Exceeds limit → report.result.Exceeds config.maxRecursionDepth := by
  obtain ⟨step, run₁, hexec, hrun⟩ := exec_root config hroot input host
  obtain ⟨step', run₁', hexec', hrun'⟩ :=
    exec_root { config with maxRecursionDepth := bound } hroot input host'
  have hsame : Step.fatal? step ≠ some (.recursionLimit config.maxRecursionDepth) →
      step' = step ∧ run₁.Twin run₁' := by
    intro hdecided
    have hdepth : run₁.stats.maxDepth ≤ max 0 (0 + config.maxRecursionDepth) := hexec.maxDepth_le.2
    have hroom : run₁.stats.maxDepth ≤ 0 + bound := by omega
    have hraised : g.Exec { config with maxRecursionDepth := bound } input bound
        (.entry root.index .start) (.fresh input host) step run₁ :=
      hexec.rebound rfl (hexec.decided hdecided) hroom
    obtain ⟨twin, htwin, hsame⟩ := hraised.lockstep hpure (.refl (.refl (Nat.succ_pos 7)))
      (first_inBounds config input root host).task trivial (.fresh input host) ⟨host', rfl⟩
    obtain ⟨hstep, rfl⟩ := htwin.unique hexec'
    exact ⟨hstep, hsame⟩
  refine ⟨_, _, hrun, hrun', fun hdecided => ?_, fun limit hlimit => ?_⟩
  · obtain ⟨rfl, host₁, rfl⟩ := hsame fun h => hdecided (Result.exceeds_ofStep.2 h)
    exact ⟨rfl, rfl, rfl⟩
  · by_contra hdecided
    obtain ⟨rfl, -⟩ := hsame fun h => hdecided (Result.exceeds_ofStep.2 h)
    have hstep' := Result.exceeds_ofStep.1 hlimit
    rw [hexec.recursionLimit_eq hstep'] at hlimit
    exact hdecided hlimit

/-- Three pairs of parentheses, with room for four slots and then for nine. -/
theorem run_raise_parens : parens.PureCallbacks
    ∧ ({ maxRecursionDepth := 4 } : Config).maxRecursionDepth ≤ 9 ∧ parens.Owns ⟨0, 5⟩ ∧
    ∃ report report',
      parens.run { maxRecursionDepth := 4 } ⟨0, 5⟩ ⟨#[0x28, 0x28, 0x28, 0x29, 0x29, 0x29]⟩ ()
        = .ok report
      ∧ parens.run { maxRecursionDepth := 9 } ⟨0, 5⟩ ⟨#[0x28, 0x28, 0x28, 0x29, 0x29, 0x29]⟩ ()
        = .ok report'
      ∧ (¬report.result.Exceeds 4 →
        report'.result = report.result ∧ report'.stats = report.stats
          ∧ report'.trace = report.trace)
      ∧ ∀ limit, report'.result.Exceeds limit → report.result.Exceeds 4 :=
  ⟨pureCallbacks_parens, by decide, by decide, run_raise pureCallbacks_parens
    { maxRecursionDepth := 4 } (by decide) (by decide)
    ⟨#[0x28, 0x28, 0x28, 0x29, 0x29, 0x29]⟩ () ()⟩

/-! ## The depth that a run needs -/

/-- The run needs so many slots inside one another: with room for them it ends in this step and
leaves this state, whatever its bound, and with less room it ends at the bound. -/
structure Needs (g : Grammar υ σ) (memoize : Bool) (input : Input) (root : Handle) (host : σ)
    (need : Nat) (step : Step υ) (run' : Run υ σ) : Prop where
  depth : run'.stats.maxDepth = need
  decided : ∀ limit, Step.fatal? step ≠ some (.recursionLimit limit)
  above : ∀ bound, need ≤ bound →
    g.Exec { maxRecursionDepth := bound, memoize } input bound (.entry root.index .start)
      (.fresh input host) step run'
  below : ∀ bound, bound < need → ∀ step₀ run₀,
    g.Exec { maxRecursionDepth := bound, memoize } input bound (.entry root.index .start)
      (.fresh input host) step₀ run₀ → Step.fatal? step₀ = some (.recursionLimit bound)

/-- **Every run needs a certain depth**, and no more than the input has room for. -/
theorem exists_need (memoize : Bool) (hroot : g.Owns root) (input : Input) (host : σ) :
    ∃ need step run', need ≤ g.targets.toList.toFinset.card * (8 * input.bytes.size + 1)
      ∧ g.Needs memoize input root host need step run' := by
  generalize hmost : g.targets.toList.toFinset.card * (8 * input.bytes.size + 1) = most
  obtain ⟨step, run', h, -⟩ := exec_root { maxRecursionDepth := most, memoize } hroot input host
  have hdecided := h.not_recursionLimit (Nat.le_of_eq hmost)
  have hmax : run'.stats.maxDepth ≤ max 0 (0 + most) := h.maxDepth_le.2
  refine ⟨_, step, run', by omega, rfl, hdecided, fun bound hbound => ?_, ?_⟩
  · exact h.rebound rfl hdecided (by simpa [Run.fresh] using hbound)
  · intro bound hbound step₀ run₀ h₀
    by_contra hstep₀
    -- Otherwise the run would go the same way at the greater bound, where it needs more.
    have hmax₀ : run₀.stats.maxDepth ≤ max 0 (0 + bound) := h₀.maxDepth_le.2
    have hroom : run₀.stats.maxDepth ≤ 0 + most := by omega
    have hraised : g.Exec { maxRecursionDepth := most, memoize } input most
        (.entry root.index .start) (.fresh input host) step₀ run₀ :=
      h₀.rebound rfl (h₀.decided hstep₀) hroom
    obtain ⟨-, rfl⟩ := hraised.unique h
    omega

section

variable {memoize : Bool} {need : Nat}

/-- What is reported at each bound. -/
theorem Needs.report (h : g.Needs memoize input root host need step run') (hroot : g.Owns root)
    (bound : Nat) :
    ∃ report, g.run { maxRecursionDepth := bound, memoize } root input host = .ok report
      ∧ (report.result.Exceeds bound ↔ bound < need)
      ∧ (need ≤ bound → report.stats.maxDepth = need) := by
  by_cases hbound : need ≤ bound
  · refine ⟨_, run_of_exec hroot (h.above bound hbound), ?_, fun _ => h.depth⟩
    refine iff_of_false (fun hexceeds => ?_) (Nat.not_lt.2 hbound)
    exact h.decided bound (Result.exceeds_ofStep.1 hexceeds)
  · obtain ⟨step₀, run₀, h₀, hrun⟩ :=
      exec_root { maxRecursionDepth := bound, memoize } hroot input host
    have hstep₀ := h.below bound (Nat.lt_of_not_le hbound) step₀ run₀ h₀
    exact ⟨_, hrun, iff_of_true (Result.exceeds_ofStep.2 hstep₀) (Nat.lt_of_not_le hbound),
      fun hneed => absurd hneed hbound⟩

end

/-- **Remembering outcomes never needs more depth.** -/
theorem Needs.le {need need₀ : Nat} {host₀ : σ} {step₀ : Step υ} {run₀ : Run υ σ}
    (hpure : g.PureCallbacks) (hroot : g.Owns root)
    (h : g.Needs true input root host need step run')
    (h₀ : g.Needs false input root host₀ need₀ step₀ run₀) : need ≤ need₀ := by
  by_contra hless
  -- At the depth that the plain run needs the other one would end at the bound, and so would it.
  obtain ⟨step₁, run₁, h₁, -⟩ :=
    exec_root { maxRecursionDepth := need₀, memoize := true } hroot input host
  have hstep₁ := h.below need₀ (Nat.lt_of_not_le hless) step₁ run₁ h₁
  obtain rfl | hlimit := h₁.same_or_recursionLimit (h₀.above need₀ (Nat.le_refl _)) hpure rfl rfl
    rfl rfl trivial (fresh_sound g input host) (fresh_sound g input host₀)
    (fresh_demands g input host _)
  · exact h₀.decided need₀ hstep₁
  · exact h₀.decided need₀ hlimit

/-- **Each run fails at the bound exactly where it needs more depth**, and remembering outcomes may
make it need less. So at the bounds between the two depths the run that works everything out fails
where the other one does not, and at all other bounds both fail there or neither does. What a run
needs is the depth that it reports once it has room for it. -/
theorem run_needs (hpure : g.PureCallbacks) (hroot : g.Owns root) (input : Input)
    (host host₀ : σ) :
    ∃ shallow deep, shallow ≤ deep
      ∧ deep ≤ g.targets.toList.toFinset.card * (8 * input.bytes.size + 1)
      ∧ ∀ bound, ∃ report report₀,
        g.run { maxRecursionDepth := bound, memoize := true } root input host = .ok report
        ∧ g.run { maxRecursionDepth := bound, memoize := false } root input host₀ = .ok report₀
        ∧ (report.result.Exceeds bound ↔ bound < shallow)
        ∧ (report₀.result.Exceeds bound ↔ bound < deep)
        ∧ (shallow ≤ bound → report.stats.maxDepth = shallow)
        ∧ (deep ≤ bound → report₀.stats.maxDepth = deep) := by
  obtain ⟨shallow, step, run', -, h⟩ := exists_need true hroot input host
  obtain ⟨deep, step₀, run₀, hdeep, h₀⟩ := exists_need false hroot input host₀
  refine ⟨shallow, deep, h.le hpure hroot h₀, hdeep, fun bound => ?_⟩
  obtain ⟨report, hrun, hexceeds, hdepth⟩ := h.report hroot bound
  obtain ⟨report₀, hrun₀, hexceeds₀, hdepth₀⟩ := h₀.report hroot bound
  exact ⟨report, report₀, hrun, hrun₀, hexceeds, hexceeds₀, hdepth, hdepth₀⟩

/-- A part behind one slot is looked at ahead, and matched once more behind a second slot. -/
def ahead : Grammar Unit Unit where
  id := 0
  entries := #[.indirect ⟨0⟩, .indirect ⟨1⟩, .node (.byte 0x61), .node (.optional 0),
    .node (.and 3), .node (.sequence [4, 1])]
  targets := #[2, 3]
  child_lt := by decide
  slot_lt := by
    intro i h slot he
    have hmem := Array.getElem_mem h
    rw [he] at hmem
    simp only [List.mem_toArray, List.mem_cons, Entry.indirect.injEq, reduceCtorEq,
      List.not_mem_nil, or_false] at hmem
    obtain rfl | rfl := hmem <;> decide
  target_lt := by decide

theorem pureCallbacks_ahead : ahead.PureCallbacks := by
  intro i node he
  have hmem := Array.mem_of_getElem? he
  simp only [ahead, List.mem_toArray, List.mem_cons, Entry.node.injEq, reduceCtorEq,
    List.not_mem_nil, or_false, false_or] at hmem
  obtain rfl | rfl | rfl | rfl := hmem <;> trivial

/-- The input is one byte that the part accepts. -/
theorem run_needs_ahead : ahead.PureCallbacks ∧ ahead.Owns ⟨0, 5⟩ ∧
    ∃ shallow deep, shallow ≤ deep
      ∧ deep ≤ ahead.targets.toList.toFinset.card * (8 * 1 + 1)
      ∧ ∀ bound, ∃ report report₀,
        ahead.run { maxRecursionDepth := bound, memoize := true } ⟨0, 5⟩ ⟨#[0x61]⟩ ()
          = .ok report
        ∧ ahead.run { maxRecursionDepth := bound, memoize := false } ⟨0, 5⟩ ⟨#[0x61]⟩ ()
          = .ok report₀
        ∧ (report.result.Exceeds bound ↔ bound < shallow)
        ∧ (report₀.result.Exceeds bound ↔ bound < deep)
        ∧ (shallow ≤ bound → report.stats.maxDepth = shallow)
        ∧ (deep ≤ bound → report₀.stats.maxDepth = deep) :=
  ⟨pureCallbacks_ahead, by decide, run_needs pureCallbacks_ahead (by decide) ⟨#[0x61]⟩ () ()⟩

/-- **The two depths differ.** With one slot allowed the plain run fails at the bound, and the run
that remembers outcomes succeeds. -/
theorem exceeds_ahead : ∃ report report₀,
    ahead.run { maxRecursionDepth := 1, memoize := true } ⟨0, 5⟩ ⟨#[0x61]⟩ () = .ok report
      ∧ ahead.run { maxRecursionDepth := 1, memoize := false } ⟨0, 5⟩ ⟨#[0x61]⟩ () = .ok report₀
      ∧ ¬report.result.Exceeds 1 ∧ report₀.result.Exceeds 1 := by
  refine ⟨_, _, rfl, rfl, ?_, _, rfl, rfl⟩
  rintro ⟨f, hf, -⟩
  cases hf

end Grammar

end Packrat
