import Packrat.Proofs.Semantics.Adequacy
import Packrat.Proofs.Semantics.Soundness

/-!
# Proofs/Semantics/Refinement — the engine against the rules of inference

The engine is judged rightly by outcomes (`Exec.judged`), and outcomes are what the rules of
inference derive (`derives_iff_settles`). Together: a run that does not fail for good ends in the
one outcome that can be derived for its root, and left recursion is reported only where nothing can
be derived.
-/

namespace Packrat.Grammar

variable {υ σ : Type} {g : Grammar υ σ} {input : Input} {limit start : Cursor} {step step' : Step υ}
  {i : Nat}

/-- **At most one outcome can be derived**, if callbacks are pure. -/
theorem Derives.unique (hpure : g.PureCallbacks) (hstart : start.Spans limit)
    (h : g.Derives input limit (.entry i start) step)
    (h' : g.Derives input limit (.entry i start) step') : step = step' :=
  ((derives_iff_settles hstart).1 h).unique hpure ((derives_iff_settles hstart).1 h')

/-- **The engine refines the rules of inference.** A run that does not end in a fatal failure ends
in the outcome of its root, the only one that can be derived; and if a run ends in left recursion,
then nothing can be derived for its root. -/
theorem run_refines (hpure : g.PureCallbacks) (config : Config) {root : Handle}
    (hroot : g.Owns root) (input : Input) (host : σ) :
    ∃ report, g.run config root input host = .ok report
      ∧ ((∀ f, report.result = .error f → ¬f.isFatal) →
        ∃ step, g.Derives input input.stop (.entry root.index .start) step
          ∧ report.result = .ofStep step
          ∧ ∀ step', g.Derives input input.stop (.entry root.index .start) step' → step' = step)
      ∧ ∀ f slot, report.result = .error f → f.kind = .leftRecursion slot →
        ∀ step, ¬g.Derives input input.stop (.entry root.index .start) step := by
  obtain ⟨report, step, run', hrun, hexec, hresult, -⟩ := exec_run config hroot input host
  obtain ⟨hjudged, -⟩ := hexec.judged hpure trivial (fresh_sound g input host)
    (fresh_demands g input host _)
  have hstart : Cursor.start.Spans input.stop :=
    .of_bitPosition_le (Nat.succ_pos 7) (Nat.succ_pos 7) (Nat.zero_le _)
  refine ⟨report, hrun, fun hcalm => ?_, fun f slot hf hslot step' h => ?_⟩
  · have hfatal : Step.fatal? step = none := by
      cases step with
      | ok m => rfl
      | error f =>
        rw [Step.fatal?_error_eq_none]
        simpa using hcalm f hresult
    obtain ⟨n, hn⟩ := hjudged.settled hfatal
    have hderives := (derives_iff_settles hstart).2 ⟨n, hn⟩
    exact ⟨step, hderives, hresult, fun step' h => h.unique hpure hstart hderives⟩
  · have hstep : step = .error f := by
      rw [hresult] at hf
      cases step with
      | ok m => cases hf
      | error f' => exact congrArg Except.error (Except.error.inj hf)
    have hfatal : Step.fatal? step = some (.leftRecursion slot) := by
      rw [hstep]
      exact Step.fatal?_eq_some.2 ⟨f, rfl, by rw [Fail.isFatal, hslot]; rfl, hslot⟩
    obtain hlimit | hnone := hjudged.stuck _ hfatal
    · cases hlimit
    · obtain ⟨n, hn⟩ := (derives_iff_settles hstart).1 h
      exact hnone n step' hn

/-- The input is a pair of parentheses. -/
theorem run_refines_parens : parens.PureCallbacks ∧ parens.Owns ⟨0, 5⟩ ∧
    ∃ report, parens.run {} ⟨0, 5⟩ ⟨#[0x28, 0x29]⟩ () = .ok report
      ∧ ((∀ f, report.result = .error f → ¬f.isFatal) →
        ∃ step, parens.Derives ⟨#[0x28, 0x29]⟩ (.atByte 2) (.entry 5 .start) step
          ∧ report.result = .ofStep step
          ∧ ∀ step', parens.Derives ⟨#[0x28, 0x29]⟩ (.atByte 2) (.entry 5 .start) step' →
            step' = step)
      ∧ ∀ f slot, report.result = .error f → f.kind = .leftRecursion slot →
        ∀ step, ¬parens.Derives ⟨#[0x28, 0x29]⟩ (.atByte 2) (.entry 5 .start) step :=
  ⟨pureCallbacks_parens, by decide,
    run_refines pureCallbacks_parens {} (by decide) ⟨#[0x28, 0x29]⟩ ()⟩

end Packrat.Grammar
