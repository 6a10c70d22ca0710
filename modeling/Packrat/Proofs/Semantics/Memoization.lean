import Packrat.Proofs.Semantics.Soundness

/-!
# Proofs/Semantics/Memoization — remembering outcomes changes no result

A run that remembers outcomes is carried out next to one that does not. They follow the same targets
and do the same, until the first recalls an outcome and the second works it out. There the second
finds the same outcome, because entries have at most one, or it comes to the bound on slots: it may
have to go deeper than the first run, which has been there before with more room.

Main statements: `Exec.same_or_recursionLimit` for everything that can be carried out, and
`run_memoize` for whole runs.
-/

namespace Packrat.Grammar

variable {υ σ : Type} {g : Grammar υ σ} {config plain : Config} {input : Input} {budget : Nat}
  {task : Task υ σ} {run run' run₀ run₀' : Run υ σ} {step step₀ : Step υ}

/-- **Without remembering outcomes the outcome is the same**, or it is the bound on slots. -/
theorem Exec.same_or_recursionLimit (h : g.Exec config input budget task run step run')
    (h₀ : g.Exec plain input budget task run₀ step₀ run₀') (hpure : g.PureCallbacks)
    (hplain : plain.memoize = false) (hbound : plain.maxRecursionDepth = config.maxRecursionDepth)
    (hlimit : run₀.limit = run.limit) (hactive : run₀.active = run.active) (htask : task.Pure)
    (hsound : run.Sound g input) (hsound₀ : run₀.Sound g input)
    (hdemands : run.Demands g input task) :
    step₀ = step ∨ Step.fatal? step₀ = some (.recursionLimit config.maxRecursionDepth) := by
  induction h generalizing run₀ step₀ run₀' with
  | @recalled budget i start run node step hm he hs =>
    -- The other run works the outcome out; it cannot be stuck there, as there is an outcome.
    obtain ⟨n, hn⟩ : g.Settles input i start run.limit step := hsound _ _ hs
    have hdemands₀ : run₀.Demands g input (.entry i start) :=
      hdemands.pass hactive fun n step hn => ⟨n, Nat.le_refl n, step, hlimit ▸ hn⟩
    obtain ⟨hjudged, -⟩ := h₀.judged hpure htask hsound₀ hdemands₀
    rw [hlimit] at hjudged
    cases hfatal : Step.fatal? step₀ with
    | none =>
      obtain ⟨m, hm⟩ := hjudged.settled hfatal
      exact .inl (SettlesIn.unique hpure hm hn)
    | some kind =>
      obtain rfl | hnone := hjudged.stuck kind hfatal
      · rw [hbound]
        exact .inr rfl
      · exact absurd hn (hnone n step)
  | stored hm he hs h ih =>
    obtain ⟨run₁, h₁⟩ := h₀.plan_of_plain hplain he
    exact ih h₁ hlimit hactive (Node.strict_rule input _ (fun _ _ => trivial) (hpure _ _ he) _)
      hsound hsound₀ (hdemands.evaluate he)
  | fresh hm he h ih =>
    obtain ⟨run₁, h₁⟩ := h₀.plan_of_plain hplain he
    exact ih h₁ hlimit hactive (Node.strict_rule input _ (fun _ _ => trivial) (hpure _ _ he) _)
      hsound hsound₀ (hdemands.evaluate he)
  | reentered he ht ha =>
    obtain ⟨-, rfl⟩ | ⟨ha₀, -⟩ := h₀.indirect_cases he ht
    · exact .inl rfl
    · rw [Run.site, hlimit, hactive] at ha₀
      exact absurd ha ha₀
  | tooDeep he ht ha =>
    obtain ⟨ha₀, -⟩ | ⟨-, ⟨-, rfl⟩ | ⟨b, run₁, hb, -⟩⟩ := h₀.indirect_cases he ht
    · rw [Run.site, hlimit, hactive] at ha₀
      exact absurd ha₀ ha
    · exact .inl (by rw [hbound])
    · exact nomatch hb
  | entered he ht ha h ih =>
    obtain ⟨ha₀, -⟩ | ⟨-, ⟨hb, -⟩ | ⟨b, run₁, hb, h₁⟩⟩ := h₀.indirect_cases he ht
    · rw [Run.site, hlimit, hactive] at ha₀
      exact absurd ha₀ ha
    · exact nomatch hb
    · obtain rfl := Nat.succ.inj hb
      refine ih h₁ hlimit ?_ trivial hsound hsound₀ (hdemands.enter he ht)
      rw [Run.active_enter, Run.active_enter, Run.site, hlimit, hactive]
  | done hf =>
    cases h₀ with
    | done hf₀ => exact .inl rfl
  | look h ih =>
    cases h₀ with
    | look h₀ =>
      rw [hlimit] at h₀
      exact ih h₀ hlimit hactive (htask _) hsound hsound₀ hdemands
  | @abort budget self run window c start next f f' run' h hf hnext hkind ih =>
    have hwindow : window.getD run₀.limit = window.getD run.limit := by rw [hlimit]
    cases h₀ with
    | abort h₀ hf₀ hnext₀ hkind₀ =>
      rw [hwindow] at h₀
      obtain heq | hlimit₀ := ih h₀ rfl hactive trivial hsound hsound₀ hdemands.child
      · obtain rfl := Except.error.inj heq
        exact .inl (Plan.done.inj (hnext₀.symm.trans hnext))
      · exact .inr ((Step.fatal?_error_congr hkind₀).trans hlimit₀)
    | apply h₀ hf₀ hnext₀ =>
      rw [hwindow] at h₀
      obtain rfl | hlimit₀ := ih h₀ rfl hactive trivial hsound hsound₀ hdemands.child
      · exact nomatch hf₀.symm.trans (if_pos hf)
      · exact nomatch hf₀.symm.trans hlimit₀
  | @apply budget self run window c start next step run' step' run'' h hf hnext ihChild ihNext =>
    have hwindow : window.getD run₀.limit = window.getD run.limit := by rw [hlimit]
    cases h₀ with
    | abort h₀ hf₀ hnext₀ hkind₀ =>
      rw [hwindow] at h₀
      obtain rfl | hlimit₀ := ihChild h₀ rfl hactive trivial hsound hsound₀ hdemands.child
      · exact nomatch hf.symm.trans (if_pos hf₀)
      · exact .inr ((Step.fatal?_error_congr hkind₀).trans hlimit₀)
    | apply h₀ hf₀ hnext₀ =>
      rw [hwindow] at h₀
      obtain rfl | hlimit₀ := ihChild h₀ rfl hactive trivial hsound hsound₀ hdemands.child
      · obtain ⟨⟨k, hk⟩, hsound'⟩ := h.settles hsound hf
        obtain ⟨-, hsound₀'⟩ := h₀.settles hsound₀ hf
        refine ihNext hnext₀ hlimit ?_ (htask.2.2 _ hf) hsound' hsound₀'
          (hdemands.rest hpure hk h.agrees.active)
        exact h₀.agrees.active.trans (hactive.trans h.agrees.active.symm)
      · exact nomatch hf₀.symm.trans hlimit₀
  | @call budget self run β kind start m next step run' f hnext ih =>
    cases h₀ with
    | call hnext₀ =>
      have hagrees := Matcher.call_agrees self kind f start m run
      have hagrees₀ := Matcher.call_agrees self kind f start m run₀
      have hanswer := htask.1.unique (Matcher.answers_call self kind f start m run₀)
        (Matcher.answers_call self kind f start m run)
      rw [hanswer] at hnext₀
      refine ih hnext₀ ?_ ?_ (htask.2 _) hsound.call hsound₀.call (hdemands.answered htask.1)
      · rw [hagrees₀.limit, hagrees.limit, hlimit]
      · rw [hagrees₀.active, hagrees.active, hactive]

/-- **Memoization does not change results.** With pure callbacks the run that works everything out
anew has the result of the run that remembers outcomes, or it fails at the bound on slots; and it
fails there whenever the other one does. -/
theorem run_memoize (hpure : g.PureCallbacks) (config : Config) {root : Handle}
    (hroot : g.Owns root) (input : Input) (host host₀ : σ) :
    ∃ report report₀, g.run { config with memoize := true } root input host = .ok report
      ∧ g.run { config with memoize := false } root input host₀ = .ok report₀
      ∧ (report₀.result = report.result ∨
        ∃ f, report₀.result = .error f ∧ f.kind = .recursionLimit config.maxRecursionDepth)
      ∧ ∀ f, report.result = .error f → f.kind = .recursionLimit config.maxRecursionDepth →
        ∃ f₀, report₀.result = .error f₀ ∧ f₀.kind = .recursionLimit config.maxRecursionDepth := by
  obtain ⟨report, step, run', hrun, hexec, hresult, -⟩ :=
    exec_run { config with memoize := true } hroot input host
  obtain ⟨report₀, step₀, run₀', hrun₀, hexec₀, hresult₀, -⟩ :=
    exec_run { config with memoize := false } hroot input host₀
  have hsame := hexec.same_or_recursionLimit hexec₀ hpure rfl rfl rfl rfl trivial
    (fresh_sound g input host) (fresh_sound g input host₀) (fresh_demands g input host _)
  refine ⟨report, report₀, hrun, hrun₀, ?_⟩
  rw [hresult, hresult₀]
  obtain rfl | hlimit := hsame
  · exact ⟨.inl rfl, fun f hf hkind => ⟨f, hf, hkind⟩⟩
  · obtain ⟨f₀, rfl, -, hf₀⟩ := Step.fatal?_eq_some.1 hlimit
    exact ⟨.inr ⟨f₀, rfl, hf₀⟩, fun _ _ _ => ⟨f₀, rfl, hf₀⟩⟩

/-- The input is two pairs of parentheses, one inside the other. -/
theorem run_memoize_parens : parens.PureCallbacks ∧ parens.Owns ⟨0, 5⟩ ∧
    ∃ report report₀,
      parens.run { maxRecursionDepth := 2, memoize := true } ⟨0, 5⟩ ⟨#[0x28, 0x28, 0x29, 0x29]⟩ ()
        = .ok report
      ∧ parens.run { maxRecursionDepth := 2, memoize := false } ⟨0, 5⟩
        ⟨#[0x28, 0x28, 0x29, 0x29]⟩ () = .ok report₀
      ∧ (report₀.result = report.result ∨
        ∃ f, report₀.result = .error f ∧ f.kind = .recursionLimit 2)
      ∧ ∀ f, report.result = .error f → f.kind = .recursionLimit 2 →
        ∃ f₀, report₀.result = .error f₀ ∧ f₀.kind = .recursionLimit 2 :=
  ⟨pureCallbacks_parens, by decide, run_memoize pureCallbacks_parens { maxRecursionDepth := 2 }
    (by decide) ⟨#[0x28, 0x28, 0x29, 0x29]⟩ () ()⟩

end Packrat.Grammar
