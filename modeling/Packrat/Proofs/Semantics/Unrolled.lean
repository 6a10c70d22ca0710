import Packrat.Proofs.Engine.Attempts
import Packrat.Proofs.Semantics.Repetition

/-!
# Proofs/Semantics/Unrolled — counted repetitions spelled out

A counted repetition and the row of so many copies of its item have the same outcome, whatever it
is: they match alike, and they fail alike, for good or not, but for where they say so
(`repeatN_unrolled`).

Fatal failures depend on the state, so the two are compared in one state, attempt by attempt
(`Attempts`); other outcomes do not, so they are compared wherever they are found.
-/

namespace Packrat.Grammar

variable {υ σ : Type} {g : Grammar υ σ} {config : Config} {input : Input} {i j x k : Nat}
  {start cursor limit : Cursor} {step : Step υ} {run run' : Run υ σ} {values : Array (Value υ)}

/-! ## In one state -/

/-- Nothing is remembered of the entry where the run stands. -/
def Forgets (config : Config) (run : Run υ σ) (i : Nat) (start : Cursor) : Prop :=
  config.memoize = true → run.memo[run.site i start]? = none

/-- What an entry does of which nothing is remembered is what its rule does. -/
theorem exec_plan_iff (budget : Nat) {n : Node Nat υ σ} (he : g.IsNode i n)
    (hforgets : Forgets config run i start) :
    (∃ run', g.Exec config input budget (.plan i (n.rule input start))
      (run.note (.evaluated (run.site i start))) step run') ↔
        (g.matcher config input budget i start run).1 = step := by
  have hentry : g.Exec config input budget (.entry i start) run
      (g.matcher config input budget i start run).1
      (g.matcher config input budget i start run).2 :=
    exec_matcher budget (lt_size_of_entry he) start run
  cases hm : config.memoize with
  | true =>
    constructor
    · rintro ⟨run', h⟩
      exact (hentry.unique (.stored hm he (hforgets hm) h)).1.symm
    · rintro rfl
      obtain ⟨hsome, -⟩ | ⟨-, run', h, -⟩ := hentry.node_cases hm he
      · cases (hforgets hm).symm.trans hsome
      · exact ⟨run', h⟩
  | false =>
    constructor
    · rintro ⟨run', h⟩
      exact (hentry.unique (.fresh hm he h)).1.symm
    · rintro rfl
      exact hentry.plan_of_plain hm he

/-- An outcome of the last attempt is reported where the attempts began as it is reported where the
last one was made, but for the place. -/
theorem reportedAt_movedTo {last : Cursor} (h : Step.Within last limit step)
    (hlast : start.Spans last) : step.reportedAt start = (step.reportedAt last).movedTo start := by
  cases step with
  | ok m => rfl
  | error f =>
    have hmoved : f.reportedAt start = (f.reportedAt last).movedTo start := by
      rw [Fail.Within.reportedAt_eq h hlast, Fail.Within.reportedAt_eq h h.before.self]
      rfl
    exact congrArg Except.error hmoved

/-! ## Wherever they are found -/

/-- Matches in a row are those of a row of copies. -/
theorem derives_copies {ms : List (Match υ)}
    (hms : InRow (fun c s => g.Derives input limit (.entry x c) s) cursor ms)
    (hstep : (ms.length = k ∧ step = .ok (.of (stopBehind cursor ms)
        (.sequence (values.toList ++ Match.values ms)))) ∨
      ms.length < k ∧ ∃ f, g.Derives input limit (.entry x (stopBehind cursor ms)) (.error f)
        ∧ step = .error (f.reportedAt start)) :
    g.Derives input limit (.row start (List.replicate k x) cursor values) step := by
  exact hms.counted
    (P := fun k c vs s => g.Derives input limit (.row start (List.replicate k x) c vs) s)
    .row_nil .row_fail .row_cons hstep

/-- **A counted repetition agrees with the row of so many copies.** In one state that remembers
neither, the row does what the repetition does, and if they fail, for good or not, the failures
differ in position only: the row tells where it began, and the repetition where the attempt was made
that failed. Wherever an outcome of the repetition is found that is not fatal, the row ends the same
way, and a failure is told behind as many matches as there were. -/
theorem repeatN_unrolled (hpure : g.PureCallbacks) (hi : g.IsNode i (.repeatN x k))
    (hj : g.IsNode j (.sequence (List.replicate k x))) (hstart : start.Spans limit) :
    (∀ (config : Config) (budget : Nat) (run : Run υ σ), run.InBounds input → run.limit = limit →
        Forgets config run i start → Forgets config run j start →
        (g.matcher config input budget j start run).1
            = (g.matcher config input budget i start run).1.movedTo start
          ∧ ∀ f, (g.matcher config input budget i start run).1 = .error f →
            ∃ raw run', Attempts (g.applies config input budget) x k start #[]
                (run.note (.evaluated (run.site i start))) (.error raw) f.position run'
              ∧ f = raw.movedTo f.position) ∧
      ∀ step, g.Found input i start limit step → Step.fatal? step = none →
        g.EndsAs input j start limit (step.movedTo start)
          ∧ ∀ f, step = .error f → ∃ ms raw, ms.length < k
            ∧ InRow (fun c s => g.EndsAs input x c limit s) start ms
            ∧ f.position = stopBehind start ms
            ∧ g.EndsAs input x f.position limit (.error raw)
            ∧ f = raw.movedTo f.position := by
  refine ⟨fun config budget run hrun hlimit hforgets hforgets' => ?_, fun step hfound hf => ?_⟩
  · subst hlimit
    obtain ⟨run', hplan⟩ := (exec_plan_iff budget hi hforgets).2 rfl
    obtain ⟨raw, last, hattempts, hstep⟩ := Exec.attempts hplan
    obtain ⟨hlast, hwithin⟩ := hattempts.inBounds hstart (hrun.note (hrun.site hstart i))
    -- The row starts in a state in which something else was told last.
    have hretold : (run.note (.evaluated (run.site i start))).Retold
        (run.note (.evaluated (run.site j start))) :=
      (run.retold_note _).symm.trans (run.retold_note _)
    obtain ⟨twin, hrow, -⟩ := hattempts.retold hretold
    have hplan' := (exec_plan_iff budget hj hforgets').1 ⟨twin, hrow.exec_row⟩
    refine ⟨?_, fun f hfail => ?_⟩
    · rw [hplan', hstep]
      exact reportedAt_movedTo hwithin hlast
    · rw [hstep] at hfail
      cases raw with
      | ok m => cases hfail
      | error raw =>
        obtain rfl := Except.error.inj hfail
        exact ⟨raw, run', hattempts, Fail.Within.reportedAt_eq hwithin hwithin.before.self⟩
  · have hends := hfound.ends (lt_size_of_entry hi) hf hpure hstart
    obtain ⟨ms, hms, hstep⟩ := derives_times_iff.1 ((derives_repeatN_iff hi hstart).1 hends.derives)
    have hwithin : ∀ c s, c.Spans limit → g.Derives input limit (.entry x c) s →
        Step.Within c limit s := fun c s hc h => h.within hc
    obtain ⟨hspans, hstop⟩ := hms.spans hstart hwithin
    obtain ⟨hlength, rfl⟩ | ⟨hlt, raw, hraw, rfl⟩ := hstep
    · refine ⟨?_, fun f hfail => ?_⟩
      · exact (Derives.sequence hj (derives_copies hms (.inl ⟨hlength, rfl⟩))).ends hpure hstart
      · cases hfail
    · have hmoved : Step.movedTo (.error (raw.reportedAt (stopBehind start ms)) : Step υ) start
          = .error (raw.reportedAt start) := (reportedAt_movedTo (hraw.within hstop) hspans).symm
      refine ⟨?_, fun f hfail => ?_⟩
      · rw [hmoved]
        exact (Derives.sequence hj (derives_copies hms (.inr ⟨hlt, raw, hraw, rfl⟩))).ends hpure
          hstart
      · obtain rfl := Except.error.inj hfail
        exact ⟨ms, raw, hlt, hms.mono hstart hwithin fun c m hc h => h.ends hpure hc, rfl,
          hraw.ends hpure hstop, Fail.Within.reportedAt_eq (hraw.within hstop) hstop.self⟩

/-- Two letters are wanted, and there is one. -/
theorem repeatN_unrolled_letters : lists.PureCallbacks ∧ lists.IsNode 9 (.repeatN 0 2)
    ∧ lists.IsNode 10 (.sequence (List.replicate 2 0)) ∧ Cursor.start.Spans (.atByte 2)
    ∧ (Run.fresh ⟨#[0x61, 0x2c]⟩ () : Run Unit Unit).InBounds ⟨#[0x61, 0x2c]⟩
    ∧ Forgets {} (.fresh ⟨#[0x61, 0x2c]⟩ () : Run Unit Unit) 9 .start
    ∧ Forgets {} (.fresh ⟨#[0x61, 0x2c]⟩ () : Run Unit Unit) 10 .start
    ∧ lists.Found ⟨#[0x61, 0x2c]⟩ 9 .start (.atByte 2) (.error (.noMatch (.atByte 1))) ∧
    ((lists.matcher {} ⟨#[0x61, 0x2c]⟩ 0 10 .start (.fresh ⟨#[0x61, 0x2c]⟩ ())).1
        = (lists.matcher {} ⟨#[0x61, 0x2c]⟩ 0 9 .start (.fresh ⟨#[0x61, 0x2c]⟩ ())).1.movedTo .start
      ∧ ∀ f, (lists.matcher {} ⟨#[0x61, 0x2c]⟩ 0 9 .start (.fresh ⟨#[0x61, 0x2c]⟩ ())).1
          = .error f → ∃ raw run', Attempts (lists.applies {} ⟨#[0x61, 0x2c]⟩ 0) 0 2 .start #[]
            ((Run.fresh ⟨#[0x61, 0x2c]⟩ ()).note (.evaluated ⟨9, .start, .atByte 2⟩))
            (.error raw) f.position run'
          ∧ f = raw.movedTo f.position) ∧
    (lists.EndsAs ⟨#[0x61, 0x2c]⟩ 10 .start (.atByte 2)
        (Step.movedTo (.error (.noMatch (.atByte 1))) .start)
      ∧ ∀ f, (.error (.noMatch (.atByte 1)) : Step Unit) = .error f → ∃ ms raw, ms.length < 2
        ∧ InRow (fun c s => lists.EndsAs ⟨#[0x61, 0x2c]⟩ 0 c (.atByte 2) s) .start ms
        ∧ f.position = stopBehind .start ms
        ∧ lists.EndsAs ⟨#[0x61, 0x2c]⟩ 0 f.position (.atByte 2) (.error raw)
        ∧ f = raw.movedTo f.position) :=
  have hstart : Cursor.start.Spans (.atByte 2) := ⟨by decide, by decide, by decide⟩
  have hbounds : (Run.fresh ⟨#[0x61, 0x2c]⟩ () : Run Unit Unit).InBounds ⟨#[0x61, 0x2c]⟩ :=
    .fresh ⟨#[0x61, 0x2c]⟩ ()
  have hforgets : ∀ i, Forgets {} (.fresh ⟨#[0x61, 0x2c]⟩ () : Run Unit Unit) i .start :=
    fun _ _ => Run.memo_fresh
  have hfound : lists.Found ⟨#[0x61, 0x2c]⟩ 9 .start (.atByte 2)
      (.error (.noMatch (.atByte 1))) := .of_fresh {} 0 () (by decide +kernel)
  have h := repeatN_unrolled pureCallbacks_lists (i := 9) (j := 10) rfl rfl hstart
  ⟨pureCallbacks_lists, rfl, rfl, hstart, hbounds, hforgets 9, hforgets 10, hfound,
    h.1 {} 0 _ hbounds rfl (hforgets 9) (hforgets 10), h.2 _ hfound rfl⟩

end Packrat.Grammar
