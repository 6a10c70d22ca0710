import Packrat.Proofs.Engine.Lockstep
import Packrat.Proofs.Semantics.Integers

/-!
# Proofs/Semantics/Windows — what lies behind a window has no influence

A window ends at a bit position, and nothing behind it is ever read through it. So on two inputs
that agree up to the window's end an entry does the same in both, from a fresh state on
(`matcher_isolates`): the rest of the input may differ, and so may the rest of the byte in which the
window ends.

A whole run comes to a window in whatever state it is in by then. The outcome there is still one
that the window alone decides (`Alike`), because it is the outcome of the entry (`SettlesIn.congr`)
or tells that there is none (`Passes.judged`); only the bound on slots depends on what happened
before.

The window that a length declares is such a window: nothing behind it has any influence on the value
in it, nor on what a length and a value come to together (`lengthValue_isolates`).
-/

namespace Packrat.Grammar

variable {υ σ : Type} {g : Grammar υ σ} {config : Config} {input input' : Input} {root : Handle}
  {host : σ} {limit limit' start : Cursor} {i : Nat} {step : Step υ}

/-! ## Outcomes in a window -/

/-- **Inputs that agree up to the end of a window have the same outcomes in it.** -/
theorem SettlesIn.congr {n : Nat} (hagree : Input.Agree limit input input')
    (hstart : start.Spans limit) (h : g.SettlesIn input n i start limit step) :
    g.SettlesIn input' n i start limit step := by
  induction n generalizing i start limit step with
  | zero => exact h.elim
  | succ n ih =>
    rw [SettlesIn] at h ⊢
    split at h
    · next node _ =>
      have hrule := (h.within (node.bounded_rule input limit start hstart)
        fun _ _ _ _ hcursor hwindow hs =>
          ⟨ih (hagree.narrow hwindow) hcursor hs, hs.within hcursor⟩).1
      rw [← Plan.yields_knowing, node.knowing_rule hagree, Plan.yields_knowing] at hrule
      exact hrule
    · obtain ⟨target, ht, h⟩ := h
      exact ⟨target, ht, ih hagree hstart h⟩
    · exact h.elim

theorem settles_congr (hagree : Input.Agree limit input input') (hstart : start.Spans limit) :
    g.Settles input i start limit step ↔ g.Settles input' i start limit step :=
  exists_congr fun _ => ⟨.congr hagree hstart, .congr hagree.symm hstart⟩

/-! ## What is demanded at a moment -/

theorem Leads.demands {a b : Moment υ σ} (hpure : g.PureCallbacks)
    (h : g.Leads config input a b) (hp : a.task.Pure) (hsound : a.run.Sound g input)
    (ha : a.run.Demands g input a.task) : b.task.Pure ∧ b.run.Demands g input b.task := by
  cases h with
  | @evaluated budget i start run n he hs =>
    exact ⟨n.strict_rule input (fun _ _ => trivial) (hpure i n he) start, ha.evaluate he⟩
  | entered he ht hactive => exact ⟨trivial, ha.enter he ht⟩
  | look => exact ⟨hp _, ha⟩
  | child => exact ⟨trivial, ha.child⟩
  | rest h hf =>
    obtain ⟨⟨k, hk⟩, -⟩ := h.settles hsound hf
    exact ⟨hp.2.2 _ hf, ha.rest hpure hk h.agrees.active⟩
  | called => exact ⟨hp.2 _, ha.answered hp.1⟩

/-- At every moment of a run the targets being followed demand what is carried out. -/
theorem Passes.demands {moment : Moment υ σ} (hpure : g.PureCallbacks)
    (h : g.Passes config input root host moment) :
    moment.task.Pure ∧ moment.run.Sound g input ∧ moment.run.Demands g input moment.task := by
  refine h.invariant
    (P := fun m => m.task.Pure ∧ m.run.Sound g input ∧ m.run.Demands g input m.task)
    ⟨trivial, fresh_sound g input host, fresh_demands g input host _⟩ ?_
  rintro a b ⟨hp, hsound, ha⟩ hab
  obtain ⟨hp', hb⟩ := hab.demands hpure hp hsound ha
  exact ⟨hp', hab.sound hsound, hb⟩

/-- **Whatever a run comes to is judged rightly.** -/
theorem Passes.judged {moment : Moment υ σ} {run' : Run υ σ} (hpure : g.PureCallbacks)
    (h : g.Passes config input root host moment)
    (hexec : g.Exec config input moment.budget moment.task moment.run step run') :
    moment.task.Judged g config input moment.run.limit step := by
  obtain ⟨hp, hsound, hdemands⟩ := h.demands hpure
  exact (hexec.judged hpure hp hsound hdemands).1

/-! ## Windows isolate -/

/-- Whole runs on two inputs have the same outcome for an entry whenever it is matched at the
cursor, in a window that ends at `limit` in the first one and at `limit'` in the second: the
outcomes are the same, or there is none on either input, or one of the runs has come to its bound on
slots. -/
def Alike (g : Grammar υ σ) (input input' : Input) (i : Nat) (start limit limit' : Cursor) : Prop :=
  ∀ (config config' : Config) (root root' : Handle) (host host' : σ) (m m' : Moment υ σ)
    (step step' : Step υ) (after after' : Run υ σ),
    g.Passes config input root host m → m.task = .entry i start → m.run.limit = limit →
    g.Exec config input m.budget m.task m.run step after →
    g.Passes config' input' root' host' m' → m'.task = .entry i start → m'.run.limit = limit' →
    g.Exec config' input' m'.budget m'.task m'.run step' after' →
      step' = step ∨ (Step.fatal? step ≠ none ∧ Step.fatal? step' ≠ none)
        ∨ Step.fatal? step = some (.recursionLimit config.maxRecursionDepth)
        ∨ Step.fatal? step' = some (.recursionLimit config'.maxRecursionDepth)

/-- Where one outcome is settled, the other is the same or stands at the bound on slots. -/
theorem eq_or_recursionLimit_of_judged {config' : Config} {step' : Step υ} (hpure : g.PureCallbacks)
    (hsettles : g.Settles input i start limit step → g.Settles input' i start limit' step)
    (h : (Task.entry i start : Task υ σ).Judged g config input limit step)
    (h' : (Task.entry i start : Task υ σ).Judged g config' input' limit' step')
    (hf : Step.fatal? step = none) :
    step' = step ∨ Step.fatal? step' = some (.recursionLimit config'.maxRecursionDepth) := by
  obtain ⟨n, hn⟩ := hsettles (h.settled hf)
  cases hf' : Step.fatal? step' with
  | none =>
    obtain ⟨m, hm⟩ := h'.settled hf'
    exact .inl (SettlesIn.unique hpure hm hn)
  | some kind =>
    obtain rfl | hnone := h'.stuck kind hf'
    · exact .inr rfl
    · exact absurd hn (hnone n step)

/-- **Entries with the same outcomes are alike in whole runs.** -/
theorem alike_of_settles (hpure : g.PureCallbacks)
    (hsettles : ∀ step, g.Settles input i start limit step ↔ g.Settles input' i start limit' step) :
    g.Alike input input' i start limit limit' := by
  intro config config' root root' host host' m m' step step' after after' hm htask hlimit hexec
    hm' htask' hlimit' hexec'
  have h := hm.judged hpure hexec
  have h' := hm'.judged hpure hexec'
  rw [htask, hlimit] at h
  rw [htask', hlimit'] at h'
  cases hf : Step.fatal? step with
  | none =>
    obtain hsame | hdeep := eq_or_recursionLimit_of_judged hpure (hsettles step).1 h h' hf
    · exact .inl hsame
    · exact .inr (.inr (.inr hdeep))
  | some kind =>
    cases hf' : Step.fatal? step' with
    | none =>
      obtain hsame | hdeep := eq_or_recursionLimit_of_judged hpure (hsettles step').2 h' h hf'
      · exact .inl hsame.symm
      · exact .inr (.inr (.inl (hf ▸ hdeep)))
    | some kind' => exact .inr (.inl ⟨Option.some_ne_none _, Option.some_ne_none _⟩)

/-- From a fresh state the matchers of an entry go through the same on both inputs. -/
theorem exists_twin (hpure : g.PureCallbacks) (hagree : Input.Agree limit input input')
    (hi : i < g.entries.size) (hstart : start.Spans limit) (config : Config) (host host' : σ) :
    ∃ step run run', g.matcher config input config.maxRecursionDepth i start { limit, host }
        = (step, run)
      ∧ g.matcher config input' config.maxRecursionDepth i start { limit, host := host' }
        = (step, run')
      ∧ run.Twin run' := by
  have hfresh : ({ limit, host } : Run υ σ).InBounds input :=
    (Run.InBounds.fresh input host).withLimit hagree.left
  have hexec : g.Exec config input config.maxRecursionDepth (.entry i start)
      { limit, host } _ _ := exec_matcher config.maxRecursionDepth hi start _
  have hexec' : g.Exec config input' config.maxRecursionDepth (.entry i start)
      { limit, host := host' } _ _ := exec_matcher config.maxRecursionDepth hi start _
  obtain ⟨twin, htwin, hsame⟩ := hexec.lockstep hpure hagree ⟨rfl, hstart⟩ trivial hfresh
    ⟨host', rfl⟩
  obtain ⟨hstep, rfl⟩ := htwin.unique hexec'
  refine ⟨_, _, _, rfl, ?_, hsame⟩
  exact Prod.ext hstep rfl

/-- **Windows isolate.** On two inputs that agree up to the end of a window, an entry that is
matched in it from a fresh state ends in the same step, and the same happens on the way. In whole
runs, of whatever roots and in whatever settings, an entry that is matched in such a window has the
same outcome whenever it has one: the outcomes are the same, or there is none on either input, or
one of the runs has come to its bound on slots. -/
theorem matcher_isolates (hpure : g.PureCallbacks) (hagree : Input.Agree limit input input')
    (hi : i < g.entries.size) (hstart : start.Spans limit) :
    (∀ (config : Config) (host host' : σ),
      ∃ step run run', g.matcher config input config.maxRecursionDepth i start { limit, host }
          = (step, run)
        ∧ g.matcher config input' config.maxRecursionDepth i start { limit, host := host' }
          = (step, run')
        ∧ run.Twin run')
      ∧ g.Alike input input' i start limit limit :=
  ⟨exists_twin hpure hagree hi hstart,
    alike_of_settles hpure fun _ => settles_congr hagree hstart⟩

/-- The window ends inside the second byte, and the inputs differ from there on, in the rest of that
byte too. -/
theorem matcher_isolates_parens : parens.PureCallbacks
    ∧ Input.Agree ⟨1, 4⟩ ⟨#[0x28, 0x29]⟩ ⟨#[0x28, 0x2f, 0x00]⟩ ∧ 5 < parens.entries.size
    ∧ Cursor.start.Spans ⟨1, 4⟩ ∧
    (∀ (config : Config) (host host' : Unit),
      ∃ step run run', parens.matcher config ⟨#[0x28, 0x29]⟩ config.maxRecursionDepth 5 .start
          { limit := ⟨1, 4⟩, host } = (step, run)
        ∧ parens.matcher config ⟨#[0x28, 0x2f, 0x00]⟩ config.maxRecursionDepth 5 .start
          { limit := ⟨1, 4⟩, host := host' } = (step, run')
        ∧ run.Twin run')
      ∧ parens.Alike ⟨#[0x28, 0x29]⟩ ⟨#[0x28, 0x2f, 0x00]⟩ 5 .start ⟨1, 4⟩ ⟨1, 4⟩ :=
  have hagree : Input.Agree ⟨1, 4⟩ ⟨#[0x28, 0x29]⟩ ⟨#[0x28, 0x2f, 0x00]⟩ :=
    ⟨⟨by decide, by decide, by decide⟩, ⟨by decide, by decide, by decide⟩, by decide⟩
  have hstart : Cursor.start.Spans ⟨1, 4⟩ := ⟨by decide, by decide, by decide⟩
  ⟨pureCallbacks_parens, hagree, by decide, hstart,
    matcher_isolates pureCallbacks_parens hagree (by decide) hstart⟩

/-! ## Declared windows isolate -/

section

variable {length value : Nat} {ml : Match υ} {stop : Cursor}

/-- Behind a length that declares a window, what the value in it comes to decides all. -/
theorem settles_lengthValue (hpure : g.PureCallbacks)
    (he : g.entries[i]? = some (.node (.lengthValue length value)))
    (hlength : g.Settles input length start limit (.ok ml))
    (hwindow : Rule.windowEnd? ml limit = some stop) :
    g.Settles input i start limit step ↔
      (∃ f, g.Settles input value ml.stop stop (.error f) ∧ .error (f.reportedAt start) = step) ∨
        ∃ mv, g.Settles input value ml.stop stop (.ok mv) ∧
          ((mv.stop = stop ∧ .ok mv = step) ∨
            mv.stop ≠ stop ∧ .error ((Fail.noMatch start).reached mv.stop) = step) := by
  rw [settles_node he]
  simp only [Node.rule, Rule.yields_lengthValue, Rule.yields_child, Rule.yields_childWithin]
  constructor
  · rintro (⟨f, hf, -⟩ | ⟨m, hm, hrest⟩)
    · cases hf.unique hpure hlength
    · obtain rfl := Except.ok.inj (hm.unique hpure hlength)
      obtain ⟨hnone, -⟩ | ⟨stop', hstop', hvalue⟩ := hrest
      · cases hnone.symm.trans hwindow
      · obtain rfl := Option.some.inj (hwindow.symm.trans hstop')
        exact hvalue
  · exact fun h => .inr ⟨ml, hlength, .inr ⟨stop, hwindow, h⟩⟩

/-- **A declared window isolates.** Where a length has been read and the window that it declares is
there, in whatever windows around it, two inputs that agree up to the end of the declared one are
the same to the value in it: from a fresh state it ends in the same step, and the same happens on
the way, and in whole runs it has the same outcome whenever it has one. So have the length and the
value together, match and failure alike. -/
theorem lengthValue_isolates (hpure : g.PureCallbacks)
    (he : g.entries[i]? = some (.node (.lengthValue length value)))
    (hstart : start.Spans limit) (hlength : g.Settles input length start limit (.ok ml))
    (hlength' : g.Settles input' length start limit' (.ok ml))
    (hwindow : Rule.windowEnd? ml limit = some stop)
    (hwindow' : Rule.windowEnd? ml limit' = some stop) (hagree : Input.Agree stop input input') :
    (∀ (config : Config) (host host' : σ),
      ∃ step run run', g.matcher config input config.maxRecursionDepth value ml.stop
            { limit := stop, host } = (step, run)
        ∧ g.matcher config input' config.maxRecursionDepth value ml.stop
            { limit := stop, host := host' } = (step, run')
        ∧ run.Twin run')
      ∧ g.Alike input input' value ml.stop stop stop
      ∧ g.Alike input input' i start limit limit' := by
  have hvalue : ml.stop.Spans stop :=
    (Rule.spans_windowEnd? (hlength.within hstart).2 hwindow).1
  have hsize : value < g.entries.size := child_lt_size he value (by simp [Node.children])
  have hcongr : ∀ step, g.Settles input value ml.stop stop step ↔
      g.Settles input' value ml.stop stop step := fun _ => settles_congr hagree hvalue
  refine ⟨exists_twin hpure hagree hsize hvalue, alike_of_settles hpure hcongr,
    alike_of_settles hpure fun step => ?_⟩
  rw [settles_lengthValue hpure he hlength hwindow, settles_lengthValue hpure he hlength' hwindow']
  simp only [hcongr]

end

end Packrat.Grammar
