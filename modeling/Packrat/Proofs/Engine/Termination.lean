import Mathlib.Order.OrderIsoNat
import Packrat.Proofs.Engine.Loops
import Packrat.Proofs.Engine.Nesting

/-!
# Proofs/Engine/Termination — every run ends

A moment leads on to an entry with one slot less to enter, to an entry further down, or to what is
left of a plan. So nothing leads on for ever, whatever the slots are bound to, and everything that a
run comes to has an outcome.

Main statement: `run_terminates`.
-/

namespace Packrat

variable {υ σ : Type}

namespace Grammar

variable {g : Grammar υ σ} {config : Config} {input : Input} {root : Handle} {host : σ}
  {a b moment : Moment υ σ}

/-! ## Nothing leads on for ever -/

variable (g config input) in
/-- The moment leads to ever so many others, but not for ever. -/
def Ends (moment : Moment υ σ) : Prop := Acc (fun b a => g.Leads config input a b) moment

/-- A plan ends where its children do. -/
theorem ends_plan {budget self : Nat} {child : Nat → Prop}
    {callback : ∀ γ : Type, Callback υ σ γ → Prop} {p : Plan υ σ (Step υ)}
    (hp : p.Strict child callback)
    (hchild : ∀ c, child c → ∀ start run, g.Ends config input ⟨budget, .entry c start, run⟩)
    (run : Run υ σ) : g.Ends config input ⟨budget, .plan self p, run⟩ := by
  induction p generalizing run with
  | done step => exact .intro _ fun b hb => nomatch hb
  | look next ih =>
    refine .intro _ fun b hb => ?_
    cases hb with
    | look => exact ih _ (hp _) run
  | apply window c start next ih =>
    refine .intro _ fun b hb => ?_
    cases hb with
    | child => exact hchild c hp.1 start _
    | rest h hf => exact ih _ (hp.2.2 _ hf) _
  | call kind f start m next ih =>
    refine .intro _ fun b hb => ?_
    cases hb with
    | called => exact ih _ (hp.2 _) _

/-- An entry ends: its children are below it, and behind a slot there is less budget. -/
theorem ends_entry (budget : Nat) {i : Nat} (hi : i < g.entries.size) (start : Cursor)
    (run : Run υ σ) : g.Ends config input ⟨budget, .entry i start, run⟩ := by
  refine entry_induction (motive := fun budget i => ∀ start run,
    g.Ends config input ⟨budget, .entry i start, run⟩) ?_ ?_ budget hi start run
  · intro budget i n he ih start run
    refine .intro _ fun b hb => ?_
    cases hb with
    | evaluated he' hs =>
      obtain rfl := Entry.node.inj (Option.some.inj (he.symm.trans he'))
      exact ends_plan (n.strict_children input (fun c hc => hc) start) ih _
    | entered he' => cases he.symm.trans he'
  · intro budget i slot target he ht ih start run
    refine .intro _ fun b hb => ?_
    cases hb with
    | evaluated he' => cases he.symm.trans he'
    | entered he' ht' =>
      obtain rfl := Entry.indirect.inj (Option.some.inj (he.symm.trans he'))
      obtain rfl := Option.some.inj (ht.symm.trans ht')
      exact ih _ rfl start _

/-! ## Everything has an outcome -/

/-- What is carried out is a task of the grammar. -/
theorem Leads.of (h : g.Leads config input a b) (ha : a.task.Of g) : b.task.Of g := by
  cases h with
  | evaluated he => exact .rule he input _
  | entered he ht => exact target_lt_size ht
  | look => exact ⟨ha.1, ha.2 _⟩
  | child => exact Task.Of.child ha
  | rest h hf => exact Task.Of.rest ha hf
  | called => exact ⟨ha.1, ha.2.2 _⟩

theorem Passes.of (h : g.Passes config input root host moment) (hroot : g.Owns root) :
    moment.task.Of g :=
  h.invariant (P := fun m => m.task.Of g) hroot.2 fun ha hab => hab.of ha

/-- A task of the grammar has an outcome. -/
theorem exists_exec {task : Task υ σ} (h : task.Of g) (budget : Nat) (run : Run υ σ) :
    ∃ step run', g.Exec config input budget task run step run' := by
  cases task with
  | entry i start => exact ⟨_, _, exec_matcher budget h start run⟩
  | plan self p =>
    refine ⟨_, _, exec_plan self h.2 (m := g.matcher config input budget) (fun c hc start run => ?_)
      run⟩
    exact exec_matcher budget (Nat.lt_trans hc h.1) start run

/-- The loop of a repetition that a run comes to. -/
theorem Passes.repeats {budget i item : Nat} {n : Node Nat υ σ} {sep : Option Nat} {needed : Bool}
    {start : Cursor} {run run' : Run υ σ} {step : Step υ}
    (h : g.Passes config input root host ⟨budget, .plan i (n.rule input start), run⟩)
    (hn : n.repetition? = some (item, sep, needed))
    (hexec : g.Exec config input budget (.plan i (n.rule input start)) run step run') :
    ∃ items ≤ run.limit.bitPosition - start.bitPosition + 1,
      Repeats (g.applies config input budget) item sep needed start run step run' items := by
  obtain ⟨start', hplan, hrun⟩ := h.inBounds
  rw [n.rule_eq_repeated hn] at hexec
  dsimp only at hplan
  rw [n.rule_eq_repeated hn] at hplan
  obtain ⟨-, hstart, -⟩ := hplan
  exact hexec.repeats hstart hrun

/-- **Every run terminates**, however entries and slots are entangled. The run ends in a report of
what its root ends in, without a bound other than that on slots: no sequence of moments is endless,
and at every moment there is an outcome. A repetition is a loop that ends by itself, after no more
items than its window has bits, and one; and evaluations are nested no deeper than the grammar is
long, once for each slot that may be entered, and once more. -/
theorem run_terminates (config : Config) {root : Handle} (hroot : g.Owns root) (input : Input)
    (host : σ) :
    ∃ report step run', g.run config root input host = .ok report
      ∧ g.Exec config input config.maxRecursionDepth (.entry root.index .start)
        (.fresh input host) step run'
      ∧ report.result = .ofStep step
      ∧ (∀ moments : Nat → Moment υ σ, moments 0 = first config input root host →
        ∃ k, ¬g.Leads config input (moments k) (moments (k + 1)))
      ∧ (∀ moment, g.Passes config input root host moment →
        ∃ step run', g.Exec config input moment.budget moment.task moment.run step run')
      ∧ (∀ budget i (n : Node Nat υ σ) start run item sep needed step run',
        g.Passes config input root host ⟨budget, .plan i (n.rule input start), run⟩ →
        n.repetition? = some (item, sep, needed) →
        g.Exec config input budget (.plan i (n.rule input start)) run step run' →
          ∃ items ≤ run.limit.bitPosition - start.bitPosition + 1,
            Repeats (g.applies config input budget) item sep needed start run step run' items)
      ∧ Event.Nested ((config.maxRecursionDepth + 1) * g.size) report.trace.toList := by
  obtain ⟨report, step, run', hrun, hexec, hresult, htrace⟩ := exec_run config hroot input host
  refine ⟨report, step, run', hrun, hexec, hresult, fun moments hfirst => ?_, fun moment hpass => ?_,
    fun _ _ _ _ _ _ _ _ _ _ hpass hn h => hpass.repeats hn h, ?_⟩
  · by_contra hforever
    have hends : g.Ends config input (first config input root host) := ends_entry _ hroot.2 _ _
    refine (acc_iff_isEmpty_descending_chain.1 hends).false ⟨moments, hfirst, fun k => ?_⟩
    by_contra hk
    exact hforever ⟨k, hk⟩
  · exact exists_exec (hpass.of hroot) _ _
  · obtain ⟨events, hevents, hnested⟩ := hexec.nested hroot.2
    rw [htrace, hevents]
    refine hnested.mono ?_
    rw [Task.nesting, Nat.succ_mul, size]
    exact Nat.add_le_add_left hroot.2 _

/-- The input is a pair of parentheses. -/
theorem run_terminates_parens : parens.Owns ⟨0, 5⟩ ∧
    ∃ report step run', parens.run {} ⟨0, 5⟩ ⟨#[0x28, 0x29]⟩ () = .ok report
      ∧ parens.Exec {} ⟨#[0x28, 0x29]⟩ ({} : Config).maxRecursionDepth (.entry 5 .start)
        (.fresh ⟨#[0x28, 0x29]⟩ ()) step run'
      ∧ report.result = .ofStep step
      ∧ (∀ moments : Nat → Moment Unit Unit,
        moments 0 = first {} ⟨#[0x28, 0x29]⟩ ⟨0, 5⟩ () →
          ∃ k, ¬parens.Leads {} ⟨#[0x28, 0x29]⟩ (moments k) (moments (k + 1)))
      ∧ (∀ moment, parens.Passes {} ⟨#[0x28, 0x29]⟩ ⟨0, 5⟩ () moment →
        ∃ step run', parens.Exec {} ⟨#[0x28, 0x29]⟩ moment.budget moment.task moment.run step run')
      ∧ (∀ budget i (n : Node Nat Unit Unit) start run item sep needed step run',
        parens.Passes {} ⟨#[0x28, 0x29]⟩ ⟨0, 5⟩ ()
          ⟨budget, .plan i (n.rule ⟨#[0x28, 0x29]⟩ start), run⟩ →
        n.repetition? = some (item, sep, needed) →
        parens.Exec {} ⟨#[0x28, 0x29]⟩ budget (.plan i (n.rule ⟨#[0x28, 0x29]⟩ start)) run step
          run' →
          ∃ items ≤ run.limit.bitPosition - start.bitPosition + 1,
            Repeats (parens.applies {} ⟨#[0x28, 0x29]⟩ budget) item sep needed start run step run'
              items)
      ∧ Event.Nested ((({} : Config).maxRecursionDepth + 1) * 6) report.trace.toList :=
  ⟨by decide, run_terminates {} (by decide) ⟨#[0x28, 0x29]⟩ ()⟩

end Grammar

end Packrat
