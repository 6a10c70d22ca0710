import Packrat.Proofs.Semantics.Integers
import Packrat.Proofs.Semantics.Refinement

/-!
# Proofs/Semantics/Found — what runs find, and what entries end in

A run comes to an entry in some settings and in some state. Whatever it finds there, short of a
fatal failure, is what the entry ends in: the one outcome that can be derived (`Found.ends`). So
laws of combinators are proved by derivations, and then hold of everything that runs find
(`Grammar.EndsAs`).

Entries below which there is no placeholder never fail for good (`Slotless.fatal?_eq_none`).
-/

namespace Packrat

variable {υ σ : Type}

namespace Grammar

section

variable (g : Grammar υ σ) (input : Input)

/-- Somewhere this is found: in some settings the matcher of the entry ends in this outcome, in a
state that remembers outcomes only. -/
def Found : Outcomes υ := fun i start limit step =>
  ∃ (config : Config) (budget : Nat) (run : Run υ σ), run.Sound g input ∧ run.limit = limit
    ∧ (g.matcher config input budget i start run).1 = step

/-- The entry ends in this outcome: it can be derived, and nothing else is found but fatal
failures. -/
structure EndsAs (i : Nat) (start limit : Cursor) (step : Step υ) : Prop where
  derives : g.Derives input limit (.entry i start) step
  found : ∀ {step'}, g.Found input i start limit step' → Step.fatal? step' = none → step' = step

end

variable {g : Grammar υ σ} {config : Config} {input : Input} {root : Handle} {host : σ}
  {budget i : Nat} {start limit : Cursor} {step : Step υ} {run run' : Run υ σ}

/-! ## What is found can be derived -/

theorem Exec.lt_size (h : g.Exec config input budget (.entry i start) run step run') :
    i < g.entries.size := by
  cases h with
  | recalled _ he => exact lt_size_of_entry he
  | stored _ he => exact lt_size_of_entry he
  | fresh _ he => exact lt_size_of_entry he
  | reentered he => exact lt_size_of_entry he
  | tooDeep he => exact lt_size_of_entry he
  | entered he => exact lt_size_of_entry he

theorem Exec.found (h : g.Exec config input budget (.entry i start) run step run')
    (hsound : run.Sound g input) : g.Found input i start run.limit step :=
  ⟨config, budget, run, hsound, rfl, (h.unique (exec_matcher budget h.lt_size start run)).1⟩

/-- What is found in a fresh state. -/
theorem Found.of_fresh (config : Config) (budget : Nat) (host : σ)
    (h : (g.matcher config input budget i start (.fresh input host)).1 = step) :
    g.Found input i start input.stop step :=
  ⟨config, budget, .fresh input host, fresh_sound g input host, rfl, h⟩

/-- What a run comes to is found. -/
theorem Passes.found {moment : Moment υ σ} (h : g.Passes config input root host moment)
    (htask : moment.task = .entry i start)
    (hexec : g.Exec config input moment.budget moment.task moment.run step run') :
    g.Found input i start moment.run.limit step := by
  rw [htask] at hexec
  exact hexec.found h.sound

theorem Found.settles (h : g.Found input i start limit step) (hi : i < g.entries.size)
    (hf : Step.fatal? step = none) : g.Settles input i start limit step := by
  obtain ⟨config, budget, run, hsound, rfl, rfl⟩ := h
  exact ((exec_matcher budget hi start run).settles hsound hf).1

theorem Derives.fatal?_eq_none (h : g.Derives input limit (.entry i start) step)
    (hstart : start.Spans limit) : Step.fatal? step = none :=
  settles_calm g input _ _ _ _ ((derives_iff_settles hstart).1 h)

theorem Derives.isFatal_eq_false {f : Fail}
    (h : g.Derives input limit (.entry i start) (.error f)) (hstart : start.Spans limit) :
    f.isFatal = false :=
  Step.fatal?_error_eq_none.1 (h.fatal?_eq_none hstart)

theorem Derives.within (h : g.Derives input limit (.entry i start) step)
    (hstart : start.Spans limit) : Step.Within start limit step :=
  ((derives_iff_settles hstart).1 h).within hstart

theorem Settles.lt_size (h : g.Settles input i start limit step) : i < g.entries.size := by
  obtain ⟨_ | n, h⟩ := h
  · exact h.elim
  · rw [SettlesIn] at h
    split at h
    · next he => exact lt_size_of_entry he
    · next he => exact lt_size_of_entry he
    · exact h.elim

/-- **What can be derived is what the entry ends in.** -/
theorem Derives.ends (h : g.Derives input limit (.entry i start) step) (hpure : g.PureCallbacks)
    (hstart : start.Spans limit) : g.EndsAs input i start limit step where
  derives := h
  found hfound hf := by
    have hsettles := (derives_iff_settles hstart).1 h
    exact (hfound.settles hsettles.lt_size hf).unique hpure hsettles

/-- **What is found is what the entry ends in**, unless it is a fatal failure. -/
theorem Found.ends (h : g.Found input i start limit step) (hi : i < g.entries.size)
    (hf : Step.fatal? step = none) (hpure : g.PureCallbacks) (hstart : start.Spans limit) :
    g.EndsAs input i start limit step :=
  Derives.ends ((derives_iff_settles hstart).2 (h.settles hi hf)) hpure hstart

theorem EndsAs.unique {step' : Step υ} (h : g.EndsAs input i start limit step)
    (h' : g.EndsAs input i start limit step') (hpure : g.PureCallbacks)
    (hstart : start.Spans limit) : step = step' :=
  h.derives.unique hpure hstart h'.derives

/-! ## Derivations by rules -/

/-- **What can be derived for a combinator is what its rule yields.** -/
theorem derives_iff_yields {node : Node Nat υ σ} (he : g.IsNode i node)
    (hstart : start.Spans limit) : g.Derives input limit (.entry i start) step ↔
      (node.rule input start).Yields (g.Derived input) limit step := by
  refine ⟨fun h => ?_, derives_of_yields he⟩
  refine (((settles_node he).1 ((derives_iff_settles hstart).1 h)).within
    (node.bounded_rule input limit start hstart) fun c s l r hs _ hc => ?_).1
  exact ⟨⟨(derives_iff_settles hs).2 hc, hc.within hs, settles_calm g input _ _ _ _ hc⟩,
    hc.within hs⟩

/-! ## Entries without placeholders -/

/-- There is no placeholder below the entry. -/
inductive Slotless (g : Grammar υ σ) : Nat → Prop
  | node {i n} (he : g.IsNode i n) (hchildren : ∀ c ∈ n.children, Slotless g c) : Slotless g i

/-- What is carried out needs no placeholder. -/
def SlotlessTask (g : Grammar υ σ) : Task υ σ → Prop
  | .entry i _ => g.Slotless i
  | .plan _ p => p.Strict g.Slotless fun _ _ => True

theorem Slotless.not_indirect {slot : Slot} (h : g.Slotless i) :
    g.entries[i]? ≠ some (.indirect slot) := by
  obtain ⟨he, -⟩ := h
  intro h
  cases he.symm.trans h

/-- **Without placeholders nothing fails for good.** -/
theorem Exec.fatal?_eq_none_of_slotless {task : Task υ σ}
    (h : g.Exec config input budget task run step run') (htask : g.SlotlessTask task)
    (hsound : run.Sound g input) : Step.fatal? step = none := by
  have hrule : ∀ {i start} {n : Node Nat υ σ}, g.IsNode i n → g.Slotless i →
      (n.rule input start).Strict g.Slotless fun _ _ => True := by
    rintro i start n he ⟨he', hchildren⟩
    obtain rfl := Entry.node.inj (Option.some.inj (he.symm.trans he'))
    exact n.strict_children input hchildren start
  induction h with
  | recalled hm he hs => exact settles_calm g input _ _ _ _ (hsound _ _ hs)
  | stored hm he hs h ih => exact ih (hrule he htask) hsound
  | fresh hm he h ih => exact ih (hrule he htask) hsound
  | reentered he => exact absurd he htask.not_indirect
  | tooDeep he => exact absurd he htask.not_indirect
  | entered he => exact absurd he htask.not_indirect
  | done hf => exact hf
  | look h ih => exact ih (htask _) hsound
  | abort h hf hnext hkind ih => exact absurd (ih htask.1 hsound) (Step.fatal?_ne_none hf rfl)
  | apply h hf hnext ihChild ihNext =>
    exact ihNext (htask.2.2 _ hf) (h.settles hsound hf).2
  | call hnext ih => exact ih (htask.2 _) hsound.call

/-- What is found without placeholders is no fatal failure. -/
theorem Slotless.fatal?_eq_none (hi : g.Slotless i) (h : g.Found input i start limit step) :
    Step.fatal? step = none := by
  have hsize : i < g.entries.size := by
    obtain ⟨he, -⟩ := hi
    exact lt_size_of_entry he
  obtain ⟨config, budget, run, hsound, rfl, rfl⟩ := h
  exact (exec_matcher budget hsize start run).fatal?_eq_none_of_slotless hi hsound

end Grammar

end Packrat
