import Packrat.Proofs.Engine.Termination
import Packrat.Proofs.Plan.Recalls

/-!
# Proofs/Engine/Deepest — which attempts a failure tells of

A failure carries the deepest position that an attempt reached. It is handed up from one attempt to
the one around it: as long as attempts fail, nothing gets lost (`Leads.outcomes`). An attempt that
matches keeps nothing of what failed inside it, and a fatal failure nothing of the ordinary ones.

Main statement: `run_deepest`. The failure of a run has got as far as every failed attempt but
those.
-/

namespace Packrat

variable {υ σ : Type}

/-- A plan that is carried out is recalling. -/
def Task.Recalling : Task υ σ → Prop
  | entry .. => True
  | plan _ p => p.Recalling

namespace Grammar

variable {g : Grammar υ σ} {config : Config} {input : Input} {root : Handle} {host : σ}
  {a b moment : Moment υ σ} {budget self : Nat} {p : Plan υ σ (Step υ)} {run run' : Run υ σ}
  {step : Step υ}

/-- A plan that is carried out recalls what it is to recall. -/
theorem Exec.recalls (h : g.Exec config input budget (.plan self p) run step run') {earlier : Fail}
    (hp : p.Recalls earlier) {f : Fail} (hf : step = .error f) : f.Recalls earlier := by
  induction p generalizing run with
  | done s =>
    cases h
    exact hp f hf
  | look next ih =>
    cases h with
    | look h => exact ih _ h (hp _)
  | apply window c start next ih =>
    cases h with
    | @abort _ _ _ _ _ _ _ child _ _ _ _ hnext =>
      have hdone := hp (.error child)
      rw [hnext] at hdone
      exact hdone f hf
    | apply _ _ hnext => exact ih _ hnext (hp _)
  | call kind callback start m next ih =>
    cases h with
    | call hnext => exact ih _ hnext (hp _)

theorem Leads.recalling (h : g.Leads config input a b) (ha : a.task.Recalling) :
    b.task.Recalling := by
  cases h with
  | @evaluated budget i start run n => exact n.recalling_rule input start
  | entered => trivial
  | look => exact ha _
  | child => trivial
  | rest => exact ha.2 _
  | called => exact ha _

/-- **What a moment leads to decides its outcome, or is a child whose failure its own recalls.** -/
theorem Leads.outcomes {sa sb : Step υ} {runA runB : Run υ σ} (h : g.Leads config input a b)
    (hr : a.task.Recalling) (ha : g.Exec config input a.budget a.task a.run sa runA)
    (hb : g.Exec config input b.budget b.task b.run sb runB) :
    sa = sb ∨ (∃ i start, b.task = .entry i start)
      ∧ ∀ f f', sa = .error f → sb = .error f' → f.Recalls f' := by
  cases h with
  | @evaluated budget i start run n he hs =>
    cases ha with
    | recalled hm _ hs' => cases (hs hm).symm.trans hs'
    | stored _ he' _ h =>
      obtain rfl := Entry.node.inj (Option.some.inj (he.symm.trans he'))
      exact .inl (hb.unique h).1
    | fresh _ he' h =>
      obtain rfl := Entry.node.inj (Option.some.inj (he.symm.trans he'))
      exact .inl (hb.unique h).1
    | reentered he' => cases he.symm.trans he'
    | tooDeep he' => cases he.symm.trans he'
    | entered he' => cases he.symm.trans he'
  | entered he ht hactive =>
    obtain ⟨hmem, -⟩ | ⟨-, ⟨hzero, -⟩ | ⟨rest, run', hrest, h⟩⟩ := ha.indirect_cases he ht
    · exact absurd hmem hactive
    · cases hzero
    · obtain rfl := Nat.succ.inj hrest
      exact .inl (hb.unique h).1
  | look =>
    cases ha with
    | look h => exact .inl (hb.unique h).1
  | child =>
    refine .inr ⟨⟨_, _, rfl⟩, fun f f' hf hf' => ?_⟩
    subst hf hf'
    cases ha with
    | abort h _ hnext =>
      have hdone := hr.1 f'
      obtain rfl := Except.error.inj (hb.unique h).1
      rw [hnext] at hdone
      exact hdone f rfl
    | apply h _ hnext =>
      obtain ⟨rfl, -⟩ := hb.unique h
      exact hnext.recalls (hr.1 f') rfl
  | rest h hf =>
    cases ha with
    | abort h' hf' =>
      obtain ⟨rfl, -⟩ := h.unique h'
      cases hf.symm.trans (if_pos hf')
    | apply h' _ hnext =>
      obtain ⟨rfl, rfl⟩ := h.unique h'
      exact .inl (hb.unique hnext).1
  | called =>
    cases ha with
    | call hnext => exact .inl (hb.unique hnext).1

/-! ## Whole runs -/

theorem Passes.recalling (h : g.Passes config input root host moment) : moment.task.Recalling :=
  h.invariant (P := fun m => m.task.Recalling) trivial fun ha hab => hab.recalling ha

/-- Whatever a run comes to has an outcome. -/
theorem Passes.exists_exec (hroot : g.Owns root) (h : g.Passes config input root host moment) :
    ∃ step run', g.Exec config input moment.budget moment.task moment.run step run' :=
  Grammar.exists_exec (h.of hroot) _ _

/-- The moment lies inside an entry, matched before, that ends in a match. -/
def Absorbed (g : Grammar υ σ) (config : Config) (input : Input) (root : Handle) (host : σ)
    (moment : Moment υ σ) : Prop :=
  ∃ outer i start m run', g.Passes config input root host outer ∧ outer.task = .entry i start
    ∧ g.Reaches config input outer moment
    ∧ g.Exec config input outer.budget outer.task outer.run (.ok m) run'

/-- Whatever is carried out in a run is part of an entry that ends alike. -/
theorem Passes.exists_entry (hroot : g.Owns root) (h : g.Passes config input root host moment)
    (hexec : g.Exec config input moment.budget moment.task moment.run step run') :
    ∃ outer i start run', g.Passes config input root host outer ∧ outer.task = .entry i start
      ∧ g.Reaches config input outer moment
      ∧ g.Exec config input outer.budget outer.task outer.run step run' := by
  induction h generalizing step run' with
  | refl => exact ⟨_, _, _, _, .refl, rfl, .refl, hexec⟩
  | @tail a b hpass hab ih =>
    have hpassA : g.Passes config input root host a := hpass
    obtain ⟨sa, runA, ha⟩ := hpassA.exists_exec hroot
    obtain rfl | ⟨⟨i, start, hentry⟩, -⟩ := hab.outcomes hpassA.recalling ha hexec
    · obtain ⟨outer, i, start, runO, hpassO, hentry, hreach, hO⟩ := ih ha
      exact ⟨outer, i, start, runO, hpassO, hentry, hreach.tail hab, hO⟩
    · exact ⟨b, i, start, run', hpassA.tail hab, hentry, .refl, hexec⟩

/-- **The failure of a run recalls every failure in it that no match has absorbed.** -/
theorem Passes.recalls {f f' : Fail} {end₁ : Run υ σ} (hroot : g.Owns root)
    (h : g.Passes config input root host moment)
    (hfirst : g.Exec config input config.maxRecursionDepth (.entry root.index .start)
      (.fresh input host) (.error f) end₁)
    (hexec : g.Exec config input moment.budget moment.task moment.run (.error f') run') :
    f.Recalls f' ∨ g.Absorbed config input root host moment := by
  induction h generalizing f' run' with
  | refl =>
    obtain ⟨hstep, -⟩ := hfirst.unique hexec
    obtain rfl := Except.error.inj hstep
    exact .inl (.refl _)
  | @tail a b hpass hab ih =>
    have hpassA : g.Passes config input root host a := hpass
    obtain ⟨sa, runA, ha⟩ := hpassA.exists_exec hroot
    cases sa with
    | ok m =>
      obtain ⟨outer, i, start, runO, hpassO, hentry, hreach, hO⟩ := hpassA.exists_entry hroot ha
      exact .inr ⟨outer, i, start, m, runO, hpassO, hentry, hreach.tail hab, hO⟩
    | error fa =>
      have hstep : fa.Recalls f' := by
        obtain heq | ⟨-, hrecalls⟩ := hab.outcomes hpassA.recalling ha hexec
        · obtain rfl := Except.error.inj heq
          exact .refl _
        · exact hrecalls fa f' rfl rfl
      obtain hrecalls | ⟨outer, i, start, m, runO, hpassO, hentry, hreach, hO⟩ := ih ha
      · exact .inl (hrecalls.trans hstep)
      · exact .inr ⟨outer, i, start, m, runO, hpassO, hentry, hreach.tail hab, hO⟩

/-- **The failure of a run has got as far as every failed attempt**, unless the attempt lies inside
an entry that ended in a match, or the run fails for good and the attempt did not. An attempt itself
never gets less far than its own position. -/
theorem run_deepest (config : Config) (hroot : g.Owns root) (input : Input) (host : σ) :
    ∃ report, g.run config root input host = .ok report
      ∧ ∀ f, report.result = .error f → ∀ moment f' run',
        g.Passes config input root host moment →
        g.Exec config input moment.budget moment.task moment.run (.error f') run' →
          f'.position ≤ f'.deepest
            ∧ (f'.deepest ≤ f.deepest ∨ (f.isFatal ∧ ¬f'.isFatal)
              ∨ g.Absorbed config input root host moment) := by
  obtain ⟨step, end₁, hfirst, hrun⟩ := exec_root config hroot input host
  refine ⟨_, hrun, fun f hf moment f' run' hpass hexec => ⟨?_, ?_⟩⟩
  · obtain ⟨start, hbounds⟩ := hpass.inBounds
    have hwithin : f'.Within start moment.run.limit := (hexec.inBounds hbounds.task hbounds.run).1
    exact hwithin.between.le
  · obtain rfl : step = .error f := by
      cases step with
      | ok m => cases hf
      | error f₁ => exact congrArg _ (Except.error.inj hf)
    obtain hrecalls | habsorbed := hpass.recalls hroot hfirst hexec
    · by_cases hover : f.isFatal ∧ ¬f'.isFatal
      · exact .inr (.inl hover)
      · refine .inl (hrecalls.deepest fun hfatal => ?_)
        by_contra hf'
        exact hover ⟨hfatal, hf'⟩
    · exact .inr (.inr habsorbed)

/-- The bytes `abc` or only `a`, and then `c`. -/
def shortened : Grammar Unit Unit where
  id := 0
  entries := #[.node (.byte 0x61), .node (.byte 0x62), .node (.byte 0x63),
    .node (.sequence [0, 1, 2]), .node (.choice [3, 0]), .node (.left 4 2)]
  targets := #[]
  child_lt := by decide
  slot_lt := by
    intro i h slot he
    have hmem := Array.getElem_mem h
    rw [he] at hmem
    simp at hmem
  target_lt := by decide

/-- The input is `abx`. -/
theorem run_deepest_shortened : shortened.Owns ⟨0, 5⟩ ∧
    ∃ report, shortened.run {} ⟨0, 5⟩ ⟨#[0x61, 0x62, 0x78]⟩ () = .ok report
      ∧ ∀ f, report.result = .error f → ∀ moment f' run',
        shortened.Passes {} ⟨#[0x61, 0x62, 0x78]⟩ ⟨0, 5⟩ () moment →
        shortened.Exec {} ⟨#[0x61, 0x62, 0x78]⟩ moment.budget moment.task moment.run (.error f')
          run' →
          f'.position ≤ f'.deepest
            ∧ (f'.deepest ≤ f.deepest ∨ (f.isFatal ∧ ¬f'.isFatal)
              ∨ shortened.Absorbed {} ⟨#[0x61, 0x62, 0x78]⟩ ⟨0, 5⟩ () moment) :=
  ⟨by decide, run_deepest {} (by decide) ⟨#[0x61, 0x62, 0x78]⟩ ()⟩

/-- **What a match absorbs is lost.** The first alternative fails behind two bytes and the second
one matches one of them, so the run tells of the failure behind one byte only. -/
theorem deepest_lt_shortened :
    ∃ report, shortened.run {} ⟨0, 5⟩ ⟨#[0x61, 0x62, 0x78]⟩ () = .ok report
      ∧ ∃ f site f', report.result = .error f
        ∧ .settled site (.error f') ∈ report.trace.toList ∧ f.deepest < f'.position := by
  refine ⟨_, rfl, _, ⟨2, .atByte 2, .atByte 3⟩, .noMatch (.atByte 2), rfl,
    List.mem_iff_getElem?.2 ⟨8, ?_⟩, by decide⟩
  rfl

end Grammar

end Packrat
