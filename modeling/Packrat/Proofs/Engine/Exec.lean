import Packrat.Proofs.Engine.Execution

/-!
# Proofs/Engine/Exec — all that a run can do

`Grammar.Exec` is the engine as a big-step relation on states, with one rule for each thing that can
happen. The matchers of a grammar obey it (`exec_matcher`), so that a fact about runs is one
induction over eleven rules. The first such fact is here: whatever happens, the window, the targets
being followed and their number are afterwards as they were before (`Exec.agrees`).
-/

namespace Packrat

variable {υ σ : Type}

/-- What is carried out: an entry at a cursor, or what is left of the plan of the node at `self`. -/
inductive Task (υ σ : Type) : Type 1 where
  | entry (index : Nat) (start : Cursor)
  | plan (self : Nat) (p : Plan υ σ (Step υ))

namespace Grammar

section

variable (g : Grammar υ σ) (config : Config) (input : Input)

/-- `Exec budget task run step run'`: in state `run`, with `budget` more slots to enter, the task
ends in `step` and leaves `run'`. -/
inductive Exec : Nat → Task υ σ → Run υ σ → Step υ → Run υ σ → Prop
  /-- An outcome is remembered from before. -/
  | recalled {budget i start run n step} (hm : config.memoize = true)
      (he : g.entries[i]? = some (.node n)) (hs : run.memo[run.site i start]? = some step) :
      Exec budget (.entry i start) run step (run.note (.recalled (run.site i start) step))
  /-- A combinator is matched, and its outcome is remembered. -/
  | stored {budget i start run n step run'} (hm : config.memoize = true)
      (he : g.entries[i]? = some (.node n)) (hs : run.memo[run.site i start]? = none)
      (h : Exec budget (.plan i (n.rule input start)) (run.note (.evaluated (run.site i start)))
        step run') :
      Exec budget (.entry i start) run step
        ((run'.note (.settled (run.site i start) step)).remember (run.site i start) step)
  /-- A combinator is matched where nothing is remembered. -/
  | fresh {budget i start run n step run'} (hm : config.memoize = false)
      (he : g.entries[i]? = some (.node n))
      (h : Exec budget (.plan i (n.rule input start)) (run.note (.evaluated (run.site i start)))
        step run') :
      Exec budget (.entry i start) run step (run'.note (.settled (run.site i start) step))
  /-- The target of a slot is already being followed at this place. -/
  | reentered {budget i start run slot target} (he : g.entries[i]? = some (.indirect slot))
      (ht : g.targets[slot.index]? = some target) (ha : run.site target start ∈ run.active) :
      Exec budget (.entry i start) run (.error (.here (.leftRecursion slot) start))
        (run.note (.leftRecursion slot (run.site target start)))
  /-- No more slot may be entered. -/
  | tooDeep {i start run slot target} (he : g.entries[i]? = some (.indirect slot))
      (ht : g.targets[slot.index]? = some target) (ha : run.site target start ∉ run.active) :
      Exec 0 (.entry i start) run (.error (.here (.recursionLimit config.maxRecursionDepth) start))
        (run.note (.depthExceeded config.maxRecursionDepth (run.site target start)))
  /-- A slot is followed to its target. -/
  | entered {budget i start run slot target step run'} (he : g.entries[i]? = some (.indirect slot))
      (ht : g.targets[slot.index]? = some target) (ha : run.site target start ∉ run.active)
      (h : Exec budget (.entry target start) (run.enter slot (run.site target start)) step run') :
      Exec (budget + 1) (.entry i start) run step (run'.leave (run.site target start))
  /-- A plan ends. -/
  | done {budget self run step} (hf : Step.fatal? step = none) :
      Exec budget (.plan self (.done step)) run step run
  /-- A plan looks where the window ends. -/
  | look {budget self run next step run'}
      (h : Exec budget (.plan self (next run.limit)) run step run') :
      Exec budget (.plan self (.look next)) run step run'
  /-- A child fails for good, which ends the plan. -/
  | abort {budget self run window c start next f f' run'}
      (h : Exec budget (.entry c start) (run.withLimit (window.getD run.limit)) (.error f) run')
      (hf : f.isFatal) (hnext : next (.error f) = .done (.error f')) (hkind : f'.kind = f.kind) :
      Exec budget (.plan self (.apply window c start next)) run (.error f')
        (run'.withLimit run.limit)
  /-- A child is matched, and the plan goes on. -/
  | apply {budget self run window c start next step run' step' run''}
      (h : Exec budget (.entry c start) (run.withLimit (window.getD run.limit)) step run')
      (hf : Step.fatal? step = none)
      (hnext : Exec budget (.plan self (next step)) (run'.withLimit run.limit) step' run'') :
      Exec budget (.plan self (.apply window c start next)) run step' run''
  /-- A callback is called, and the plan goes on. -/
  | call {budget self run β kind start m next step run'} {f : Callback υ σ β}
      (hnext : Exec budget (.plan self (next (Matcher.call self kind f start m run).1))
        (Matcher.call self kind f start m run).2 step run') :
      Exec budget (.plan self (.call kind f start m next)) run step run'

end

end Grammar

/-! ## What is the same afterwards -/

/-- The window and the targets being followed are the same in two states. -/
structure Run.Agrees (before after : Run υ σ) : Prop where
  limit : after.limit = before.limit
  active : after.active = before.active
  depth : after.depth = before.depth

theorem Run.Agrees.refl (run : Run υ σ) : run.Agrees run := ⟨rfl, rfl, rfl⟩

theorem Run.Agrees.trans {a b c : Run υ σ} (hab : a.Agrees b) (hbc : b.Agrees c) : a.Agrees c :=
  ⟨hbc.limit.trans hab.limit, hbc.active.trans hab.active, hbc.depth.trans hab.depth⟩

theorem Matcher.call_agrees {β : Type} (self : Nat) (kind : CallbackKind) (f : Callback υ σ β)
    (start : Cursor) (m : Match υ) (run : Run υ σ) :
    run.Agrees (Matcher.call self kind f start m run).2 := by
  rw [Matcher.call_eq]
  dsimp only
  split <;> exact ⟨rfl, rfl, rfl⟩

theorem Matcher.memo_call {β : Type} (self : Nat) (kind : CallbackKind) (f : Callback υ σ β)
    (start : Cursor) (m : Match υ) (run : Run υ σ) :
    (Matcher.call self kind f start m run).2.memo = run.memo := by
  rw [Matcher.call_eq]
  dsimp only
  split <;> rfl

namespace Grammar

variable {g : Grammar υ σ} {config : Config} {input : Input} {budget : Nat} {task : Task υ σ}
  {run run' : Run υ σ} {step : Step υ}

/-- **A run leaves the window and the targets being followed as they were**, however it ends. -/
theorem Exec.agrees (h : g.Exec config input budget task run step run') : run.Agrees run' := by
  induction h with
  | recalled => exact ⟨rfl, rfl, rfl⟩
  | stored _ _ _ _ ih => exact ⟨ih.limit, ih.active, ih.depth⟩
  | fresh _ _ _ ih => exact ⟨ih.limit, ih.active, ih.depth⟩
  | reentered => exact ⟨rfl, rfl, rfl⟩
  | tooDeep => exact ⟨rfl, rfl, rfl⟩
  | entered _ _ _ _ ih =>
    refine ⟨ih.limit, ?_, ?_⟩
    · rw [Run.active_leave, ih.active, Run.active_enter, List.erase_cons_head]
    · rw [Run.depth_leave, ih.depth, Run.depth_enter, Nat.add_sub_cancel]
  | done => exact .refl _
  | look _ ih => exact ih
  | abort _ _ _ _ ih => exact ⟨rfl, ih.active, ih.depth⟩
  | @apply _ _ run _ _ _ _ _ run' _ _ _ _ _ ihChild ihNext =>
    have hback : run.Agrees (run'.withLimit run.limit) := ⟨rfl, ihChild.active, ihChild.depth⟩
    exact hback.trans ihNext
  | call _ ih => exact (Matcher.call_agrees ..).trans ih

/-! ## What an entry did -/

variable {i target : Nat} {start : Cursor} {n : Node Nat υ σ} {slot : Slot}

/-- Where nothing is remembered a combinator has carried out its plan. -/
theorem Exec.plan_of_plain (h : g.Exec config input budget (.entry i start) run step run')
    (hplain : config.memoize = false) (he : g.entries[i]? = some (.node n)) :
    ∃ run'', g.Exec config input budget (.plan i (n.rule input start))
      (run.note (.evaluated (run.site i start))) step run'' := by
  cases h with
  | recalled hm => exact nomatch hplain.symm.trans hm
  | stored hm => exact nomatch hplain.symm.trans hm
  | fresh _ he' h =>
    obtain rfl := Entry.node.inj (Option.some.inj (he.symm.trans he'))
    exact ⟨_, h⟩
  | reentered he' => exact nomatch he.symm.trans he'
  | tooDeep he' => exact nomatch he.symm.trans he'
  | entered he' => exact nomatch he.symm.trans he'

/-- A placeholder has failed for good, or has followed its slot. -/
theorem Exec.placeholder_cases (h : g.Exec config input budget (.entry i start) run step run')
    (he : g.entries[i]? = some (.indirect slot)) (ht : g.targets[slot.index]? = some target) :
    (run.site target start ∈ run.active ∧ step = .error (.here (.leftRecursion slot) start)
        ∧ run' = run.note (.leftRecursion slot (run.site target start))) ∨
      run.site target start ∉ run.active ∧
        ((budget = 0 ∧ step = .error (.here (.recursionLimit config.maxRecursionDepth) start)
            ∧ run' = run.note (.depthExceeded config.maxRecursionDepth (run.site target start))) ∨
          ∃ b run'', budget = b + 1 ∧ g.Exec config input b (.entry target start)
              (run.enter slot (run.site target start)) step run'' ∧
            run' = run''.leave (run.site target start)) := by
  cases h with
  | recalled _ he' => exact nomatch he.symm.trans he'
  | stored _ he' => exact nomatch he.symm.trans he'
  | fresh _ he' => exact nomatch he.symm.trans he'
  | reentered he' ht' ha =>
    obtain rfl := Entry.indirect.inj (Option.some.inj (he.symm.trans he'))
    obtain rfl := Option.some.inj (ht.symm.trans ht')
    exact .inl ⟨ha, rfl, rfl⟩
  | tooDeep he' ht' ha =>
    obtain rfl := Entry.indirect.inj (Option.some.inj (he.symm.trans he'))
    obtain rfl := Option.some.inj (ht.symm.trans ht')
    exact .inr ⟨ha, .inl ⟨rfl, rfl, rfl⟩⟩
  | entered he' ht' ha h =>
    obtain rfl := Entry.indirect.inj (Option.some.inj (he.symm.trans he'))
    obtain rfl := Option.some.inj (ht.symm.trans ht')
    exact .inr ⟨ha, .inr ⟨_, _, rfl, h, rfl⟩⟩

/-- The same, without the state that is left. -/
theorem Exec.indirect_cases (h : g.Exec config input budget (.entry i start) run step run')
    (he : g.entries[i]? = some (.indirect slot)) (ht : g.targets[slot.index]? = some target) :
    (run.site target start ∈ run.active ∧ step = .error (.here (.leftRecursion slot) start)) ∨
      run.site target start ∉ run.active ∧
        ((budget = 0 ∧ step = .error (.here (.recursionLimit config.maxRecursionDepth) start)) ∨
          ∃ b run'', budget = b + 1 ∧ g.Exec config input b (.entry target start)
            (run.enter slot (run.site target start)) step run'') := by
  obtain ⟨ha, hstep, -⟩ | ⟨ha, ⟨hb, hstep, -⟩ | ⟨b, run'', hb, h, -⟩⟩ := h.placeholder_cases he ht
  · exact .inl ⟨ha, hstep⟩
  · exact .inr ⟨ha, .inl ⟨hb, hstep⟩⟩
  · exact .inr ⟨ha, .inr ⟨b, run'', hb, h⟩⟩

/-- A combinator's outcome was remembered, or its plan was carried out. -/
theorem Exec.node_cases (h : g.Exec config input budget (.entry i start) run step run')
    (hm : config.memoize = true) (he : g.entries[i]? = some (.node n)) :
    (run.memo[run.site i start]? = some step ∧
        run' = run.note (.recalled (run.site i start) step)) ∨
      run.memo[run.site i start]? = none ∧
        ∃ run'', g.Exec config input budget (.plan i (n.rule input start))
            (run.note (.evaluated (run.site i start))) step run'' ∧
          run' = (run''.note (.settled (run.site i start) step)).remember
            (run.site i start) step := by
  cases h with
  | recalled _ _ hs => exact .inl ⟨hs, rfl⟩
  | stored _ he' hs h =>
    obtain rfl := Entry.node.inj (Option.some.inj (he.symm.trans he'))
    exact .inr ⟨hs, _, h, rfl⟩
  | fresh hm' => exact nomatch hm.symm.trans hm'
  | reentered he' => exact nomatch he.symm.trans he'
  | tooDeep he' => exact nomatch he.symm.trans he'
  | entered he' => exact nomatch he.symm.trans he'

/-- **The relation is a function**: a task ends in one step, and leaves one state. -/
theorem Exec.unique {step₁ : Step υ} {run₁ : Run υ σ}
    (h : g.Exec config input budget task run step run')
    (h₁ : g.Exec config input budget task run step₁ run₁) : step₁ = step ∧ run₁ = run' := by
  induction h generalizing step₁ run₁ with
  | recalled hm he hs =>
    obtain ⟨hs₁, rfl⟩ | ⟨hs₁, -⟩ := h₁.node_cases hm he
    · obtain rfl := Option.some.inj (hs.symm.trans hs₁)
      exact ⟨rfl, rfl⟩
    · cases hs.symm.trans hs₁
  | stored hm he hs h ih =>
    obtain ⟨hs₁, -⟩ | ⟨-, run₂, h₂, rfl⟩ := h₁.node_cases hm he
    · cases hs.symm.trans hs₁
    · obtain ⟨rfl, rfl⟩ := ih h₂
      exact ⟨rfl, rfl⟩
  | fresh hm he h ih =>
    cases h₁ with
    | recalled hm₁ => cases hm.symm.trans hm₁
    | stored hm₁ => cases hm.symm.trans hm₁
    | fresh _ he₁ h₁ =>
      obtain rfl := Entry.node.inj (Option.some.inj (he.symm.trans he₁))
      obtain ⟨rfl, rfl⟩ := ih h₁
      exact ⟨rfl, rfl⟩
    | reentered he₁ => cases he.symm.trans he₁
    | tooDeep he₁ => cases he.symm.trans he₁
    | entered he₁ => cases he.symm.trans he₁
  | reentered he ht ha =>
    obtain ⟨-, rfl, rfl⟩ | ⟨ha₁, -⟩ := h₁.placeholder_cases he ht
    · exact ⟨rfl, rfl⟩
    · exact absurd ha ha₁
  | tooDeep he ht ha =>
    obtain ⟨ha₁, -⟩ | ⟨-, ⟨-, rfl, rfl⟩ | ⟨b, run₂, hb, -⟩⟩ := h₁.placeholder_cases he ht
    · exact absurd ha₁ ha
    · exact ⟨rfl, rfl⟩
    · cases hb
  | entered he ht ha h ih =>
    obtain ⟨ha₁, -⟩ | ⟨-, ⟨hb, -⟩ | ⟨b, run₂, hb, h₂, rfl⟩⟩ := h₁.placeholder_cases he ht
    · exact absurd ha₁ ha
    · cases hb
    · obtain rfl := Nat.succ.inj hb
      obtain ⟨rfl, rfl⟩ := ih h₂
      exact ⟨rfl, rfl⟩
  | done =>
    cases h₁
    exact ⟨rfl, rfl⟩
  | look h ih =>
    cases h₁ with
    | look h₁ => exact ih h₁
  | abort h hf hnext hkind ih =>
    cases h₁ with
    | abort h₁ hf₁ hnext₁ =>
      obtain ⟨heq, rfl⟩ := ih h₁
      cases heq
      cases hnext.symm.trans hnext₁
      exact ⟨rfl, rfl⟩
    | apply h₁ hf₁ =>
      obtain ⟨rfl, -⟩ := ih h₁
      cases hf₁.symm.trans (if_pos hf)
  | apply h hf hnext ihChild ihNext =>
    cases h₁ with
    | abort h₁ hf₁ =>
      obtain ⟨rfl, -⟩ := ihChild h₁
      cases hf.symm.trans (if_pos hf₁)
    | apply h₁ hf₁ hnext₁ =>
      obtain ⟨rfl, rfl⟩ := ihChild h₁
      exact ihNext hnext₁
  | call hnext ih =>
    cases h₁ with
    | call hnext₁ => exact ih hnext₁

/-! ## The engine obeys the relation -/

/-- A child in its window, from what the child's matcher does. -/
theorem inWindow_eq {m : Matcher υ σ} {start : Cursor} (window : Option Cursor)
    (h : ∀ run : Run υ σ, run.Agrees (m start run).2) (run : Run υ σ) :
    Matcher.inWindow window m start run
      = ((m start (run.withLimit (window.getD run.limit))).1,
        (m start (run.withLimit (window.getD run.limit))).2.withLimit run.limit) := by
  cases window with
  | none =>
    refine Prod.ext rfl ?_
    change (m start run).2 = (m start run).2.withLimit run.limit
    rw [← (h run).limit]
    rfl
  | some stop => rfl

theorem exec_plan {child : Nat → Prop} {callback : ∀ γ : Type, Callback υ σ γ → Prop}
    (self : Nat) {p : Plan υ σ (Step υ)} (hp : p.Strict child callback) {m : Nat → Matcher υ σ}
    (hm : ∀ c, child c → ∀ start run, g.Exec config input budget (.entry c start) run
      (m c start run).1 (m c start run).2) (run : Run υ σ) :
    g.Exec config input budget (.plan self p) run (p.run self m run).1 (p.run self m run).2 := by
  induction p generalizing run with
  | done step => exact .done hp
  | look next ih => exact .look (ih _ (hp _) run)
  | apply window c start next ih =>
    obtain ⟨hc, hstop, hnext⟩ := hp
    have hwin := inWindow_eq window (fun r => (hm c hc start r).agrees) run
    have hchild := hm c hc start (run.withLimit (window.getD run.limit))
    rw [Plan.run_apply, hwin]
    generalize hx : m c start (run.withLimit (window.getD run.limit)) = x at hchild
    obtain ⟨step, run'⟩ := x
    cases hstep : Step.fatal? step with
    | none => exact .apply hchild hstep (ih step (hnext step hstep) _)
    | some kind =>
      obtain ⟨f, rfl, hf, -⟩ := Step.fatal?_eq_some.1 hstep
      obtain ⟨f', hf', hkind⟩ := hstop f hf
      dsimp only
      rw [hf']
      exact .abort hchild hf hf' hkind
  | call kind f start x next ih => exact .call (ih _ (hp.2 _) _)

/-- **Every matcher of the engine obeys the relation.** -/
theorem exec_matcher (budget : Nat) {i : Nat} (hi : i < g.entries.size) (start : Cursor)
    (run : Run υ σ) :
    g.Exec config input budget (.entry i start) run (g.matcher config input budget i start run).1
      (g.matcher config input budget i start run).2 := by
  refine entry_induction (motive := fun budget i => ∀ start run, g.Exec config input budget
    (.entry i start) run (g.matcher config input budget i start run).1
      (g.matcher config input budget i start run).2) ?_ ?_ budget hi start run
  · intro budget i n he ih start run
    have hplan := exec_plan i (n.strict_children input (fun c hc => hc) start) ih
      (run.note (.evaluated (run.site i start)))
    rw [matcher_node config input budget he]
    cases hm : config.memoize with
    | false => exact .fresh hm he hplan
    | true =>
      cases hs : run.memo[run.site i start]? with
      | some step =>
        rw [Matcher.remembered_of_some hs]
        exact .recalled hm he hs
      | none =>
        rw [Matcher.remembered_of_none hs]
        exact .stored hm he hs hplan
  · intro budget i slot target he ht ih start run
    rw [matcher_indirect config input budget he ht]
    by_cases ha : run.site target start ∈ run.active
    · rw [Matcher.follow_of_mem ha]
      exact .reentered he ht ha
    · cases budget with
      | zero =>
        rw [matcherInside?, Matcher.follow_none ha]
        exact .tooDeep he ht ha
      | succ b =>
        rw [matcherInside?, Matcher.follow_some ha]
        exact .entered he ht ha (ih b rfl start _)

end Grammar

end Packrat
