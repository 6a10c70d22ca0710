import Packrat.Proofs.Engine.Once
import Packrat.Proofs.Semantics.Found

/-!
# Proofs/Engine/Again — what is remembered is found again

An entry whose outcome has been found is found again at once, in every later state that follows the
same targets: placeholders lead to a combinator whose outcome is remembered, along slots that were
entered before (`Grammar.Again`, `Exec.again`). Deeper down it may be the bound on slots that is
found instead, but nothing else (`Again.cases`).

A state may remember one outcome more than another, if the other finds that out at once. Then it
finds what the other finds, unless the other comes to the bound (`Exec.ahead`).
-/

namespace Packrat.Grammar

variable {υ σ : Type}

/-! ## Found again -/

/-- In states that remember these outcomes and follow these targets, with so many more slots to
enter, the entry is found again: placeholders lead to a combinator of which this is remembered. -/
inductive Again (g : Grammar υ σ) (memo : Memo υ) (start limit : Cursor) :
    Nat → List Site → Nat → Step υ → Prop
  | node {budget active i n step} (he : g.IsNode i n)
      (hs : memo[(⟨i, start, limit⟩ : Site)]? = some step) :
      Again g memo start limit budget active i step
  | slot {budget active i slot target step} (he : g.entries[i]? = some (.indirect slot))
      (ht : g.targets[slot.index]? = some target) (hnew : ⟨target, start, limit⟩ ∉ active)
      (h : Again g memo start limit budget (⟨target, start, limit⟩ :: active) target step) :
      Again g memo start limit (budget + 1) active i step

variable {g : Grammar υ σ} {config : Config} {input : Input} {budget bound i : Nat}
  {task : Task υ σ} {start limit : Cursor} {memo memo' : Memo υ} {active active' : List Site}
  {run run' twin : Run υ σ} {step step' : Step υ}

/-- **What an entry has found is found again.** -/
theorem Exec.again (h : g.Exec config input budget (.entry i start) run step run')
    (hm : config.memoize = true) (hf : Step.fatal? step = none) :
    g.Again run'.memo start run.limit budget run.active i step := by
  induction budget using Nat.strongRecOn generalizing i run run' with
  | ind budget ih =>
    obtain ⟨n, he⟩ | ⟨slot, target, he, ht⟩ := entry_cases h.lt_size
    · obtain ⟨hs, rfl⟩ | ⟨-, run₁, -, rfl⟩ := h.node_cases hm he
      · exact .node he hs
      · exact .node he Run.memo_remember_self
    · obtain ⟨-, rfl, -⟩ | ⟨hnew, ⟨-, rfl, -⟩ | ⟨b, run₁, rfl, h₁, rfl⟩⟩ :=
        h.placeholder_cases he ht
      · cases hf
      · cases hf
      · exact .slot he ht hnew (ih b (Nat.lt_succ_self b) h₁)

namespace Again

/-- More may be remembered, fewer targets followed, and more slots be left to enter. -/
theorem mono (h : g.Again memo start limit budget active i step)
    (hmemo : ∀ {site : Site} {s}, memo[site]? = some s → memo'[site]? = some s)
    (hactive : ∀ site ∈ active', site ∈ active) (hbudget : budget ≤ bound) :
    g.Again memo' start limit bound active' i step := by
  induction h generalizing active' bound with
  | node he hs => exact .node he (hmemo hs)
  | slot he ht hnew h ih =>
    obtain ⟨b, rfl⟩ := Nat.exists_eq_succ_of_ne_zero (Nat.ne_of_gt (Nat.zero_lt_of_lt hbudget))
    refine .slot he ht (fun hmem => hnew (hactive _ hmem)) (ih (fun site hsite => ?_)
      (Nat.le_of_succ_le_succ hbudget))
    exact List.mem_cons.2 ((List.mem_cons.1 hsite).imp_right (hactive site))

/-- It is found, and nothing more is remembered then. -/
theorem exec (input : Input) (h : g.Again memo start run.limit budget run.active i step)
    (hm : config.memoize = true)
    (hmemo : ∀ {site : Site} {s}, memo[site]? = some s → run.memo[site]? = some s) :
    ∃ run', g.Exec config input budget (.entry i start) run step run' ∧ run'.memo = run.memo := by
  generalize hactive : run.active = active at h
  generalize hlimit : run.limit = limit at h
  induction h generalizing run with
  | node he hs =>
    subst hlimit
    exact ⟨_, .recalled hm he (hmemo hs), rfl⟩
  | @slot budget active i slot target step he ht hnew h ih =>
    subst hlimit hactive
    have hentered : ∀ {site : Site} {s}, memo[site]? = some s →
        (run.enter slot (run.site target start)).memo[site]? = some s := hmemo
    obtain ⟨run', hexec, hsame⟩ := ih hentered rfl rfl
    exact ⟨_, .entered he ht hnew hexec, hsame⟩

/-- **With fewer slots left to enter it is found, or the bound on slots is.** -/
theorem cases (h : g.Again memo start run.limit bound run.active i step)
    (hm : config.memoize = true)
    (hmemo : ∀ {site : Site} {s}, memo[site]? = some s → run.memo[site]? = some s)
    (hexec : g.Exec config input budget (.entry i start) run step' run') :
    (step' = step ∧ run'.memo = run.memo) ∨
      Step.fatal? step' = some (.recursionLimit config.maxRecursionDepth) := by
  generalize hactive : run.active = active at h
  generalize hlimit : run.limit = limit at h
  induction h generalizing run budget run' with
  | node he hs =>
    subst hlimit
    obtain ⟨hs', rfl⟩ | ⟨hs', -⟩ := hexec.node_cases hm he
    · exact .inl ⟨Option.some.inj (hs'.symm.trans (hmemo hs)), rfl⟩
    · cases hs'.symm.trans (hmemo hs)
  | @slot bound active i slot target step he ht hnew h ih =>
    subst hlimit hactive
    obtain ⟨ha, -, -⟩ | ⟨-, ⟨-, rfl, -⟩ | ⟨b, run₁, rfl, h₁, rfl⟩⟩ :=
      hexec.placeholder_cases he ht
    · exact absurd ha hnew
    · exact .inr rfl
    · have hentered : ∀ {site : Site} {s}, memo[site]? = some s →
          (run.enter slot (run.site target start)).memo[site]? = some s := hmemo
      have htarget := ih hentered h₁ rfl rfl
      exact htarget

/-- If one more target is followed, it is found again as before, or the target is one of those that
lead to it, and then the target itself is found again. -/
theorem enter (h : g.Again memo start limit bound active i step) (site : Site) :
    g.Again memo start limit bound (site :: active) i step ∨
      site.start = start ∧ site.limit = limit ∧
        ∃ b, g.Again memo start limit b (site :: active) site.node step := by
  induction h with
  | node he hs => exact .inl (.node he hs)
  | @slot budget active i slot target step he ht hnew h ih =>
    by_cases hsite : site = ⟨target, start, limit⟩
    · subst hsite
      exact .inr ⟨rfl, rfl, budget, h⟩
    · obtain hsame | ⟨hstart, hlimit, b, hsame⟩ := ih
      · refine .inl (.slot he ht (fun hmem => ?_) (hsame.mono (fun hs => hs) (fun s hs => ?_)
          (Nat.le_refl budget)))
        · obtain heq | hmem := List.mem_cons.1 hmem
          · exact hsite heq.symm
          · exact hnew hmem
        · simp only [List.mem_cons] at hs ⊢
          exact or_left_comm.1 hs
      · refine .inr ⟨hstart, hlimit, b, hsame.mono (fun hs => hs) (fun s hs => ?_) (Nat.le_refl b)⟩
        simp only [List.mem_cons] at hs ⊢
        exact hs.imp_right .inr

end Again

/-- Where outcomes are remembered, one more leaves them as they are. -/
theorem remember_grows (h : run.Sound g input) (hpure : g.PureCallbacks) {place site : Site}
    (hstep : g.Settles input place.node place.start place.limit step) {s : Step υ}
    (hs : run.memo[site]? = some s) : (run.remember place step).memo[site]? = some s := by
  by_cases hplace : place = site
  · subst hplace
    rw [Run.memo_remember_self, (h _ _ hs).unique hpure hstep]
  · rw [Run.memo_remember_of_ne hplace]
    exact hs

/-- What is found again is an outcome. -/
theorem Again.settles (h : g.Again memo start limit budget active i step)
    (hmemo : ∀ {site : Site} {s}, memo[site]? = some s →
      g.Settles input site.node site.start site.limit s) : g.Settles input i start limit step := by
  induction h with
  | node he hs => exact hmemo hs
  | slot he ht hnew h ih => exact (settles_indirect he ht).2 ih

/-- **Behind a difference that has been found its first part is found again.** -/
theorem Exec.first_again (h : g.Exec config input budget task run step run')
    (hpure : g.PureCallbacks) (hm : config.memoize = true) (hsound : run.Sound g input)
    (hf : Step.fatal? step = none) {d a b : Nat} (hd : g.IsNode d (.difference a b))
    (hnone : run.memo[(⟨d, start, limit⟩ : Site)]? = none) {s : Step υ}
    (hs : run'.memo[(⟨d, start, limit⟩ : Site)]? = some s) :
    ∃ first, g.Again run'.memo start limit budget run.active a first := by
  induction h generalizing s with
  | recalled => cases hnone.symm.trans hs
  | @stored budget i cursor run n step run' _ he hnew h ih =>
    obtain ⟨⟨k, hk⟩, hsound'⟩ := h.settles hsound hf
    have hstep : g.Settles input i cursor run.limit step := ⟨k + 1, (settlesIn_node he).2 hk⟩
    have hnoted : (run'.note (.settled (run.site i cursor) step)).Sound g input := hsound'
    have hgrows {site : Site} {s : Step υ} (hs : run'.memo[site]? = some s) :
        ((run'.note (.settled (run.site i cursor) step)).remember (run.site i cursor)
          step).memo[site]? = some s :=
      remember_grows hnoted hpure hstep hs
    by_cases hplace : run.site i cursor = ⟨d, start, limit⟩
    · obtain ⟨rfl, rfl, rfl⟩ : i = d ∧ cursor = start ∧ run.limit = limit := by
        simpa only [Run.site, Site.mk.injEq] using hplace
      obtain rfl := Entry.node.inj (Option.some.inj (he.symm.trans hd))
      obtain ⟨first, run₁, ha, ⟨f, f', rfl, hfatal, hnext, rfl, rfl⟩ | ⟨hcalm, hrest⟩⟩ :=
        h.apply_cases
      · cases hnext
        cases hf.symm.trans (if_pos hfatal)
      · have hfirst := Exec.again ha hm hcalm
        exact ⟨first, hfirst.mono (fun hs => hgrows (hrest.grows hs)) (fun _ hsite => hsite)
          (Nat.le_refl budget)⟩
    · rw [Run.memo_remember_of_ne hplace] at hs
      obtain ⟨first, hfirst⟩ := ih hsound hf hnone hs
      exact ⟨first, hfirst.mono hgrows (fun _ hsite => hsite) (Nat.le_refl budget)⟩
  | fresh hplain => cases hm.symm.trans hplain
  | reentered => cases hf
  | tooDeep => cases hf
  | @entered budget i cursor run slot target step run' he ht ha h ih =>
    obtain ⟨first, hfirst⟩ := ih hsound hf hnone hs
    exact ⟨first, hfirst.mono (fun hs => hs) (fun _ hsite => List.mem_cons_of_mem _ hsite)
      (Nat.le_succ budget)⟩
  | done => cases hnone.symm.trans hs
  | look h ih => exact ih hsound hf hnone hs
  | abort h hfatal hnext hkind => exact absurd hf (Step.fatal?_ne_none hfatal hkind)
  | @apply budget self run window c cursor next s₁ run₁ step run' h hcalm hnext ihChild ihNext =>
    have hsound₁ := (h.settles hsound hcalm).2
    cases hfound : run₁.memo[(⟨d, start, limit⟩ : Site)]? with
    | some s₂ =>
      obtain ⟨first, hfirst⟩ := ihChild hsound hcalm hnone hfound
      exact ⟨first, hfirst.mono hnext.grows (fun _ hsite => hsite) (Nat.le_refl budget)⟩
    | none =>
      obtain ⟨first, hfirst⟩ := ihNext hsound₁ hf hfound hs
      exact ⟨first, hfirst.mono (fun hs => hs) (fun _ hsite => h.agrees.active ▸ hsite)
        (Nat.le_refl budget)⟩
  | @call budget self run β kind cursor m next step run' f hnext ih =>
    rw [← Matcher.memo_call self kind f cursor m run] at hnone
    obtain ⟨first, hfirst⟩ := ih hsound.call hf hnone hs
    rw [(Matcher.call_agrees self kind f cursor m run).active] at hfirst
    exact ⟨first, hfirst⟩

/-! ## One outcome more -/

/-- The twin follows the same targets, and it remembers the same, and perhaps that a place failed,
where the other state does not. This place is a difference of `a`, of which that failure is found
again. -/
structure Ahead (g : Grammar υ σ) (config : Config) (place : Site) (a : Nat) (fail : Fail)
    (run twin : Run υ σ) : Prop where
  limit : twin.limit = run.limit
  active : twin.active = run.active
  memo : config.memoize = true → ∀ site : Site, twin.memo[site]? = run.memo[site]? ∨
    site = place ∧ run.memo[site]? = none ∧ twin.memo[site]? = some (.error fail)
  again : config.memoize = true →
    ∃ n, g.Again run.memo place.start place.limit n run.active a (.error fail)

namespace Ahead

variable {place : Site} {a : Nat} {fail : Fail} {twin' : Run υ σ}

/-- The twin remembers all that the other state does. -/
theorem covers (h : g.Ahead config place a fail run twin) (hm : config.memoize = true)
    {site : Site} {s : Step υ} (hs : run.memo[site]? = some s) : twin.memo[site]? = some s := by
  obtain heq | ⟨-, hnone, -⟩ := h.memo hm site
  · rw [heq, hs]
  · cases hnone.symm.trans hs

/-- Whatever was done, the twin is ahead afterwards if it remembers as much as it should. -/
theorem after (h : g.Ahead config place a fail run twin)
    (hexec : g.Exec config input budget task run step run') (hagrees : twin.Agrees twin')
    (hmemo : config.memoize = true → ∀ site : Site, twin'.memo[site]? = run'.memo[site]? ∨
      site = place ∧ run'.memo[site]? = none ∧ twin'.memo[site]? = some (.error fail)) :
    g.Ahead config place a fail run' twin' where
  limit := by rw [hagrees.limit, h.limit, hexec.agrees.limit]
  active := by rw [hagrees.active, h.active, hexec.agrees.active]
  memo := hmemo
  again hm := by
    obtain ⟨n, hn⟩ := h.again hm
    exact ⟨n, hn.mono hexec.grows (fun _ hsite => hexec.agrees.active ▸ hsite) (Nat.le_refl n)⟩

/-- The same outcome more is remembered in both. -/
theorem remember (h : ∀ site : Site, twin.memo[site]? = run.memo[site]? ∨
      site = place ∧ run.memo[site]? = none ∧ twin.memo[site]? = some (.error fail))
    (known : Site) (s : Step υ) (site : Site) :
    (twin.remember known s).memo[site]? = (run.remember known s).memo[site]? ∨
      site = place ∧ (run.remember known s).memo[site]? = none
        ∧ (twin.remember known s).memo[site]? = some (.error fail) := by
  by_cases hsite : known = site
  · subst hsite
    exact .inl (Run.memo_remember_self.trans Run.memo_remember_self.symm)
  · rw [Run.memo_remember_of_ne hsite, Run.memo_remember_of_ne hsite]
    exact h site

/-- It does not matter what is told. -/
theorem note (h : g.Ahead config place a fail run twin) (ev ev' : Event υ) :
    g.Ahead config place a fail (run.note ev) (twin.note ev') :=
  ⟨h.limit, h.active, h.memo, h.again⟩

/-- A twin that is ahead of a state is so in another window. -/
theorem withLimit (h : g.Ahead config place a fail run twin) (stop : Cursor) :
    g.Ahead config place a fail (run.withLimit stop) (twin.withLimit stop) :=
  ⟨rfl, h.active, h.memo, h.again⟩

end Ahead

/-- A difference fails where its first part is found again to fail, or it comes to the bound. -/
theorem Exec.difference_of_again {d a b : Nat} {fail : Fail}
    (h : g.Exec config input budget (.plan d (Rule.difference (.child a) (.child b) start)) run step
      run')
    (hm : config.memoize = true)
    (hagain : g.Again run.memo start run.limit bound run.active a (.error fail)) :
    (step = .error fail ∧ run'.memo = run.memo) ∨
      Step.fatal? step = some (.recursionLimit config.maxRecursionDepth) := by
  obtain ⟨s, run₁, ha, hrest⟩ := h.apply_cases
  obtain ⟨rfl, hmemo⟩ | hlimit := hagain.cases hm (fun hs => hs) ha
  · obtain ⟨f, f', hf, -, hnext, rfl, rfl⟩ | ⟨-, hnext⟩ := hrest
    · obtain rfl := Except.error.inj hf
      cases hnext
      exact .inl ⟨rfl, hmemo⟩
    · obtain ⟨rfl, rfl⟩ := Exec.of_done hnext
      exact .inl ⟨rfl, hmemo⟩
  · obtain ⟨f, f', rfl, -, hnext, rfl, rfl⟩ | ⟨hf, -⟩ := hrest
    · cases hnext
      exact .inr hlimit
    · cases hf.symm.trans hlimit

/-- **A twin that is ahead finds what the other state finds**, unless that comes to the bound on
slots, and is ahead afterwards. Without a memo it finds just the same. -/
theorem Exec.ahead (h : g.Exec config input budget task run step run') (hpure : g.PureCallbacks)
    (htask : task.Pure) {d a b : Nat}
    (hd : config.memoize = true → g.IsNode d (.difference a b)) {fail : Fail}
    (hfail : ¬fail.isFatal) (hahead : g.Ahead config ⟨d, start, limit⟩ a fail run twin) :
    (∃ twin', g.Exec config input budget task twin step twin'
        ∧ g.Ahead config ⟨d, start, limit⟩ a fail run' twin') ∨
      config.memoize = true
        ∧ Step.fatal? step = some (.recursionLimit config.maxRecursionDepth) := by
  induction h generalizing twin with
  | @recalled budget i cursor run n step hm he hs =>
    have hs' : twin.memo[twin.site i cursor]? = some step := by
      rw [Run.site, hahead.limit]
      exact hahead.covers hm hs
    have hrun : g.Exec config input budget (.entry i cursor) run step _ := .recalled hm he hs
    have htwin : g.Exec config input budget (.entry i cursor) twin step _ := .recalled hm he hs'
    exact .inl ⟨_, htwin, hahead.after hrun htwin.agrees hahead.memo⟩
  | @stored budget i cursor run n step run' hm he hs h ih =>
    have hsite : twin.site i cursor = run.site i cursor := by rw [Run.site, hahead.limit]
    have hrun : g.Exec config input budget (.entry i cursor) run step _ := .stored hm he hs h
    obtain heq | ⟨hplace, -, hs'⟩ := hahead.memo hm (run.site i cursor)
    · have hnone : twin.memo[twin.site i cursor]? = none := by rw [hsite, heq, hs]
      have hrule := n.strict_rule input (fun _ _ => trivial) (hpure i n he) cursor
      obtain ⟨twin', htwin, hahead'⟩ | hlimit :=
        ih hrule (hahead.note (.evaluated (run.site i cursor)) (.evaluated (twin.site i cursor)))
      · have hexec : g.Exec config input budget (.entry i cursor) twin step _ :=
          .stored hm he hnone htwin
        refine .inl ⟨_, hexec, hahead.after hrun hexec.agrees fun hm site => ?_⟩
        rw [hsite]
        exact Ahead.remember (hahead'.memo hm) _ _ site
      · exact .inr hlimit
    · -- The twin recalls that the difference failed, which the other state finds out again.
      obtain ⟨rfl, rfl, rfl⟩ : i = d ∧ cursor = start ∧ run.limit = limit := by
        simpa only [Run.site, Site.mk.injEq] using hplace
      obtain rfl := Entry.node.inj (Option.some.inj (he.symm.trans (hd hm)))
      obtain ⟨n, hn⟩ := hahead.again hm
      obtain ⟨rfl, hmemo⟩ | hlimit := Exec.difference_of_again h hm hn
      · have hexec : g.Exec config input budget (.entry i cursor) twin (.error fail) _ :=
          .recalled hm he (hsite.symm ▸ hs')
        refine .inl ⟨_, hexec, hahead.after hrun hexec.agrees fun hm site => ?_⟩
        by_cases hsite' : run.site i cursor = site
        · subst hsite'
          exact .inl (hs'.trans Run.memo_remember_self.symm)
        · have hmemo' : (run'.note (.settled (run.site i cursor) (.error fail))).memo = run.memo :=
            hmemo
          rw [Run.memo_remember_of_ne hsite', hmemo']
          exact hahead.memo hm site
      · exact .inr ⟨hm, hlimit⟩
  | @fresh budget i cursor run n step run' hm he h ih =>
    have hrule := n.strict_rule input (fun _ _ => trivial) (hpure i n he) cursor
    obtain ⟨twin', htwin, hahead'⟩ | hlimit :=
      ih hrule (hahead.note (.evaluated (run.site i cursor)) (.evaluated (twin.site i cursor)))
    · exact .inl ⟨_, .fresh hm he htwin, hahead'.note _ _⟩
    · exact .inr hlimit
  | @reentered budget i cursor run slot target he ht ha =>
    have ha' : twin.site target cursor ∈ twin.active := by
      rw [Run.site, hahead.limit, hahead.active]
      exact ha
    exact .inl ⟨_, .reentered he ht ha', hahead.note _ _⟩
  | @tooDeep i cursor run slot target he ht ha =>
    have ha' : twin.site target cursor ∉ twin.active := by
      rw [Run.site, hahead.limit, hahead.active]
      exact ha
    exact .inl ⟨_, .tooDeep he ht ha', hahead.note _ _⟩
  | @entered budget i cursor run slot target step run' he ht ha h ih =>
    have hsite : twin.site target cursor = run.site target cursor := by rw [Run.site, hahead.limit]
    have ha' : twin.site target cursor ∉ twin.active := by
      rw [hsite, hahead.active]
      exact ha
    have hrun : g.Exec config input (budget + 1) (.entry i cursor) run step _ := .entered he ht ha h
    have hmemo : config.memoize = true → ∀ site : Site,
        (twin.enter slot (twin.site target cursor)).memo[site]?
          = (run.enter slot (run.site target cursor)).memo[site]? ∨
        site = ⟨d, start, limit⟩ ∧ (run.enter slot (run.site target cursor)).memo[site]? = none
          ∧ (twin.enter slot (twin.site target cursor)).memo[site]? = some (.error fail) :=
      hahead.memo
    by_cases hagain : config.memoize = true → ∃ n, g.Again run.memo start limit n
        (run.site target cursor :: run.active) a (.error fail)
    · have hentered : g.Ahead config ⟨d, start, limit⟩ a fail
          (run.enter slot (run.site target cursor)) (twin.enter slot (twin.site target cursor)) :=
        ⟨hahead.limit, by rw [Run.active_enter, Run.active_enter, hsite, hahead.active], hmemo,
          hagain⟩
      obtain ⟨twin', htwin, hahead'⟩ | hlimit := ih trivial hentered
      · have hexec : g.Exec config input (budget + 1) (.entry i cursor) twin step _ :=
          .entered he ht ha' htwin
        exact .inl ⟨_, hexec, hahead.after hrun hexec.agrees hahead'.memo⟩
      · exact .inr hlimit
    · -- The target is one that leads to the failure, so it fails in the same way, in both.
      obtain ⟨hm, hnone⟩ := Classical.not_imp.1 hagain
      obtain ⟨n, hn⟩ := hahead.again hm
      obtain hn | ⟨rfl, rfl, n, hn⟩ := hn.enter (run.site target cursor)
      · exact absurd ⟨n, hn⟩ hnone
      · have hentered {site : Site} {s : Step υ} (hs : run.memo[site]? = some s) :
            (run.enter slot (run.site target cursor)).memo[site]? = some s := hs
        obtain ⟨rfl, hrun'⟩ | hlimit := Again.cases hn hm hentered h
        · have hfound := h.again hm (Step.fatal?_error_eq_none_iff.2 hfail)
          rw [hrun'] at hfound
          have hfound' : g.Again run.memo (run.site target cursor).start
              (twin.enter slot (twin.site target cursor)).limit budget
              (twin.enter slot (twin.site target cursor)).active target (.error fail) := by
            rw [Run.active_enter, hsite, hahead.active]
            exact hahead.limit ▸ hfound
          obtain ⟨twin', htwin, htwin'⟩ := hfound'.exec input hm (hahead.covers hm)
          have hexec : g.Exec config input (budget + 1) (.entry i cursor) twin (.error fail) _ :=
            .entered he ht ha' htwin
          refine .inl ⟨_, hexec, hahead.after hrun hexec.agrees fun hm site => ?_⟩
          rw [Run.memo_leave, Run.memo_leave, htwin', hrun']
          exact hahead.memo hm site
        · exact .inr ⟨hm, hlimit⟩
  | @done budget self run step hf => exact .inl ⟨twin, .done hf, hahead⟩
  | look h ih =>
    obtain ⟨twin', htwin, hahead'⟩ | hlimit := ih (htask _) hahead
    · exact .inl ⟨twin', .look (hahead.limit.symm ▸ htwin), hahead'⟩
    · exact .inr hlimit
  | @abort budget self run window c cursor next f f' run' h hf hnext hkind ih =>
    obtain ⟨twin', htwin, hahead'⟩ | ⟨hm, hlimit⟩ := ih trivial (hahead.withLimit _)
    · rw [← hahead.limit] at htwin
      exact .inl ⟨_, .abort htwin hf hnext hkind, hahead.limit ▸ hahead'.withLimit _⟩
    · exact .inr ⟨hm, (Step.fatal?_error_congr hkind).trans hlimit⟩
  | @apply budget self run window c cursor next s run' step run'' h hf hnext ihChild ihNext =>
    obtain ⟨twin', htwin, hahead'⟩ | ⟨-, hlimit⟩ := ihChild trivial (hahead.withLimit _)
    · rw [← hahead.limit] at htwin
      obtain ⟨twin'', htwin', hahead''⟩ | hlimit :=
        ihNext (htask.2.2 _ hf) (hahead'.withLimit run.limit)
      · exact .inl ⟨_, .apply htwin hf (hahead.limit.symm ▸ htwin'), hahead''⟩
      · exact .inr hlimit
    · cases hf.symm.trans hlimit
  | @call budget self run β kind cursor m next step run' f hnext ih =>
    have hanswer := htask.1.unique (Matcher.answers_call self kind f cursor m twin)
      (Matcher.answers_call self kind f cursor m run)
    have hagrees := Matcher.call_agrees self kind f cursor m run
    have hagrees' := Matcher.call_agrees self kind f cursor m twin
    have hcall : g.Ahead config ⟨d, start, limit⟩ a fail (Matcher.call self kind f cursor m run).2
        (Matcher.call self kind f cursor m twin).2 := by
      refine ⟨?_, ?_, fun hm => ?_, fun hm => ?_⟩
      · rw [hagrees'.limit, hahead.limit, hagrees.limit]
      · rw [hagrees'.active, hahead.active, hagrees.active]
      · rw [Matcher.memo_call, Matcher.memo_call]
        exact hahead.memo hm
      · rw [Matcher.memo_call, hagrees.active]
        exact hahead.again hm
    obtain ⟨twin', htwin, hahead'⟩ | hlimit := ih (htask.2 _) hcall
    · exact .inl ⟨twin', .call (hanswer ▸ htwin), hahead'⟩
    · exact .inr hlimit

/-- **Without a memo the window and the targets decide.** -/
theorem Exec.plain (h : g.Exec config input budget task run step run') (hpure : g.PureCallbacks)
    (htask : task.Pure) (hplain : config.memoize = false) (hlimit : twin.limit = run.limit)
    (hactive : twin.active = run.active) :
    ∃ twin', g.Exec config input budget task twin step twin' := by
  have hmemo {p : Prop} (hm : config.memoize = true) : p := nomatch hplain.symm.trans hm
  have hahead : g.Ahead config ⟨0, .start, .start⟩ 0 (.noMatch .start) run twin :=
    ⟨hlimit, hactive, hmemo, hmemo⟩
  obtain ⟨twin', htwin, -⟩ | ⟨hm, -⟩ := h.ahead (b := 0) hpure htask hmemo (by decide) hahead
  · exact ⟨twin', htwin⟩
  · exact hmemo hm

/-- **What has been found is found the second time**, and nothing more is remembered then. -/
theorem Exec.second (h : g.Exec config input budget (.entry i start) run step run')
    (hpure : g.PureCallbacks) (hf : Step.fatal? step = none) (hlimit : twin.limit = run.limit)
    (hactive : twin.active = run.active)
    (hmemo : config.memoize = true → ∀ {site : Site} {s}, run'.memo[site]? = some s →
      twin.memo[site]? = some s) :
    ∃ twin', g.Exec config input budget (.entry i start) twin step twin'
      ∧ (config.memoize = true → twin'.memo = twin.memo) := by
  cases hm : config.memoize with
  | true =>
    have hagain := h.again hm hf
    rw [← hlimit, ← hactive] at hagain
    obtain ⟨twin', htwin, hsame⟩ := hagain.exec input hm (hmemo hm)
    exact ⟨twin', htwin, fun _ => hsame⟩
  | false =>
    obtain ⟨twin', htwin⟩ := h.plain hpure trivial hm hlimit hactive
    exact ⟨twin', htwin, fun h => nomatch h⟩

end Packrat.Grammar
