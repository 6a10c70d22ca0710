import Mathlib.Data.List.Dedup
import Packrat.Proofs.Engine.Tally

/-!
# Proofs/Engine/Once — every place is worked out once

A run that remembers outcomes finishes a place once at most, because a place that has been finished
is remembered, and one that is met again before that fails for good. As long as nothing does, what
is remembered is what has been finished (`Run.Filed`). It stays as it is in any case (`Exec.grows`).

Main statements: `Exec.remembers` for everything that can be carried out, `Reaches.keeps` for the
moments in between, and `Exec.nodup_called` and `Exec.evaluated_remembered` for whole runs.
-/

namespace Packrat

variable {υ σ : Type}

namespace Run

variable {run : Run υ σ} {place site : Site} {step : Step υ}

theorem memo_remember_self : (run.remember place step).memo[place]? = some step :=
  Std.TreeMap.getElem?_insert_self

theorem memo_remember_of_ne (h : place ≠ site) :
    (run.remember place step).memo[site]? = run.memo[site]? := by
  rw [memo_remember, Std.TreeMap.getElem?_insert, if_neg]
  exact fun heq => h (Std.LawfulEqOrd.eq_of_compare heq)

/-- What is remembered has been finished once, and nothing else has. -/
def Filed (run : Run υ σ) : Prop :=
  ∀ site, run.tally Event.finished? site = if run.memo[site]?.isSome then 1 else 0

namespace Filed

theorem le_one (h : run.Filed) (site : Site) : run.tally Event.finished? site ≤ 1 := by
  rw [h site]
  split <;> omega

theorem note (h : run.Filed) {e : Event υ} (he : e.finished? = none) : (run.note e).Filed := by
  intro site
  rw [tally_note, he, if_neg (Option.some_ne_none site).symm, Nat.add_zero]
  exact h site

theorem enter (h : run.Filed) (slot : Slot) (place : Site) : (run.enter slot place).Filed :=
  h.note (e := .entered slot (place :: run.active) (run.depth + 1)) rfl

theorem call (h : run.Filed) {β : Type} {self : Nat} {kind : CallbackKind} {f : Callback υ σ β}
    {start : Cursor} {m : Match υ} : (Matcher.call self kind f start m run).2.Filed := by
  intro site
  rw [tally_call fun _ => rfl, Matcher.memo_call]
  exact h site

/-- A place that is not remembered yet is finished, and remembered. -/
theorem remember (h : run.Filed) (hplace : run.memo[place]? = none)
    (hstep : Step.fatal? step = none) :
    ((run.note (.settled place step)).remember place step).Filed := by
  intro site
  rw [tally_remember, tally_settled, h site, finishes]
  by_cases hsite : place = site
  · subst hsite
    simp [hplace, hstep]
  · rw [memo_remember_of_ne hsite]
    simp [hsite]

theorem fresh (input : Input) (host : σ) : (Run.fresh input host : Run υ σ).Filed := by
  intro site
  rw [memo_fresh]
  rfl

end Filed

end Run

/-! ## Whatever is carried out -/

/-- The outcome of an entry is remembered. -/
def Task.Known (g : Grammar υ σ) (run : Run υ σ) (limit : Cursor) (step : Step υ) :
    Task υ σ → Prop
  | entry i start => g.Knows run i start limit step
  | plan .. => True

namespace Grammar

/-- What a task leaves behind that does not fail for good: what has been finished is remembered, no
outcome is forgotten or changed, and no outcome of a pending place is known. -/
structure Remembers (g : Grammar υ σ) (pending : List Site) (task : Task υ σ) (run run' : Run υ σ)
    (step : Step υ) : Prop where
  filed : run'.Filed
  grows : ∀ (site : Site) s, run.memo[site]? = some s → run'.memo[site]? = some s
  unknown : ∀ place ∈ pending, run'.memo[place]? = none
  known : task.Known g run' run.limit step

variable {g : Grammar υ σ} {config : Config} {input : Input} {budget : Nat} {task : Task υ σ}
  {run run' : Run υ σ} {step : Step υ} {pending : List Site}

/-- What is remembered stays so, whatever is done. -/
theorem Exec.grows (h : g.Exec config input budget task run step run') {site : Site} {s : Step υ}
    (hs : run.memo[site]? = some s) : run'.memo[site]? = some s := by
  induction h with
  | recalled => exact hs
  | stored _ _ hnone _ ih =>
    rw [Run.memo_remember_of_ne]
    · exact ih hs
    · rintro rfl
      cases hnone.symm.trans hs
  | fresh _ _ _ ih => exact ih hs
  | reentered => exact hs
  | tooDeep => exact hs
  | entered _ _ _ _ ih => exact ih hs
  | done => exact hs
  | look _ ih => exact ih hs
  | abort _ _ _ _ ih => exact ih hs
  | apply _ _ _ ihChild ihNext => exact ihNext (ihChild hs)
  | @call _ self run _ kind cursor m _ _ _ f _ ih =>
    have hcall := Matcher.memo_call self kind f cursor m run
    exact ih (by rw [hcall, hs])

/-- An outcome that was not known before and is remembered now. -/
theorem Exec.remember {i : Nat} {start : Cursor} {n : Node Nat υ σ}
    (hexec : g.Exec config input budget (.entry i start) run step
      ((run'.note (.settled (run.site i start) step)).remember (run.site i start) step))
    (he : g.entries[i]? = some (.node n)) {e : Event υ}
    (h : g.Remembers (run.site i start :: pending) (.plan i (n.rule input start)) (run.note e)
      run' step)
    (hplace : run.site i start ∉ pending) (hf : Step.fatal? step = none) :
    g.Remembers pending (.entry i start) run
      ((run'.note (.settled (run.site i start) step)).remember (run.site i start) step) step := by
  have hnone := h.unknown _ List.mem_cons_self
  refine ⟨h.filed.remember hnone hf, fun _ _ => hexec.grows, fun place hmem => ?_,
    .node he Run.memo_remember_self⟩
  rw [Run.memo_remember_of_ne]
  · exact h.unknown place (List.mem_cons_of_mem _ hmem)
  · rintro rfl
    exact hplace hmem

/-- **A run that remembers outcomes finishes no place twice**, and unless it fails for good it
remembers what it has finished. -/
theorem Exec.remembers (h : g.Exec config input budget task run step run')
    (hm : config.memoize = true) (hpends : g.Pends input pending run task) (hfiled : run.Filed) :
    (∀ site, run'.tally Event.finished? site ≤ 1) ∧
      (Step.fatal? step = none → g.Remembers pending task run run' step) := by
  induction h generalizing pending with
  | @recalled budget i start run n step _ he hs =>
    have hnoted := hfiled.note (e := .recalled (run.site i start) step) rfl
    exact ⟨hnoted.le_one, fun _ => ⟨hnoted, fun _ _ hs => hs, hpends.unknown, .node he hs⟩⟩
  | @stored budget i start run n step run' _ he hs h ih =>
    obtain ⟨hle, hrest⟩ := ih (hpends.evaluate he hs _) (hfiled.note rfl)
    cases hf : Step.fatal? step with
    | none =>
      have hexec : g.Exec config input budget (.entry i start) run step _ := .stored hm he hs h
      have hplace : run.site i start ∉ pending := fun hmem => hpends.fatal hm hmem hexec hf
      have hentry := hexec.remember he (hrest hf) hplace hf
      exact ⟨hentry.filed.le_one, fun _ => hentry⟩
    | some kind =>
      refine ⟨fun site => ?_, fun hnone => by cases hnone⟩
      rw [Run.tally_remember, Run.tally_settled, Run.finishes, hf]
      exact hle site
  | fresh hplain => cases hm.symm.trans hplain
  | reentered => exact ⟨(hfiled.note rfl).le_one, fun hf => by cases hf⟩
  | tooDeep => exact ⟨(hfiled.note rfl).le_one, fun hf => by cases hf⟩
  | entered he ht ha h ih =>
    obtain ⟨hle, hrest⟩ := ih (hpends.enter he ht) (hfiled.enter _ _)
    refine ⟨hle, fun hf => ?_⟩
    obtain ⟨hfiled', hgrows, hunknown, hknown⟩ := hrest hf
    exact ⟨hfiled', hgrows, hunknown, .indirect he ht (hknown.mono fun _ _ hs => hs)⟩
  | done => exact ⟨hfiled.le_one, fun _ => ⟨hfiled, fun _ _ hs => hs, hpends.unknown, trivial⟩⟩
  | look h ih =>
    obtain ⟨hle, hrest⟩ := ih hpends.look hfiled
    exact ⟨hle, fun hf => ⟨(hrest hf).filed, fun _ _ => h.grows, (hrest hf).unknown, trivial⟩⟩
  | abort h hfatal hnext hkind ih =>
    refine ⟨(ih hpends.child hfiled).1, fun hf => ?_⟩
    exact absurd hf (Step.fatal?_ne_none hfatal hkind)
  | apply h hf hnext ihChild ihNext =>
    have hchild := (ihChild hpends.child hfiled).2 hf
    obtain ⟨hle, hrest⟩ := ihNext
      (hpends.rest hchild.grows hchild.unknown h.agrees.active hchild.known hf) hchild.filed
    exact ⟨hle, fun hf' => ⟨(hrest hf').filed, fun _ _ hs => hnext.grows (h.grows hs),
      (hrest hf').unknown, trivial⟩⟩
  | @call budget self run β kind start m next step run' f hnext ih =>
    obtain ⟨hle, hrest⟩ := ih hpends.call hfiled.call
    refine ⟨hle, fun hf => ⟨(hrest hf).filed, fun site s hs => (hrest hf).grows site s ?_,
      (hrest hf).unknown, trivial⟩⟩
    rw [Matcher.memo_call]
    exact hs

/-! ## In between -/

/-- **What is remembered at a moment is remembered at the end**, unless the run fails for good. -/
theorem Reaches.keeps {a b : Moment υ σ} (h : g.Reaches config input a b)
    (hm : config.memoize = true) (hexec : g.Exec config input a.budget a.task a.run step run')
    (hf : Step.fatal? step = none) (hpends : g.Pends input pending a.run a.task)
    (hfiled : a.run.Filed) (site : Site) (s : Step υ) (hs : b.run.memo[site]? = some s) :
    run'.memo[site]? = some s := by
  induction h using Relation.ReflTransGen.head_induction_on generalizing pending step run' with
  | refl => exact hexec.grows hs
  | head hab hbc ih =>
    cases hab with
    | evaluated he hnone =>
      obtain ⟨hs', -⟩ | ⟨-, run₁, h₁, rfl⟩ := hexec.node_cases hm he
      · cases (hnone hm).symm.trans hs'
      · have hsite := ih h₁ hf (hpends.evaluate he (hnone hm) _) (hfiled.note rfl)
        obtain ⟨-, hrest⟩ := h₁.remembers hm (hpends.evaluate he (hnone hm) _) (hfiled.note rfl)
        have hplace := (hrest hf).unknown _ List.mem_cons_self
        rw [Run.memo_remember_of_ne]
        · exact hsite
        · rintro rfl
          cases hplace.symm.trans hsite
    | entered he ht ha =>
      obtain ⟨-, rfl, -⟩ | ⟨-, ⟨-, rfl, -⟩ | ⟨b, run₁, hb, h₁, rfl⟩⟩ :=
        hexec.placeholder_cases he ht
      · cases hf
      · cases hf
      · obtain rfl := Nat.succ.inj hb
        have htarget := ih h₁ hf (hpends.enter he ht) (hfiled.enter _ _)
        exact htarget
    | look =>
      cases hexec with
      | look h₁ => exact ih h₁ hf hpends.look hfiled
    | child =>
      cases hexec with
      | abort _ hfatal _ hkind =>
        exact absurd hf (Step.fatal?_ne_none hfatal hkind)
      | apply h₁ hf₁ hnext =>
        have hsite := ih h₁ hf₁ hpends.child hfiled
        exact hnext.grows hsite
    | rest h₁ hf₁ =>
      have hchild := (h₁.remembers hm hpends.child hfiled).2 hf₁
      cases hexec with
      | abort h₂ hfatal =>
        obtain ⟨rfl, -⟩ := h₁.unique h₂
        cases hf₁.symm.trans (if_pos hfatal)
      | apply h₂ _ hnext =>
        obtain ⟨rfl, rfl⟩ := h₁.unique h₂
        exact ih hnext hf
          (hpends.rest hchild.grows hchild.unknown h₁.agrees.active hchild.known hf₁) hchild.filed
    | called =>
      cases hexec with
      | call hnext => exact ih hnext hf hpends.call hfiled.call

/-! ## Whole runs -/

section

variable {root : Handle} {host : σ}

/-- At the start of a run no place is pending. -/
theorem first_pends (hroot : g.Owns root) (input : Input) (host : σ) :
    g.Pends input [] (Run.fresh input host) (.entry root.index .start) :=
  ⟨hroot.2, trivial, fun _ hplace => (nomatch hplace), fun _ hplace => (nomatch hplace)⟩

variable (hroot : g.Owns root) (hm : config.memoize = true)
  (h : g.Exec config input config.maxRecursionDepth (.entry root.index .start) (.fresh input host)
    step run')

include hroot hm h

/-- **No callback is called twice at one place**, however the run ends. -/
theorem Exec.nodup_called : (run'.trace.toList.filterMap Event.called?).Nodup := by
  rw [List.nodup_iff_count_le_one]
  intro site
  have hcalled : run'.tally Event.called? site + 0 ≤ 0 + run'.tally Event.finished? site :=
    h.tally_called site
  have hfinished := (h.remembers hm (first_pends hroot input host) (.fresh input host)).1 site
  change run'.tally Event.called? site ≤ 1
  omega

/-- **A run that does not fail for good evaluates every place once**, and remembers just these. -/
theorem Exec.evaluated_remembered (hf : Step.fatal? step = none) (site : Site) :
    (evaluatedSites run'.trace.toList).count site = if run'.memo[site]?.isSome then 1 else 0 := by
  have hfiled := ((h.remembers hm (first_pends hroot input host) (.fresh input host)).2 hf).filed
  have hfinished : run'.tally Event.evaluated? site + 0 = 0 + run'.tally Event.finished? site :=
    h.tally_evaluated hf site
  rw [← hfiled site]
  change run'.tally Event.evaluated? site = _
  omega

theorem Exec.nodup_evaluated (hf : Step.fatal? step = none) :
    (evaluatedSites run'.trace.toList).Nodup := by
  rw [List.nodup_iff_count_le_one]
  intro site
  rw [h.evaluated_remembered hroot hm hf]
  split <;> omega

/-- As many places are evaluated as are remembered. -/
theorem Exec.length_evaluated (hf : Step.fatal? step = none) :
    (evaluatedSites run'.trace.toList).length = run'.memo.size := by
  rw [← Std.TreeMap.length_keys]
  refine (List.Perm.length_eq ?_)
  rw [List.perm_ext_iff_of_nodup (h.nodup_evaluated hroot hm hf) Std.TreeMap.nodup_keys]
  intro site
  rw [Std.TreeMap.mem_keys, Std.TreeMap.mem_iff_isSome_getElem?, ← List.count_pos_iff,
    h.evaluated_remembered hroot hm hf]
  split
  · next hsome => simp [hsome]
  · next hnone => simp [hnone]

end

end Grammar

end Packrat
