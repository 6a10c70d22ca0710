import Packrat.Proofs.Engine.Once
import Packrat.Proofs.Semantics.Memoization

/-!
# Proofs/Semantics/Visits — the packrat guarantee

Which places a grammar comes to when it is matched somewhere follows from outcomes alone
(`Grammar.Visits`): the place itself if it is a combinator's, whatever the children come to that its
plan asks for, and whatever the target of a placeholder comes to. With pure callbacks a run that
does not fail for good evaluates just these places, with a memo or without (`Exec.visits`); with a
memo it evaluates each of them once.

Main statement: `run_packrat`.
-/

namespace Packrat

variable {υ σ : Type}

/-! ## Places that are come to -/

/-- The plan asks for a child at a place, in a window that ends at `limit`, where `R` tells the
outcomes of children. -/
def Plan.Asks (R : Outcomes υ) (limit : Cursor) : Plan υ σ (Step υ) → Site → Prop
  | done _, _ => False
  | look next, place => (next limit).Asks R limit place
  | apply window c start next, place => place = ⟨c, start, window.getD limit⟩ ∨
    ∃ s, R c start (window.getD limit) s ∧ (next s).Asks R limit place
  | call _ f _ m next, place => ∃ a, f.Answers m.shown a ∧ (next a).Asks R limit place

/-- Matched at the first place, a grammar comes to a combinator at the second one. -/
inductive Grammar.Visits (g : Grammar υ σ) (input : Input) : Site → Site → Prop
  /-- A combinator is where it is matched. -/
  | self {place n} (he : g.entries[place.node]? = some (.node n)) : Visits g input place place
  /-- A combinator asks for a child. -/
  | child {place n inner site} (he : g.entries[place.node]? = some (.node n))
      (h : (n.rule input place.start).Asks (g.Settles input) place.limit inner)
      (hinner : Visits g input inner site) : Visits g input place site
  /-- A placeholder leads to its target. -/
  | target {place slot target site} (he : g.entries[place.node]? = some (.indirect slot))
      (ht : g.targets[slot.index]? = some target)
      (h : Visits g input ⟨target, place.start, place.limit⟩ site) : Visits g input place site

/-- While the task is carried out, a grammar comes to a combinator at a place. -/
def Task.Visits (g : Grammar υ σ) (input : Input) (limit : Cursor) : Task υ σ → Site → Prop
  | entry i start, site => g.Visits input ⟨i, start, limit⟩ site
  | plan _ p, site => ∃ inner, p.Asks (g.Settles input) limit inner ∧ g.Visits input inner site

namespace Grammar

variable {g : Grammar υ σ} {config : Config} {input : Input} {i target : Nat} {start limit : Cursor}
  {n : Node Nat υ σ} {slot : Slot} {site : Site}

theorem visits_node (he : g.entries[i]? = some (.node n)) :
    (Task.entry i start : Task υ σ).Visits g input limit site ↔
      site = ⟨i, start, limit⟩ ∨ (Task.plan i (n.rule input start)).Visits g input limit site := by
  constructor
  · intro h
    cases h with
    | self => exact .inl rfl
    | child he' h hinner =>
      obtain rfl := Entry.node.inj (Option.some.inj (he.symm.trans he'))
      exact .inr ⟨_, h, hinner⟩
    | target he' => cases he.symm.trans he'
  · rintro (rfl | ⟨inner, h, hinner⟩)
    · exact .self he
    · exact .child he h hinner

theorem visits_indirect (he : g.entries[i]? = some (.indirect slot))
    (ht : g.targets[slot.index]? = some target) :
    (Task.entry i start : Task υ σ).Visits g input limit site ↔
      (Task.entry target start : Task υ σ).Visits g input limit site := by
  constructor
  · intro h
    cases h with
    | self he' => cases he.symm.trans he'
    | child he' => cases he.symm.trans he'
    | target he' ht' h =>
      obtain rfl := Entry.indirect.inj (Option.some.inj (he.symm.trans he'))
      obtain rfl := Option.some.inj (ht.symm.trans ht')
      exact h
  · exact fun h => .target he ht h

/-- A plan comes to what its next child comes to, and to what is left of it comes to. -/
theorem visits_apply (hpure : g.PureCallbacks) {self c : Nat} {window : Option Cursor}
    {next : Step υ → Plan υ σ (Step υ)} {step : Step υ}
    (hstep : g.Settles input c start (window.getD limit) step) :
    (Task.plan self (.apply window c start next)).Visits g input limit site ↔
      (Task.entry c start : Task υ σ).Visits g input (window.getD limit) site ∨
        (Task.plan self (next step)).Visits g input limit site := by
  constructor
  · rintro ⟨inner, rfl | ⟨s, hs, hinner⟩, hvisits⟩
    · exact .inl hvisits
    · obtain rfl := hs.unique hpure hstep
      exact .inr ⟨inner, hinner, hvisits⟩
  · rintro (hvisits | ⟨inner, hinner, hvisits⟩)
    · exact ⟨_, .inl rfl, hvisits⟩
    · exact ⟨inner, .inr ⟨step, hstep, hinner⟩, hvisits⟩

/-- Behind a pure callback a plan comes to what is left of it comes to. -/
theorem visits_call {β : Type} {self : Nat} {kind : CallbackKind} {f : Callback υ σ β}
    {m : Match υ} {next : Except CallbackError β → Plan υ σ (Step υ)}
    {a : Except CallbackError β} (hf : f.IsPure) (ha : f.Answers m.shown a) :
    (Task.plan self (.call kind f start m next)).Visits g input limit site ↔
      (Task.plan self (next a)).Visits g input limit site := by
  constructor
  · rintro ⟨inner, ⟨a', ha', hinner⟩, hvisits⟩
    obtain rfl := hf.unique ha ha'
    exact ⟨inner, hinner, hvisits⟩
  · rintro ⟨inner, hinner, hvisits⟩
    exact ⟨inner, ⟨a, ha, hinner⟩, hvisits⟩

end Grammar

/-! ## Runs evaluate what they come to -/

/-- A node has been matched afresh there. -/
def Run.Evaluated (run : Run υ σ) (site : Site) : Prop := site ∈ evaluatedSites run.trace.toList

namespace Run

variable {run : Run υ σ} {site : Site}

theorem evaluated_note {e : Event υ} :
    (run.note e).Evaluated site ↔ run.Evaluated site ∨ e.evaluated? = some site := by
  rw [Evaluated, evaluatedSites, trace_note, Array.toList_push, List.filterMap_append,
    List.mem_append]
  cases h : e.evaluated? with
  | none => simp [Evaluated, evaluatedSites, h]
  | some place => simp [Evaluated, evaluatedSites, h, eq_comm]

theorem evaluated_note_of_none {e : Event υ} (h : e.evaluated? = none) :
    (run.note e).Evaluated site ↔ run.Evaluated site := by
  simp [evaluated_note, h]

theorem evaluated_call {β : Type} {self : Nat} {kind : CallbackKind} {f : Callback υ σ β}
    {start : Cursor} {m : Match υ} :
    (Matcher.call self kind f start m run).2.Evaluated site ↔ run.Evaluated site := by
  rw [Matcher.call_eq]
  dsimp only
  split
  · exact evaluated_note_of_none (e := .called (run.site self start)) rfl
  · exact (evaluated_note_of_none rfl).trans
      (evaluated_note_of_none (e := .called (run.site self start)) rfl)

/-- Whatever a remembered place comes to has been evaluated. -/
def Covered (g : Grammar υ σ) (input : Input) (run : Run υ σ) : Prop :=
  ∀ (place : Site) step, run.memo[place]? = some step →
    ∀ site, g.Visits input place site → run.Evaluated site

theorem Covered.of_memo_eq {g : Grammar υ σ} {input : Input} {run' : Run υ σ}
    (h : run.Covered g input) (hmemo : run'.memo = run.memo)
    (hevaluated : ∀ site, run.Evaluated site → run'.Evaluated site) : run'.Covered g input :=
  fun place step hs site hsite => hevaluated site (h place step (hmemo ▸ hs) site hsite)

theorem Covered.note {g : Grammar υ σ} {input : Input} (h : run.Covered g input) (e : Event υ) :
    (run.note e).Covered g input :=
  h.of_memo_eq rfl fun _ hsite => evaluated_note.2 (.inl hsite)

end Run

namespace Grammar

variable {g : Grammar υ σ} {config : Config} {input : Input} {budget : Nat} {task : Task υ σ}
  {run run' : Run υ σ} {step : Step υ}

/-- What has been evaluated behind a node, from what has been behind its plan. -/
theorem evaluated_entry {i : Nat} {n : Node Nat υ σ} {start : Cursor}
    (he : g.entries[i]? = some (.node n))
    (h : ∀ site, run'.Evaluated site ↔
      (run.note (.evaluated (run.site i start))).Evaluated site ∨
        (Task.plan i (n.rule input start)).Visits g input run.limit site) (site : Site) :
    run'.Evaluated site ↔
      run.Evaluated site ∨ (Task.entry i start : Task υ σ).Visits g input run.limit site := by
  rw [h, Run.evaluated_note, visits_node he, or_assoc, Event.evaluated?, Option.some.injEq,
    eq_comm (a := run.site i start)]

/-- **Without a fatal failure a run evaluates just what it comes to.** -/
theorem Exec.visits (hpure : g.PureCallbacks) (h : g.Exec config input budget task run step run')
    (hf : Step.fatal? step = none) (htask : task.Pure) (hsound : run.Sound g input)
    (hcovered : run.Covered g input) :
    (∀ site, run'.Evaluated site ↔ run.Evaluated site ∨ task.Visits g input run.limit site)
      ∧ run'.Covered g input := by
  induction h with
  | @recalled budget i start run n step hm he hs =>
    refine ⟨fun site => ?_, hcovered.note _⟩
    rw [Run.evaluated_note_of_none rfl, or_iff_left_of_imp]
    exact hcovered _ _ hs site
  | @stored budget i start run n step run' hm he hs h ih =>
    obtain ⟨hplan, hcovered'⟩ := ih hf
      (n.strict_rule input (fun _ _ => trivial) (hpure i n he) start) hsound (hcovered.note _)
    have hentry := evaluated_entry he hplan
    have hsettled : ∀ site, ((run'.note (.settled (run.site i start) step)).remember
        (run.site i start) step).Evaluated site ↔ run'.Evaluated site :=
      fun site => Run.evaluated_note_of_none (e := .settled (run.site i start) step) rfl
    refine ⟨fun site => (hsettled site).trans (hentry site), fun place s hs site hsite => ?_⟩
    rw [hsettled]
    obtain ⟨rfl, rfl⟩ | hs := Run.memo_remember_cases _ _ _ hs
    · exact (hentry site).2 (.inr hsite)
    · exact hcovered' place s hs site hsite
  | @fresh budget i start run n step run' hm he h ih =>
    obtain ⟨hplan, hcovered'⟩ := ih hf
      (n.strict_rule input (fun _ _ => trivial) (hpure i n he) start) hsound (hcovered.note _)
    exact ⟨fun site => (Run.evaluated_note_of_none rfl).trans (evaluated_entry he hplan site),
      hcovered'.note _⟩
  | reentered => cases hf
  | tooDeep => cases hf
  | @entered budget i start run slot target step run' he ht ha h ih =>
    have hentered : ∀ site, (run.enter slot (run.site target start)).Evaluated site ↔
        run.Evaluated site := fun site => Run.evaluated_note_of_none
      (e := .entered slot (run.site target start :: run.active) (run.depth + 1)) rfl
    obtain ⟨htarget, hcovered'⟩ := ih hf trivial hsound
      (hcovered.of_memo_eq rfl fun site hsite => (hentered site).2 hsite)
    refine ⟨fun site => ?_, hcovered'⟩
    rw [visits_indirect he ht, ← hentered]
    exact htarget site
  | done =>
    refine ⟨fun site => (or_iff_left ?_).symm, hcovered⟩
    rintro ⟨inner, hinner, -⟩
    exact hinner
  | look h ih => exact ih hf (htask _) hsound hcovered
  | abort h hfatal hnext hkind =>
    exact absurd hf (Step.fatal?_ne_none hfatal hkind)
  | @apply budget self run window c start next step run' step' run'' h hf' hnext ihChild ihNext =>
    obtain ⟨hsettles, hsound'⟩ := h.settles hsound hf'
    obtain ⟨hchild, hcovered'⟩ := ihChild hf' trivial hsound hcovered
    obtain ⟨hrest, hcovered''⟩ := ihNext hf (htask.2.2 _ hf') hsound' hcovered'
    refine ⟨fun site => ?_, hcovered''⟩
    rw [hrest, visits_apply hpure hsettles, ← or_assoc]
    exact or_congr_left (hchild site)
  | @call budget self run β kind start m next step run' f hnext ih =>
    have hanswer := Matcher.answers_call self kind f start m run
    obtain ⟨hrest, hcovered'⟩ := ih hf (htask.2 _) hsound.call
      (hcovered.of_memo_eq (Matcher.memo_call ..) fun _ hsite => Run.evaluated_call.2 hsite)
    refine ⟨fun site => ?_, hcovered'⟩
    rw [hrest, Run.evaluated_call, visits_call htask.1 hanswer,
      (Matcher.call_agrees self kind f start m run).limit]

/-! ## Whole runs -/

section

variable {root : Handle}

/-- A result that is no fatal failure is that of a step that is none. -/
theorem fatal?_eq_none_of_result {step : Step υ}
    (h : ∀ f, Result.ofStep step = .error f → ¬f.isFatal) : Step.fatal? step = none := by
  cases step with
  | ok m => rfl
  | error f => simpa [Step.fatal?_error_eq_none] using h f rfl

/-- A run that does not fail for good evaluates just the places that its root comes to. -/
theorem Exec.evaluated_iff (hpure : g.PureCallbacks) {host : σ}
    (h : g.Exec config input config.maxRecursionDepth (.entry root.index .start)
      (.fresh input host) step run') (hf : Step.fatal? step = none) (site : Site) :
    site ∈ evaluatedSites run'.trace.toList ↔
      g.Visits input ⟨root.index, .start, input.stop⟩ site := by
  have hcovered : (Run.fresh input host : Run υ σ).Covered g input :=
    fun place step hs => nomatch Run.memo_fresh.symm.trans hs
  obtain ⟨hvisits, -⟩ := h.visits hpure hf trivial (fresh_sound g input host) hcovered
  refine (hvisits site).trans (or_iff_right ?_)
  exact fun hsite => nomatch hsite

/-- **The packrat guarantee.** A run that remembers outcomes calls no callback twice at one place.
If it does not fail for good, it evaluates every place once or not at all, what is remembered at any
moment is remembered at the end, and as many places are evaluated as outcomes are remembered. And if
callbacks are pure and the run that works everything out anew does not fail for good, then the run
that remembers evaluates as many places as that one does different ones. -/
theorem run_packrat (config : Config) (hroot : g.Owns root) (input : Input) (host : σ) :
    ∃ report step run', g.run { config with memoize := true } root input host = .ok report
      ∧ g.Exec { config with memoize := true } input config.maxRecursionDepth
        (.entry root.index .start) (.fresh input host) step run'
      ∧ report.result = .ofStep step ∧ report.trace = run'.trace
      ∧ (report.trace.toList.filterMap Event.called?).Nodup
      ∧ ((∀ f, report.result = .error f → ¬f.isFatal) →
        (evaluatedSites report.trace.toList).Nodup
          ∧ (∀ moment, g.Passes { config with memoize := true } input root host moment →
            ∀ (site : Site) s, moment.run.memo[site]? = some s → run'.memo[site]? = some s)
          ∧ report.stats.evaluations = report.stats.cacheEntries)
      ∧ (g.PureCallbacks → ∀ host₀ report₀,
        g.run { config with memoize := false } root input host₀ = .ok report₀ →
        (∀ f, report₀.result = .error f → ¬f.isFatal) →
          report.stats.evaluations = (evaluatedSites report₀.trace.toList).dedup.length
            ∧ report.stats.evaluations ≤ report₀.stats.evaluations) := by
  obtain ⟨report, step, run', hrun, hexec, hresult, htrace, hevaluations, -, hentries⟩ :=
    exec_report { config with memoize := true } hroot input host
  refine ⟨report, step, run', hrun, hexec, hresult, htrace, ?_, fun hcalm => ?_,
    fun hpure host₀ report₀ hrun₀ hcalm₀ => ?_⟩
  · rw [htrace]
    exact hexec.nodup_called hroot rfl
  · rw [hresult] at hcalm
    have hf := fatal?_eq_none_of_result hcalm
    rw [htrace, hevaluations, hentries]
    refine ⟨hexec.nodup_evaluated hroot rfl hf, fun moment hpass => ?_,
      hexec.length_evaluated hroot rfl hf⟩
    exact Reaches.keeps hpass rfl hexec hf (first_pends hroot input host) (.fresh input host)
  · obtain ⟨report', step₀, run₀', hrun', hexec₀, hresult₀, htrace₀, hevaluations₀, -⟩ :=
      exec_report { config with memoize := false } hroot input host₀
    obtain rfl := Except.ok.inj (hrun₀.symm.trans hrun')
    rw [hresult₀] at hcalm₀
    have hf₀ := fatal?_eq_none_of_result hcalm₀
    -- The two runs end alike, as the one that remembers nothing has not met the bound on slots.
    obtain rfl | hlimit := hexec.same_or_recursionLimit hexec₀ hpure rfl rfl rfl rfl trivial
      (fresh_sound g input host) (fresh_sound g input host₀) (fresh_demands g input host _)
    · have hperm : (evaluatedSites run'.trace.toList).Perm
          (evaluatedSites run₀'.trace.toList).dedup := by
        rw [List.perm_ext_iff_of_nodup (hexec.nodup_evaluated hroot rfl hf₀) (List.nodup_dedup _)]
        intro site
        rw [List.mem_dedup, hexec.evaluated_iff hpure hf₀, hexec₀.evaluated_iff hpure hf₀]
      rw [hevaluations, hevaluations₀, htrace₀, hperm.length_eq]
      exact ⟨rfl, (List.dedup_sublist _).length_le⟩
    · cases hf₀.symm.trans hlimit

/-- Two words that begin with the same letter. Its action keeps the value, and counts its calls. -/
def prefixed : Grammar Unit Nat where
  id := 0
  entries := #[.node (.byte 0x61), .node (.action 0 fun v calls => (.ok v, calls + 1)),
    .node (.byte 0x62), .node (.byte 0x63), .node (.sequence [1, 2]), .node (.sequence [1, 3]),
    .node (.choice [4, 5])]
  targets := #[]
  child_lt := by decide
  slot_lt := by
    intro i h slot he
    have hmem := Array.getElem_mem h
    rw [he] at hmem
    simp only [List.mem_toArray, List.mem_cons, reduceCtorEq, List.not_mem_nil, or_false] at hmem
  target_lt := by decide

theorem pureCallbacks_prefixed : prefixed.PureCallbacks := by
  intro i node he
  have hmem := Array.mem_of_getElem? he
  simp only [prefixed, List.mem_toArray, List.mem_cons, Entry.node.injEq, List.not_mem_nil,
    or_false] at hmem
  obtain rfl | rfl | rfl | rfl | rfl | rfl | rfl := hmem
  · trivial
  · exact fun _ _ _ => rfl
  all_goals trivial

/-- For the second word the letter is read again, unless it is remembered. -/
theorem calls_prefixed : ∃ report report₀,
    prefixed.run { memoize := true } ⟨0, 6⟩ ⟨#[0x61, 0x63]⟩ 0 = .ok report
      ∧ prefixed.run { memoize := false } ⟨0, 6⟩ ⟨#[0x61, 0x63]⟩ 0 = .ok report₀
      ∧ report.result.value? = some (.sequence [.word 0x61 8, .word 0x63 8])
      ∧ report₀.result.value? = some (.sequence [.word 0x61 8, .word 0x63 8])
      ∧ report.trace.toList.filterMap Event.called? = [⟨1, .start, .atByte 2⟩]
      ∧ report.host = 1 ∧ report₀.host = 2
      ∧ report.stats.evaluations = 7 ∧ report₀.stats.evaluations = 9 := by
  refine ⟨_, _, if_pos (by decide), if_pos (by decide), ?_⟩
  decide +kernel

/-- The input is the second word. Its letter's action is called once, as a memo is kept. -/
theorem run_packrat_prefixed : prefixed.Owns ⟨0, 6⟩ ∧ prefixed.PureCallbacks ∧
    ∃ report step run' report₀,
      prefixed.run { memoize := true } ⟨0, 6⟩ ⟨#[0x61, 0x63]⟩ 0 = .ok report
      ∧ prefixed.Exec { memoize := true } ⟨#[0x61, 0x63]⟩ ({} : Config).maxRecursionDepth
        (.entry 6 .start) (.fresh ⟨#[0x61, 0x63]⟩ 0) step run'
      ∧ report.result = .ofStep step ∧ report.trace = run'.trace
      ∧ (report.trace.toList.filterMap Event.called?).Nodup
      ∧ (evaluatedSites report.trace.toList).Nodup
      ∧ (∀ moment, prefixed.Passes { memoize := true } ⟨#[0x61, 0x63]⟩ ⟨0, 6⟩ 0 moment →
        ∀ (site : Site) s, moment.run.memo[site]? = some s → run'.memo[site]? = some s)
      ∧ report.stats.evaluations = report.stats.cacheEntries
      ∧ prefixed.run { memoize := false } ⟨0, 6⟩ ⟨#[0x61, 0x63]⟩ 0 = .ok report₀
      ∧ report.stats.evaluations = (evaluatedSites report₀.trace.toList).dedup.length
      ∧ report.stats.evaluations ≤ report₀.stats.evaluations
      ∧ report.trace.toList.filterMap Event.called? = [⟨1, .start, .atByte 2⟩]
      ∧ report.host = 1 ∧ report₀.host = 2
      ∧ report.stats.evaluations = 7 ∧ report₀.stats.evaluations = 9 := by
  have hroot : prefixed.Owns ⟨0, 6⟩ := by decide
  obtain ⟨report, step, run', hrun, hexec, hresult, htrace, hcalled, hordinary, hplain⟩ :=
    run_packrat {} hroot ⟨#[0x61, 0x63]⟩ 0
  obtain ⟨report', report₀, hrun', hrun₀, hvalue, hvalue₀, hcounts⟩ := calls_prefixed
  obtain rfl := Except.ok.inj (hrun.symm.trans hrun')
  have hcalm : ∀ {result : Result Unit} {v}, result.value? = some v →
      ∀ f, result = .error f → ¬f.isFatal := by
    rintro _ v hv f rfl
    cases hv
  obtain ⟨hnodup, hkept, hentries⟩ := hordinary (hcalm hvalue)
  obtain ⟨hdistinct, hle⟩ := hplain pureCallbacks_prefixed 0 report₀ hrun₀ (hcalm hvalue₀)
  exact ⟨hroot, pureCallbacks_prefixed, report, step, run', report₀, hrun, hexec, hresult,
    htrace, hcalled, hnodup, hkept, hentries, hrun₀, hdistinct, hle, hcounts⟩

end

end Grammar

end Packrat
