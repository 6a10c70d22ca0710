import Mathlib.Data.Finset.Prod
import Mathlib.Data.List.Dedup
import Mathlib.Data.Fintype.Card
import Packrat.Proofs.Engine.Fatal
import Packrat.Proofs.Engine.Moments
import Packrat.Proofs.Engine.Stats
import Packrat.Proofs.Semantics.Soundness

/-!
# Proofs/Engine/Depth — recursion is bounded by the input

The targets that a run follows lie inside one another: a slot that is entered later stands no
further back and sees no wider window. So two of them with the same room between cursor and window
end stand at the same place, and they are different targets, for a target that is entered again
where it stands is left recursion. An input of `n` bytes has `8 * n + 1` amounts of room, hence no
more than that many slots for each target are ever inside one another (`length_le_of_inside`).

Main statement: `run_depth`. With that much recursion allowed, no run ends at the bound on slots.
-/

namespace Packrat

variable {υ σ : Type} {input : Input}

/-! ## Places inside one another -/

namespace Site

/-- One place lies inside another: no further back, and in no wider window. -/
structure Inside (inner outer : Site) : Prop where
  start : outer.start.Spans inner.start
  limit : inner.limit.Spans outer.limit

/-- How many bits the place sees. -/
def room (site : Site) : Nat := site.limit.bitPosition - site.start.bitPosition

theorem room_le {site : Site} (h : site.Fits input) : site.room ≤ 8 * input.bytes.size := by
  have hstop : site.limit.bitPosition ≤ 8 * input.bytes.size := h.inside.bitPosition_le
  rw [room]
  omega

/-- A place inside another one that sees as much is that one, if the nodes are the same. -/
theorem Inside.eq_of_room {inner outer : Site} (h : inner.Inside outer) (hfits : inner.Fits input)
    (hnode : inner.node = outer.node) (hroom : inner.room = outer.room) : inner = outer := by
  have hstart := h.start.bitPosition_le
  have hlimit := h.limit.bitPosition_le
  have hwindow := hfits.window.bitPosition_le
  rw [room, room] at hroom
  have hstart' : inner.start = outer.start := by
    rw [← Cursor.ofBitPosition_bitPosition h.start.right,
      ← Cursor.ofBitPosition_bitPosition h.start.left]
    congr 1
    omega
  have hlimit' : inner.limit = outer.limit := by
    rw [← Cursor.ofBitPosition_bitPosition h.limit.left,
      ← Cursor.ofBitPosition_bitPosition h.limit.right]
    congr 1
    omega
  exact Site.ext hnode hstart' hlimit'

/-- **Different places inside one another are no more than there are nodes and amounts of room.** -/
theorem length_le_of_inside {sites : List Site} {nodes : List Nat} (hnodup : sites.Nodup)
    (hinside : sites.Pairwise Inside) (hfits : ∀ site ∈ sites, site.Fits input)
    (hnodes : ∀ site ∈ sites, site.node ∈ nodes) :
    sites.length ≤ nodes.toFinset.card * (8 * input.bytes.size + 1) := by
  have hdistinct : (sites.map fun site => (site.node, site.room)).Nodup := by
    rw [List.Nodup, List.pairwise_map]
    refine (hnodup.and hinside).imp_of_mem ?_
    rintro inner outer hinner - ⟨hne, h⟩ heq
    obtain ⟨hnode, hroom⟩ := Prod.mk.inj heq
    exact hne (h.eq_of_room (hfits inner hinner) hnode hroom)
  have hsubset : (sites.map fun site => (site.node, site.room)).toFinset
      ⊆ nodes.toFinset ×ˢ Finset.range (8 * input.bytes.size + 1) := by
    intro pair hpair
    obtain ⟨site, hsite, rfl⟩ := List.mem_map.1 (List.mem_toFinset.1 hpair)
    have hroom := room_le (hfits site hsite)
    exact Finset.mem_product.2 ⟨List.mem_toFinset.2 (hnodes site hsite),
      Finset.mem_range.2 (Nat.lt_succ_of_le hroom)⟩
  calc sites.length
      = (sites.map fun site => (site.node, site.room)).toFinset.card := by
        rw [List.toFinset_card_of_nodup hdistinct, List.length_map]
    _ ≤ (nodes.toFinset ×ˢ Finset.range (8 * input.bytes.size + 1)).card :=
        Finset.card_le_card hsubset
    _ = nodes.toFinset.card * (8 * input.bytes.size + 1) := by
        rw [Finset.card_product, Finset.card_range]

end Site

/-! ## The targets being followed -/

/-- The targets being followed lie inside one another, innermost first, around a place that starts
at `start`; they are different, and there are `depth` of them. -/
structure Run.Nested (g : Grammar υ σ) (start : Cursor) (run : Run υ σ) : Prop where
  targets : ∀ site ∈ run.active, site.node ∈ g.targets.toList
  around : ∀ site ∈ run.active, site.start.Spans start ∧ run.limit.Spans site.limit
  inside : run.active.Pairwise Site.Inside
  nodup : run.active.Nodup
  length : run.active.length = run.depth

namespace Run.Nested

variable {g : Grammar υ σ} {run run' : Run υ σ} {start start' : Cursor}

theorem narrow (h : run.Nested g start) (hactive : run'.active = run.active)
    (hdepth : run'.depth = run.depth) (hstart : start.Spans start')
    (hlimit : run'.limit.Spans run.limit) : run'.Nested g start' := by
  refine ⟨hactive ▸ h.targets, fun site hsite => ?_, hactive ▸ h.inside, hactive ▸ h.nodup, ?_⟩
  · obtain ⟨hbefore, hbehind⟩ := h.around site (hactive ▸ hsite)
    exact ⟨hbefore.trans hstart, hlimit.trans hbehind⟩
  · rw [hactive, hdepth, h.length]

/-- A target that is not being followed there is followed next. -/
theorem enter (h : run.Nested g start) (hstart : start.Spans run.limit) {slot : Slot} {target : Nat}
    (ht : g.targets[slot.index]? = some target) (ha : run.site target start ∉ run.active) :
    (run.enter slot (run.site target start)).Nested g start := by
  refine ⟨?_, ?_, ?_, List.nodup_cons.2 ⟨ha, h.nodup⟩, ?_⟩
  · rw [Run.active_enter, List.forall_mem_cons]
    exact ⟨Array.mem_toList_iff.2 (Array.mem_of_getElem? ht), h.targets⟩
  · rw [Run.active_enter, List.forall_mem_cons]
    exact ⟨⟨hstart.self, .refl hstart.right⟩, h.around⟩
  · rw [Run.active_enter, List.pairwise_cons]
    exact ⟨fun site hsite => ⟨(h.around site hsite).1, (h.around site hsite).2⟩, h.inside⟩
  · rw [Run.active_enter, Run.depth_enter, List.length_cons, h.length]

/-- No more slots are inside one another than the input has room for. -/
theorem depth_le (h : run.Nested g start) (hfits : ∀ site ∈ run.active, site.Fits input) :
    run.depth ≤ g.targets.toList.toFinset.card * (8 * input.bytes.size + 1) := by
  rw [← h.length]
  exact Site.length_le_of_inside h.nodup h.inside hfits h.targets

/-- Where a target is not being followed yet, there is room for one more slot. -/
theorem depth_lt (h : run.Nested g start) (hrun : run.InBounds input)
    (hstart : start.Spans run.limit) {slot : Slot} {target : Nat}
    (ht : g.targets[slot.index]? = some target) (ha : run.site target start ∉ run.active) :
    run.depth < g.targets.toList.toFinset.card * (8 * input.bytes.size + 1) :=
  (h.enter hstart ht ha).depth_le (hrun.enter (hrun.site hstart target) slot).active

end Run.Nested

/-! ## Moments and their depth -/

/-- The moment is in bounds, the targets it follows are nested, and slots are counted rightly. -/
structure Moment.Nested (g : Grammar υ σ) (bound : Nat) (input : Input) (start : Cursor)
    (moment : Moment υ σ) : Prop where
  bounds : moment.InBounds input start
  nested : moment.run.Nested g start
  budget : moment.budget + moment.run.depth = bound

namespace Grammar

variable {g : Grammar υ σ} {config : Config} {root : Handle} {host : σ} {a b moment : Moment υ σ}
  {start : Cursor} {bound : Nat}

theorem Leads.nested (h : g.Leads config input a b) (ha : a.Nested g bound input start) :
    ∃ start', b.Nested g bound input start' := by
  obtain ⟨hbounds, hnested, hbudget⟩ := ha
  obtain ⟨start', hbounds', hstart, hlimit⟩ := h.inBounds hbounds
  suffices h : b.run.Nested g start' ∧ b.budget + b.run.depth = bound from
    ⟨start', hbounds', h.1, h.2⟩
  cases h with
  | evaluated => exact ⟨hnested.narrow rfl rfl hstart hlimit, hbudget⟩
  | @entered budget i cursor run slot target he ht hactive =>
    obtain ⟨rfl, hcursor⟩ := hbounds.task
    obtain ⟨rfl, -⟩ := hbounds'.task
    refine ⟨hnested.enter hcursor ht hactive, ?_⟩
    rw [← hbudget]
    simp only [Run.depth_enter]
    omega
  | look => exact ⟨hnested.narrow rfl rfl hstart hlimit, hbudget⟩
  | child => exact ⟨hnested.narrow rfl rfl hstart hlimit, hbudget⟩
  | rest hexec hf =>
    have hagrees := hexec.agrees
    refine ⟨hnested.narrow hagrees.active hagrees.depth hstart hlimit, ?_⟩
    rw [← hbudget]
    exact congrArg _ hagrees.depth
  | @called budget self run β kind cursor m next f =>
    have hagrees := Matcher.call_agrees self kind f cursor m run
    refine ⟨hnested.narrow hagrees.active hagrees.depth hstart hlimit, ?_⟩
    rw [← hbudget]
    exact congrArg _ hagrees.depth

/-- **At every moment of a run the targets being followed are nested.** -/
theorem Passes.nested (h : g.Passes config input root host moment) :
    ∃ start, moment.Nested g config.maxRecursionDepth input start := by
  refine h.invariant
    (P := fun m => ∃ start, m.Nested g config.maxRecursionDepth input start) ?_ ?_
  · refine ⟨.start, first_inBounds config input root host, ⟨?_, ?_, .nil, .nil, rfl⟩, rfl⟩
    · exact fun site hsite => (List.not_mem_nil hsite).elim
    · exact fun site hsite => (List.not_mem_nil hsite).elim
  · rintro a b ⟨start, ha⟩ hab
    exact hab.nested ha

/-- A slot is entered within both bounds on depth. -/
theorem Tells.depth_le {slot : Slot} {active : List Site} {depth : Nat}
    (h : g.Tells config input moment (.entered slot active depth))
    (hmoment : moment.Nested g bound input start) :
    depth ≤ min bound (g.targets.toList.toFinset.card * (8 * input.bytes.size + 1)) := by
  obtain ⟨hbounds, hnested, hbudget⟩ := hmoment
  cases h with
  | @entered budget i cursor run slot target he ht ha =>
    obtain ⟨rfl, hstart⟩ := hbounds.task
    have hroom := hnested.depth_lt hbounds.run hstart ht ha
    refine Nat.le_min.2 ⟨?_, hroom⟩
    change budget + 1 + run.depth = bound at hbudget
    omega

/-- Where no slot may be entered any more, the input has room for more slots than are allowed. -/
theorem Tells.bound_lt {limit : Nat} {site : Site}
    (h : g.Tells config input moment (.depthExceeded limit site))
    (hmoment : moment.Nested g bound input start) :
    bound < g.targets.toList.toFinset.card * (8 * input.bytes.size + 1) := by
  obtain ⟨hbounds, hnested, hbudget⟩ := hmoment
  cases h with
  | @depthExceeded i cursor run slot target he ht ha =>
    obtain ⟨rfl, hstart⟩ := hbounds.task
    have hdepth : 0 + run.depth = bound := hbudget
    rw [← hdepth, Nat.zero_add]
    exact hnested.depth_lt hbounds.run hstart ht ha

/-- Whatever fails at the bound on slots has met it. -/
theorem Exec.exists_depthExceeded {budget limit : Nat} {task : Task υ σ} {run run' : Run υ σ}
    {step : Step υ} (h : g.Exec config input budget task run step run') (hrun : run.Calm)
    (hstep : Step.fatal? step = some (.recursionLimit limit)) :
    ∃ site, .depthExceeded limit site ∈ run'.trace.toList := by
  induction h with
  | recalled hm he hs => exact nomatch (hrun.memo _ _ hs).symm.trans hstep
  | stored hm he hs h ih =>
    obtain ⟨site, hsite⟩ := ih (hrun.note rfl) hstep
    exact ⟨site, (Run.mem_trace_note ..).2 (.inl hsite)⟩
  | fresh hm he h ih =>
    obtain ⟨site, hsite⟩ := ih (hrun.note rfl) hstep
    exact ⟨site, (Run.mem_trace_note ..).2 (.inl hsite)⟩
  | reentered => cases hstep
  | tooDeep =>
    cases hstep
    exact ⟨_, (Run.mem_trace_note ..).2 (.inr rfl)⟩
  | @entered budget i start run slot target step run' he ht ha h ih =>
    have hnote := hrun.note
      (e := .entered slot (run.site target start :: run.active) (run.depth + 1)) rfl
    exact ih ⟨hnote.trace, hnote.memo⟩ hstep
  | done hf => exact nomatch hf.symm.trans hstep
  | look h ih => exact ih hrun hstep
  | abort h hf hnext hkind ih =>
    exact ih ⟨hrun.trace, hrun.memo⟩ ((Step.fatal?_error_congr hkind).symm.trans hstep)
  | apply h hf hnext ihChild ihNext =>
    have hcalm := (h.calm_or_unwinds ⟨hrun.trace, hrun.memo⟩).calm hf
    exact ihNext ⟨hcalm.trace, hcalm.memo⟩ hstep
  | call hnext ih => exact ih hrun.call hstep

/-- With room for all slots that the input needs, no run ends at the bound on slots. -/
theorem Exec.not_recursionLimit {run' : Run υ σ} {step : Step υ}
    (h : g.Exec config input config.maxRecursionDepth (.entry root.index .start)
      (.fresh input host) step run')
    (hroom : g.targets.toList.toFinset.card * (8 * input.bytes.size + 1)
      ≤ config.maxRecursionDepth) (limit : Nat) :
    Step.fatal? step ≠ some (.recursionLimit limit) := by
  intro hstep
  obtain ⟨site, hsite⟩ := h.exists_depthExceeded (.fresh input host) hstep
  obtain hnone | ⟨moment, hpass, htells⟩ := h.told hsite
  · cases hnone
  · have hpass : g.Passes config input root host moment := hpass
    obtain ⟨start, hmoment⟩ := hpass.nested
    exact absurd (htells.bound_lt hmoment) (Nat.not_lt.2 hroom)

/-- **Recursion is bounded by the input.** At every moment of a run, and after whatever is carried
out there, the targets being followed are different places, and there are `depth` of them. No more
slots are ever inside one another than the configuration allows, nor than there are targets times
bit positions. With room for those, no run ends at the bound on slots: what fails for good is left
recursion, and a root that has no outcome is left recursive. -/
theorem run_depth (config : Config) {root : Handle} (hroot : g.Owns root) (input : Input)
    (host : σ) :
    ∃ report, g.run config root input host = .ok report
      ∧ (∀ moment, g.Passes config input root host moment →
        (moment.run.active.Nodup ∧ moment.run.active.length = moment.run.depth)
          ∧ ∀ step run', g.Exec config input moment.budget moment.task moment.run step run' →
            run'.active.Nodup ∧ run'.active.length = run'.depth)
      ∧ report.stats.maxDepth ≤ min config.maxRecursionDepth
        (g.targets.toList.toFinset.card * (8 * input.bytes.size + 1))
      ∧ (g.targets.toList.toFinset.card * (8 * input.bytes.size + 1) ≤ config.maxRecursionDepth →
        (∀ f, report.result = .error f → f.isFatal → ∃ slot, f.kind = .leftRecursion slot)
          ∧ (g.PureCallbacks → (∀ step, ¬g.Settles input root.index .start input.stop step) →
            ∃ f slot, report.result = .error f ∧ f.kind = .leftRecursion slot)) := by
  obtain ⟨report, step, run', hrun, hexec, hresult, htrace, -, hdepth, -⟩ :=
    exec_report config hroot input host
  refine ⟨report, hrun, fun moment hpass => ?_, ?_, fun hroom => ?_⟩
  · obtain ⟨start, -, hnested, -⟩ := hpass.nested
    refine ⟨⟨hnested.nodup, hnested.length⟩, fun step run' h => ?_⟩
    rw [h.agrees.active, h.agrees.depth]
    exact ⟨hnested.nodup, hnested.length⟩
  · rw [hdepth]
    refine Stats.maxDepth_ofEvents_le fun slot active depth he => ?_
    obtain hnone | ⟨moment, hpass, htells⟩ := hexec.told he
    · cases hnone
    · have hpass : g.Passes config input root host moment := hpass
      obtain ⟨start, hmoment⟩ := hpass.nested
      exact htells.depth_le hmoment
  · have hleft : ∀ kind, Step.fatal? step = some kind →
        ∃ f slot, report.result = .error f ∧ f.kind = kind ∧ kind = .leftRecursion slot := by
      intro kind hkind
      obtain ⟨f, rfl, hf, rfl⟩ := Step.fatal?_eq_some.1 hkind
      obtain ⟨slot, hslot⟩ : ∃ slot, f.kind = .leftRecursion slot := by
        cases hk : f.kind with
        | leftRecursion slot => exact ⟨slot, rfl⟩
        | recursionLimit limit => exact absurd (hk ▸ hkind) (hexec.not_recursionLimit hroom limit)
        | _ => rw [Fail.isFatal, hk] at hf; cases hf
      exact ⟨f, slot, hresult, rfl, hslot⟩
    refine ⟨fun f hf hfatal => ?_, fun hpure hnone => ?_⟩
    · have hkind : Step.fatal? step = some f.kind := by
        cases step with
        | ok m => cases hresult.symm.trans hf
        | error f' =>
          obtain rfl := Except.error.inj (hresult.symm.trans hf)
          exact if_pos hfatal
      obtain ⟨-, slot, -, -, hslot⟩ := hleft _ hkind
      exact ⟨slot, hslot⟩
    · obtain ⟨hjudged, -⟩ := hexec.judged hpure trivial (fresh_sound g input host)
        (fresh_demands g input host _)
      cases hkind : Step.fatal? step with
      | none => exact absurd (hjudged.settled hkind) (hnone step)
      | some kind =>
        obtain ⟨f, slot, hf, rfl, hslot⟩ := hleft kind hkind
        exact ⟨f, slot, hf, hslot⟩

/-- Two slots would do for one pair of parentheses; the bound on slots is more than enough. -/
theorem run_depth_parens : parens.Owns ⟨0, 5⟩ ∧
    ∃ report, parens.run {} ⟨0, 5⟩ ⟨#[0x28, 0x29]⟩ () = .ok report
      ∧ (∀ moment, parens.Passes {} ⟨#[0x28, 0x29]⟩ ⟨0, 5⟩ () moment →
        (moment.run.active.Nodup ∧ moment.run.active.length = moment.run.depth)
          ∧ ∀ step run', parens.Exec {} ⟨#[0x28, 0x29]⟩ moment.budget moment.task moment.run step
              run' → run'.active.Nodup ∧ run'.active.length = run'.depth)
      ∧ report.stats.maxDepth ≤ min ({} : Config).maxRecursionDepth
        (parens.targets.toList.toFinset.card * (8 * 2 + 1))
      ∧ (parens.targets.toList.toFinset.card * (8 * 2 + 1) ≤ ({} : Config).maxRecursionDepth →
        (∀ f, report.result = .error f → f.isFatal → ∃ slot, f.kind = .leftRecursion slot)
          ∧ (parens.PureCallbacks →
            (∀ step, ¬parens.Settles ⟨#[0x28, 0x29]⟩ 5 .start (.atByte 2) step) →
            ∃ f slot, report.result = .error f ∧ f.kind = .leftRecursion slot)) :=
  ⟨by decide, run_depth {} (by decide) ⟨#[0x28, 0x29]⟩ ()⟩

end Grammar

end Packrat
