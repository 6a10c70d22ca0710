import Mathlib.Data.List.Basic
import Packrat.Proofs.Plan.Shifted
import Packrat.Proofs.Semantics.Soundness

/-!
# Proofs/Engine/Shift — a run, so many bytes further on

A run on an input without its first `k` bytes and a run on the whole input that starts `k` bytes
further on do the same, event by event, with all cursors shifted (`Run.Shifted`): what is
remembered, which targets are being followed, what is counted. Only the callbacks' own state may
differ, and pure callbacks do not look at it.

Main statement: `Exec.shift`, and from it `matcher_shift` for entries matched in a fresh state.
-/

namespace Packrat

variable {υ σ : Type} {k : Nat}

/-! ## States -/

/-- The site so many bytes further on. -/
def Site.shift (k : Nat) (site : Site) : Site :=
  ⟨site.node, site.start.shift k, site.limit.shift k⟩

theorem Site.shift_inj {a b : Site} : a.shift k = b.shift k ↔ a = b := by
  simp only [Site.ext_iff, shift, Cursor.shift_inj]

/-- The event so many bytes further on. -/
def Event.shift (k : Nat) : Event υ → Event υ
  | evaluated site => evaluated (site.shift k)
  | settled site step => settled (site.shift k) (step.shift k)
  | recalled site step => recalled (site.shift k) (step.shift k)
  | entered slot active depth => entered slot (active.map (Site.shift k)) depth
  | leftRecursion slot site => leftRecursion slot (site.shift k)
  | depthExceeded bound site => depthExceeded bound (site.shift k)
  | called site => called (site.shift k)
  | rejected kind start message => rejected kind (start.shift k) message

theorem Stats.count_shift (stats : Stats) (e : Event υ) :
    stats.count (e.shift k) = stats.count e := by
  cases e <;> rfl

/-- The second state is the first one, `k` bytes further on; the callbacks' own may differ. -/
structure Run.Shifted (k : Nat) (run run' : Run υ σ) : Prop where
  limit : run'.limit = run.limit.shift k
  active : run'.active = run.active.map (Site.shift k)
  depth : run'.depth = run.depth
  memo : ∀ site : Site, run'.memo[site.shift k]? = run.memo[site]?.map (Step.shift k)
  stats : run'.stats = run.stats
  trace : run'.trace = run.trace.map (Event.shift k)

namespace Run.Shifted

variable {run run' : Run υ σ}

/-- Fresh states. -/
theorem fresh (k : Nat) (limit : Cursor) (host host' : σ) :
    ({ limit, host } : Run υ σ).Shifted k { limit := limit.shift k, host := host' } :=
  ⟨rfl, rfl, rfl, fun _ => by simp, rfl, by simp⟩

variable (h : run.Shifted k run')

include h

theorem site_eq (i : Nat) (start : Cursor) :
    run'.site i (start.shift k) = (run.site i start).shift k := by
  rw [Run.site, h.limit]
  rfl

theorem note (e : Event υ) : (run.note e).Shifted k (run'.note (e.shift k)) where
  limit := h.limit
  active := h.active
  depth := h.depth
  memo := h.memo
  stats := by rw [Run.note, Run.note, Stats.count_shift, h.stats]
  trace := by rw [Run.trace_note, Run.trace_note, h.trace, Array.map_push]

theorem withLimit (limit : Cursor) :
    (run.withLimit limit).Shifted k (run'.withLimit (limit.shift k)) :=
  ⟨rfl, h.active, h.depth, h.memo, h.stats, h.trace⟩

theorem remember (site : Site) (step : Step υ) :
    (run.remember site step).Shifted k (run'.remember (site.shift k) (step.shift k)) where
  limit := h.limit
  active := h.active
  depth := h.depth
  memo other := by
    rw [Run.memo_remember, Run.memo_remember, Std.TreeMap.getElem?_insert,
      Std.TreeMap.getElem?_insert, apply_ite (Option.map (Step.shift k)), ← h.memo]
    refine ite_congr ?_ (fun _ => rfl) fun _ => rfl
    rw [Std.LawfulEqOrd.compare_eq_iff_eq, Std.LawfulEqOrd.compare_eq_iff_eq, Site.shift_inj]
  stats := h.stats
  trace := h.trace

theorem enter (slot : Slot) (site : Site) :
    (run.enter slot site).Shifted k (run'.enter slot (site.shift k)) where
  limit := h.limit
  active := by rw [Run.active_enter, Run.active_enter, h.active, List.map_cons]
  depth := by rw [Run.depth_enter, Run.depth_enter, h.depth]
  memo := h.memo
  stats := by
    simp only [Run.enter, Run.note, Stats.count, h.stats, h.depth]
  trace := by
    rw [Run.trace_enter, Run.trace_enter, h.trace, Array.map_push, h.depth, h.active]
    rfl

theorem leave (site : Site) : (run.leave site).Shifted k (run'.leave (site.shift k)) where
  limit := h.limit
  active := by
    rw [Run.active_leave, Run.active_leave, h.active]
    exact (List.map_erase (fun _ _ => Site.shift_inj.1) _).symm
  depth := by rw [Run.depth_leave, Run.depth_leave, h.depth]
  memo := h.memo
  stats := h.stats
  trace := h.trace

theorem mem_active {site : Site} : site.shift k ∈ run'.active ↔ site ∈ run.active := by
  rw [h.active]
  exact List.mem_map_of_injective fun _ _ => Site.shift_inj.1

/-- A pure callback gives the same answer. -/
theorem call {β : Type} {f : Callback υ σ β} (hf : f.IsPure) (self : Nat) (kind : CallbackKind)
    (start : Cursor) (m : Match υ) :
    ∃ after, Matcher.call self kind f (start.shift k) (m.shift k) run'
        = ((Matcher.call self kind f start m run).1, after)
      ∧ (Matcher.call self kind f start m run).2.Shifted k after := by
  have hanswer : (f m.shown run'.host).1 = (f m.shown run.host).1 := hf _ _ _
  have hcalled := h.note (.called (run.site self start))
  rw [Event.shift, ← h.site_eq] at hcalled
  rw [Matcher.call_eq, Matcher.call_eq, show (m.shift k).shown = m.shown from rfl, hanswer]
  cases (f m.shown run.host).1 with
  | ok _ => exact ⟨_, rfl, hcalled.limit, hcalled.active, hcalled.depth, hcalled.memo,
      hcalled.stats, hcalled.trace⟩
  | error e =>
    have hrejected := hcalled.note (.rejected kind start e.message)
    exact ⟨_, rfl, hrejected.limit, hrejected.active, hrejected.depth, hrejected.memo,
      hrejected.stats, hrejected.trace⟩

end Run.Shifted

/-! ## Runs -/

/-- The second task is the first one, `k` bytes further on. -/
def Task.Shifted (k : Nat) (limit : Cursor) : Task υ σ → Task υ σ → Prop
  | entry i start, task' => task' = .entry i (start.shift k)
  | plan self p, task' => ∃ p', task' = .plan self p' ∧ p.Shifted k limit p'

namespace Grammar

variable {g : Grammar υ σ} {config : Config} {input : Input} {budget : Nat}
  {task task' : Task υ σ} {run run' twin : Run υ σ} {step : Step υ}

/-- A window in a window whose end is known to be a place. -/
theorem window_lt {window : Option Cursor} {limit : Cursor} (h : ∀ stop ∈ window, stop ≤ limit)
    (hlimit : limit.byte + k < wordBound) : (window.getD limit).byte + k < wordBound := by
  cases window with
  | none => exact hlimit
  | some stop =>
    have hle := Cursor.le_def.1 (h stop rfl)
    rw [Option.getD_some]
    omega

theorem shift_getD (window : Option Cursor) (limit : Cursor) :
    (window.getD limit).shift k = (window.map (Cursor.shift k)).getD (limit.shift k) := by
  cases window <;> rfl

/-- **So many bytes further on, the same is done.** -/
theorem Exec.shift (hpure : g.PureCallbacks) (hk : k ≤ input.bytes.size)
    (hsize : 8 * input.bytes.size < wordBound)
    (h : g.Exec config (input.drop k) budget task run step run')
    (hlimit : run.limit.byte + k < wordBound) (htask : task.Shifted k run.limit task')
    (hp : task.Pure) (hrun : run.Shifted k twin) :
    ∃ twin', g.Exec config input budget task' twin (step.shift k) twin' ∧ run'.Shifted k twin' := by
  induction h generalizing task' twin with
  | @recalled budget i start run n step hm he hs =>
    obtain rfl := htask
    have hs' : twin.memo[twin.site i (start.shift k)]? = some (step.shift k) := by
      rw [hrun.site_eq, hrun.memo, hs, Option.map_some]
    have hnote := hrun.note (.recalled (run.site i start) step)
    rw [Event.shift, ← hrun.site_eq] at hnote
    exact ⟨_, .recalled hm he hs', hnote⟩
  | @stored budget i start run n step run' hm he hs h ih =>
    obtain rfl := htask
    have hs' : twin.memo[twin.site i (start.shift k)]? = none := by
      rw [hrun.site_eq, hrun.memo, hs, Option.map_none]
    have hnote := hrun.note (.evaluated (run.site i start))
    rw [Event.shift, ← hrun.site_eq] at hnote
    obtain ⟨twin', h', hrun'⟩ := ih hlimit ⟨_, rfl, n.shifts_rule hk hsize hlimit start⟩
      (n.strict_rule _ (fun _ _ => trivial) (hpure i n he) start) hnote
    have hdone := (hrun'.note (.settled (run.site i start) step)).remember (run.site i start) step
    rw [Event.shift, ← hrun.site_eq] at hdone
    exact ⟨_, .stored hm he hs' h', hdone⟩
  | @fresh budget i start run n step run' hm he h ih =>
    obtain rfl := htask
    have hnote := hrun.note (.evaluated (run.site i start))
    rw [Event.shift, ← hrun.site_eq] at hnote
    obtain ⟨twin', h', hrun'⟩ := ih hlimit ⟨_, rfl, n.shifts_rule hk hsize hlimit start⟩
      (n.strict_rule _ (fun _ _ => trivial) (hpure i n he) start) hnote
    have hdone := hrun'.note (.settled (run.site i start) step)
    rw [Event.shift, ← hrun.site_eq] at hdone
    exact ⟨_, .fresh hm he h', hdone⟩
  | @reentered budget i start run slot target he ht ha =>
    obtain rfl := htask
    have hnote := hrun.note (.leftRecursion slot (run.site target start))
    rw [Event.shift, ← hrun.site_eq] at hnote
    rw [← hrun.mem_active, ← hrun.site_eq] at ha
    exact ⟨_, .reentered he ht ha, hnote⟩
  | @tooDeep i start run slot target he ht ha =>
    obtain rfl := htask
    have hnote := hrun.note (.depthExceeded config.maxRecursionDepth (run.site target start))
    rw [Event.shift, ← hrun.site_eq] at hnote
    rw [← hrun.mem_active, ← hrun.site_eq] at ha
    exact ⟨_, .tooDeep he ht ha, hnote⟩
  | @entered budget i start run slot target step run' he ht ha h ih =>
    obtain rfl := htask
    have henter := hrun.enter slot (run.site target start)
    rw [← hrun.mem_active] at ha
    obtain ⟨twin', h', hrun'⟩ := ih hlimit rfl trivial henter
    have hleave := hrun'.leave (run.site target start)
    rw [← hrun.site_eq] at ha h' hleave
    exact ⟨_, .entered he ht ha h', hleave⟩
  | done hf =>
    obtain ⟨p', rfl, hp'⟩ := htask
    cases hp'
    exact ⟨twin, .done (Step.fatal?_shift.trans hf), hrun⟩
  | look h ih =>
    obtain ⟨p', rfl, hp'⟩ := htask
    cases hp' with
    | look hnext =>
      rw [← hrun.limit] at hnext
      obtain ⟨twin', h', hrun'⟩ := ih hlimit ⟨_, rfl, hnext⟩ (hp _) hrun
      exact ⟨twin', .look h', hrun'⟩
  | @abort budget self run window c start next f f' run' h hf hnext hkind ih =>
    obtain ⟨p', rfl, hp'⟩ := htask
    cases hp' with
    | @apply _ _ _ _ next' hwindow hrest =>
      obtain ⟨twin', h', hrun'⟩ := ih (window_lt hwindow hlimit) rfl trivial (hrun.withLimit _)
      rw [shift_getD, ← hrun.limit] at h'
      have hnext' : next' (.error (f.shift k)) = .done (.error (f'.shift k)) := by
        have hshifted := hrest (.error f)
        rw [hnext] at hshifted
        exact hshifted.eq_done
      have hback := hrun'.withLimit run.limit
      rw [← hrun.limit] at hback
      exact ⟨_, .abort h' hf hnext' hkind, hback⟩
  | @apply budget self run window c start next step run' step' run'' h hf hnext ihChild ihNext =>
    obtain ⟨p', rfl, hp'⟩ := htask
    cases hp' with
    | apply hwindow hrest =>
      obtain ⟨twin', h', hrun'⟩ := ihChild (window_lt hwindow hlimit) rfl trivial
        (hrun.withLimit _)
      rw [shift_getD, ← hrun.limit] at h'
      have hback := hrun'.withLimit run.limit
      rw [← hrun.limit] at hback
      obtain ⟨twin'', hnext', hrun''⟩ := ihNext hlimit ⟨_, rfl, hrest step⟩ (hp.2.2 _ hf) hback
      exact ⟨twin'', .apply h' (Step.fatal?_shift.trans hf) hnext', hrun''⟩
  | @call budget self run β kind start m next step run' f hnext ih =>
    obtain ⟨p', rfl, hp'⟩ := htask
    cases hp' with
    | call hrest =>
      have hsame := (Matcher.call_agrees self kind f start m run).limit
      obtain ⟨after, hcall, hafter⟩ := hrun.call hp.1 self kind start m
      obtain ⟨twin', hnext', hrun'⟩ := ih (hsame ▸ hlimit) ⟨_, rfl, hsame ▸ hrest _⟩ (hp.2 _) hafter
      refine ⟨twin', .call ?_, hrun'⟩
      rw [hcall]
      exact hnext'

/-- **An entry that is matched so many bytes further on ends in the shifted step.** -/
theorem matcher_shift (hpure : g.PureCallbacks) (hk : k ≤ input.bytes.size)
    (hsize : 8 * input.bytes.size < wordBound) (config : Config) (budget : Nat) {i : Nat}
    (hi : i < g.entries.size) (hlimit : run.limit.byte + k < wordBound)
    (hrun : run.Shifted k twin) (start : Cursor) :
    ∃ after, (g.matcher config input budget i (start.shift k)).run twin
        = (((g.matcher config (input.drop k) budget i start).run run).1.shift k, after)
      ∧ ((g.matcher config (input.drop k) budget i start).run run).2.Shifted k after := by
  have hfirst : g.Exec config (input.drop k) budget (.entry i start) run _ _ :=
    exec_matcher budget hi start run
  obtain ⟨after, hexec, hafter⟩ := hfirst.shift hpure hk hsize hlimit rfl trivial hrun
  obtain ⟨hstep, rfl⟩ := hexec.unique (exec_matcher budget hi (start.shift k) twin)
  exact ⟨_, Prod.ext hstep rfl, hafter⟩

end Grammar

end Packrat
