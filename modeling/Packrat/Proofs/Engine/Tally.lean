import Packrat.Proofs.Engine.Reentry
import Packrat.Proofs.Engine.Stats

/-!
# Proofs/Engine/Tally — how often things happen at a place

A node that starts to be matched afresh is *finished* when it is settled without a fatal failure.
Unless the run ends fatally every evaluation is finished (`Exec.tally_evaluated`). And every call of
a callback, in whatever run, belongs to an evaluation that is finished (`Exec.tally_called`), as the
call is the last thing that its node does.
-/

namespace Packrat

variable {υ σ : Type}

namespace Event

/-- The place of a node whose callback is called. -/
def called? : Event υ → Option Site
  | called site => some site
  | _ => none

/-- The place of a node that is done, and has not failed for good. -/
def finished? : Event υ → Option Site
  | settled site step => if Step.fatal? step = none then some site else none
  | _ => none

end Event

namespace Run

/-- How many events of the trace are about the place. -/
def tally (about : Event υ → Option Site) (run : Run υ σ) (site : Site) : Nat :=
  (run.trace.toList.filterMap about).count site

section

variable (about : Event υ → Option Site) (run : Run υ σ) (site : Site)

theorem tally_note (e : Event υ) :
    (run.note e).tally about site = run.tally about site + if about e = some site then 1 else 0 := by
  rw [tally, trace_note, Array.toList_push, List.filterMap_append, List.count_append, tally]
  cases h : about e with
  | none => simp [h]
  | some place => simp [h, List.count_singleton]

@[simp] theorem tally_remember (place : Site) (step : Step υ) :
    (run.remember place step).tally about site = run.tally about site := rfl

@[simp] theorem tally_withLimit (limit : Cursor) :
    (run.withLimit limit).tally about site = run.tally about site := rfl

@[simp] theorem tally_leave (place : Site) :
    (run.leave place).tally about site = run.tally about site := rfl

/-- Whether the node at a place is finished with the step, as a number. -/
def finishes (place : Site) (step : Step υ) (site : Site) : Nat :=
  if Step.fatal? step = none ∧ place = site then 1 else 0

theorem tally_settled (place : Site) (step : Step υ) :
    (run.note (.settled place step)).tally Event.finished? site
      = run.tally Event.finished? site + finishes place step site := by
  rw [tally_note, finishes, Event.finished?]
  by_cases hf : Step.fatal? step = none <;> simp [hf]

theorem tally_enter (slot : Slot) (place : Site) :
    (run.enter slot place).tally about site = run.tally about site
      + if about (.entered slot (place :: run.active) (run.depth + 1)) = some site then 1 else 0 :=
  tally_note about _ site _

variable {about run site} in
theorem tally_call {β : Type} {self : Nat} {kind : CallbackKind} {f : Callback υ σ β}
    {start : Cursor} {m : Match υ} (h : ∀ message, about (.rejected kind start message) = none) :
    (Matcher.call self kind f start m run).2.tally about site
      = run.tally about site + if about (.called (run.site self start)) = some site then 1 else 0 := by
  rw [← tally_note, Matcher.call_eq]
  dsimp only
  split
  · rfl
  · exact (tally_note about _ site _).trans (by rw [h]; rfl)

@[simp] theorem tally_fresh (input : Input) (host : σ) :
    (Run.fresh input host : Run υ σ).tally about site = 0 := rfl

end

end Run

namespace Grammar

variable {g : Grammar υ σ} {config : Config} {input : Input} {budget : Nat} {task : Task υ σ}
  {run run' : Run υ σ} {step : Step υ}

/-- **Without a fatal failure every evaluation is finished.** -/
theorem Exec.tally_evaluated (h : g.Exec config input budget task run step run')
    (hf : Step.fatal? step = none) (site : Site) :
    run'.tally Event.evaluated? site + run.tally Event.finished? site
      = run.tally Event.evaluated? site + run'.tally Event.finished? site := by
  induction h with
  | recalled => simp [Run.tally_note, Event.evaluated?, Event.finished?]
  | stored hm he hs h ih =>
    have hplan := ih hf
    simp only [Run.tally_remember, Run.tally_note, Event.evaluated?, Event.finished?, hf,
      reduceCtorEq, if_false, if_true, Option.some.injEq] at hplan ⊢
    omega
  | fresh hm he h ih =>
    have hplan := ih hf
    simp only [Run.tally_note, Event.evaluated?, Event.finished?, hf, reduceCtorEq, if_false,
      if_true, Option.some.injEq] at hplan ⊢
    omega
  | reentered => cases hf
  | tooDeep => cases hf
  | entered he ht ha h ih =>
    have htarget := ih hf
    simpa [Run.tally_enter, Event.evaluated?, Event.finished?] using htarget
  | done => rfl
  | look h ih => exact ih hf
  | abort h hfatal hnext hkind =>
    exact absurd hf (Step.fatal?_ne_none hfatal hkind)
  | apply h hf' hnext ihChild ihNext =>
    have hchild := ihChild hf'
    have hrest := ihNext hf
    simp only [Run.tally_withLimit] at hchild hrest
    omega
  | call hnext ih =>
    have hrest := ih hf
    rw [Run.tally_call fun _ => rfl, Run.tally_call fun _ => rfl] at hrest
    simpa [Event.evaluated?, Event.finished?] using hrest

/-- How often callbacks may have been called: once for each evaluation that is finished, and once
more by the plan of a node that starts at `start`, unless it fails for good. -/
def Task.CallsUpTo (run run' : Run υ σ) (step : Step υ) (site : Site) : Task υ σ → Prop
  | .entry .. => run'.tally Event.called? site + run.tally Event.finished? site
      ≤ run.tally Event.called? site + run'.tally Event.finished? site
  | .plan self p => ∀ start, p.CallsLast start →
    run'.tally Event.called? site + run.tally Event.finished? site
      ≤ run.tally Event.called? site + run'.tally Event.finished? site
        + Run.finishes (run.site self start) step site

/-- **Every call of a callback belongs to an evaluation that is finished.** -/
theorem Exec.tally_called (h : g.Exec config input budget task run step run') (site : Site) :
    Task.CallsUpTo run run' step site task := by
  induction h with
  | recalled => simp [Task.CallsUpTo, Run.tally_note, Event.called?, Event.finished?]
  | @stored budget i start run n step run' hm he hs h ih =>
    have hplan : _ ≤ _ + Run.finishes (run.site i start) step site :=
      ih start (n.callsLast input start)
    simp only [Run.tally_note, Event.called?, Event.finished?, reduceCtorEq, if_false] at hplan
    rw [Task.CallsUpTo, Run.tally_remember, Run.tally_remember, Run.tally_settled]
    simp only [Run.tally_note, Event.called?, reduceCtorEq, if_false]
    omega
  | @fresh budget i start run n step run' hm he h ih =>
    have hplan : _ ≤ _ + Run.finishes (run.site i start) step site :=
      ih start (n.callsLast input start)
    simp only [Run.tally_note, Event.called?, Event.finished?, reduceCtorEq, if_false] at hplan
    rw [Task.CallsUpTo, Run.tally_settled]
    simp only [Run.tally_note, Event.called?, reduceCtorEq, if_false]
    omega
  | reentered => simp [Task.CallsUpTo, Run.tally_note, Event.called?, Event.finished?]
  | tooDeep => simp [Task.CallsUpTo, Run.tally_note, Event.called?, Event.finished?]
  | entered he ht ha h ih =>
    simpa [Task.CallsUpTo, Run.tally_enter, Event.called?, Event.finished?] using ih
  | done => exact fun start _ => Nat.le_add_right _ _
  | look h ih => exact fun start hlast => ih start (hlast _)
  | abort h hfatal hnext hkind ih => exact fun start _ => Nat.le_trans ih (Nat.le_add_right _ _)
  | @apply budget self run window c cursor next step run' step' run'' h hf' hnext ihChild ihNext =>
    intro start hlast
    have hrest : _ ≤ _ + Run.finishes (run.site self start) step' site :=
      ihNext start (hlast _)
    simp only [Task.CallsUpTo, Run.tally_withLimit] at ihChild hrest
    omega
  | @call budget self run β kind cursor m next step run' f hnext ih =>
    intro start hlast
    obtain ⟨rfl, hdone⟩ := hlast
    obtain ⟨s, hs⟩ := hdone (Matcher.call self kind f cursor m run).1
    rw [hs] at hnext
    cases hnext with
    | done hf =>
      rw [Run.tally_call fun _ => rfl, Run.tally_call fun _ => rfl]
      simp only [Event.called?, Option.some.injEq, Event.finished?, reduceCtorEq, if_false,
        Nat.add_zero, Run.finishes, hf, true_and]
      omega

end Grammar

end Packrat
