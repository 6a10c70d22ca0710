import Packrat.Proofs.Engine.Bounds
import Packrat.Proofs.Plan.Knowing
import Packrat.Proofs.Semantics.Soundness

/-!
# Proofs/Engine/Lockstep — two runs side by side

Two runs that start alike, on inputs that agree up to the end of the window, do the same, event by
event: rules do the same in that window, whatever they open inside it ends no later, and pure
callbacks answer the same. The runs may differ in the callbacks' own state only
(`Run.withHost`).

Main statement: `Exec.lockstep`.
-/

namespace Packrat

variable {υ σ : Type}

/-! ## Runs that differ in the callbacks' state -/

/-- The state with another state of the callbacks. -/
def Run.withHost (run : Run υ σ) (host : σ) : Run υ σ := { run with host }

/-- The states are the same but for the callbacks' own. -/
def Run.Twin (run twin : Run υ σ) : Prop := ∃ host, twin = run.withHost host

/-- A pure callback gives the same answer, and the same is noted. -/
theorem Matcher.call_withHost {β : Type} {f : Callback υ σ β} (hf : f.IsPure) (self : Nat)
    (kind : CallbackKind) (start : Cursor) (m : Match υ) (run : Run υ σ) (host : σ) :
    ∃ host', Matcher.call self kind f start m (run.withHost host)
      = ((Matcher.call self kind f start m run).1,
          (Matcher.call self kind f start m run).2.withHost host') := by
  refine ⟨(f m.shown host).2, ?_⟩
  have hanswer : (f m.shown (run.withHost host).host).1 = (f m.shown run.host).1 := hf _ _ _
  rw [Matcher.call_eq, Matcher.call_eq, hanswer]
  cases (f m.shown run.host).1 <;> rfl

namespace Grammar

variable {g : Grammar υ σ} {config : Config} {input input' : Input} {budget : Nat}
  {task : Task υ σ} {run run' : Run υ σ} {step : Step υ} {self : Nat} {p q : Plan υ σ (Step υ)}

/-! ## Plans in a known window -/

theorem Exec.knowing (h : g.Exec config input budget (.plan self p) run step run') :
    g.Exec config input budget (.plan self (p.knowing run.limit)) run step run' := by
  induction p generalizing run with
  | done s => exact h
  | look next ih =>
    cases h with
    | look h => exact ih _ h
  | apply window c start next ih =>
    cases h with
    | abort h hf hnext hkind => exact .abort h hf (congrArg (Plan.knowing _) hnext) hkind
    | apply h hf hnext => exact .apply h hf (ih _ hnext)
  | call kind f start m next ih =>
    cases h with
    | call hnext =>
      have hrest := ih _ hnext
      rw [(Matcher.call_agrees self kind f start m run).limit] at hrest
      exact .call hrest

/-- What is carried out without looks can be carried out with them, if the plan is strict. -/
theorem Exec.of_knowing {child : Nat → Prop} {callback : ∀ γ : Type, Callback υ σ γ → Prop}
    (h : g.Exec config input budget (.plan self (p.knowing run.limit)) run step run')
    (hp : p.Strict child callback) : g.Exec config input budget (.plan self p) run step run' := by
  induction p generalizing run with
  | done s => exact h
  | look next ih => exact .look (ih _ h (hp _))
  | apply window c start next ih =>
    cases h with
    | @abort _ _ _ _ _ _ _ f f' _ h hf hnext hkind =>
      obtain ⟨f'', hf'', -⟩ := hp.2.1 f hf
      obtain rfl : f'' = f' := by simpa only [hf'', Plan.knowing, Plan.done.injEq,
        Except.error.injEq] using hnext
      exact .abort h hf hf'' hkind
    | apply h hf hnext => exact .apply h hf (ih _ hnext (hp.2.2 _ hf))
  | call kind f start m next ih =>
    cases h with
    | call hnext =>
      refine .call (ih _ ?_ (hp.2 _))
      rw [(Matcher.call_agrees self kind f start m run).limit]
      exact hnext

/-- A rule for one input is carried out like the rule for the other. -/
theorem Exec.other_input {n : Node Nat υ σ} {start : Cursor} {input₀ : Input}
    (h : g.Exec config input₀ budget (.plan self (n.rule input start)) run step run')
    (hagree : Input.Agree run.limit input input') :
    g.Exec config input₀ budget (.plan self (n.rule input' start)) run step run' := by
  have hknowing := h.knowing
  rw [n.knowing_rule hagree] at hknowing
  exact hknowing.of_knowing (n.strict_children input' (fun _ hc => hc) start)

/-! ## Side by side -/

/-- **On inputs that agree up to the end of the window the same is done.** The step is the same, and
so is the state that is left, but for the callbacks' own. -/
theorem Exec.lockstep (hpure : g.PureCallbacks)
    (h : g.Exec config input budget task run step run') {start : Cursor}
    (hagree : Input.Agree run.limit input input') (htask : task.Bounded start run.limit)
    (hp : task.Pure) (hrun : run.InBounds input) {twin : Run υ σ} (htwin : run.Twin twin) :
    ∃ twin', g.Exec config input' budget task twin step twin' ∧ run'.Twin twin' := by
  induction h generalizing start twin with
  | recalled hm he hs =>
    obtain ⟨host, rfl⟩ := htwin
    exact ⟨_, .recalled hm he hs, host, rfl⟩
  | @stored budget i cursor run n step run' hm he hs h ih =>
    obtain ⟨rfl, hstart⟩ := htask
    obtain ⟨host, rfl⟩ := htwin
    have hrule := n.strict_rule input (fun _ _ => trivial) (hpure i n he) cursor
    obtain ⟨_, h', host', rfl⟩ := ih hagree (n.bounded_rule input run.limit cursor hstart) hrule
      (hrun.note (hrun.site hstart i)) ⟨host, rfl⟩
    exact ⟨_, .stored hm he hs (h'.other_input hagree), host', rfl⟩
  | @fresh budget i cursor run n step run' hm he h ih =>
    obtain ⟨rfl, hstart⟩ := htask
    obtain ⟨host, rfl⟩ := htwin
    have hrule := n.strict_rule input (fun _ _ => trivial) (hpure i n he) cursor
    obtain ⟨_, h', host', rfl⟩ := ih hagree (n.bounded_rule input run.limit cursor hstart) hrule
      (hrun.note (hrun.site hstart i)) ⟨host, rfl⟩
    exact ⟨_, .fresh hm he (h'.other_input hagree), host', rfl⟩
  | reentered he ht ha =>
    obtain ⟨host, rfl⟩ := htwin
    exact ⟨_, .reentered he ht ha, host, rfl⟩
  | tooDeep he ht ha =>
    obtain ⟨host, rfl⟩ := htwin
    exact ⟨_, .tooDeep he ht ha, host, rfl⟩
  | @entered budget i cursor run slot target step run' he ht ha h ih =>
    obtain ⟨rfl, hstart⟩ := htask
    obtain ⟨host, rfl⟩ := htwin
    obtain ⟨_, h', host', rfl⟩ := ih hagree ⟨rfl, hstart⟩ trivial
      (hrun.enter (hrun.site hstart target) slot) ⟨host, rfl⟩
    exact ⟨_, .entered he ht ha h', host', rfl⟩
  | done hf => exact ⟨twin, .done hf, htwin⟩
  | look h ih =>
    obtain ⟨host, rfl⟩ := htwin
    obtain ⟨twin', h', htwin'⟩ := ih hagree htask (hp _) hrun ⟨host, rfl⟩
    exact ⟨twin', .look h', htwin'⟩
  | abort h hf hnext hkind ih =>
    obtain ⟨-, hcursor, hwindow, -⟩ := htask
    obtain ⟨host, rfl⟩ := htwin
    obtain ⟨_, h', host', rfl⟩ := ih (hagree.narrow hwindow) ⟨rfl, hcursor⟩ trivial
      (hrun.withLimit (hwindow.trans hrun.limit)) ⟨host, rfl⟩
    exact ⟨_, .abort h' hf hnext hkind, host', rfl⟩
  | apply h hf hnext ihChild ihNext =>
    obtain ⟨-, hcursor, hwindow, hrest⟩ := htask
    obtain ⟨host, rfl⟩ := htwin
    have hchild := hrun.withLimit (hwindow.trans hrun.limit)
    obtain ⟨_, h', host', rfl⟩ := ihChild (hagree.narrow hwindow) ⟨rfl, hcursor⟩ trivial hchild
      ⟨host, rfl⟩
    obtain ⟨hstep, hrun'⟩ := h.inBounds ⟨rfl, hcursor⟩ hchild
    obtain ⟨twin', hnext', htwin'⟩ := ihNext hagree (hrest _ hstep) (hp.2.2 _ hf)
      (hrun'.withLimit hrun.limit) ⟨host', rfl⟩
    exact ⟨twin', .apply h' hf hnext', htwin'⟩
  | @call budget self run β kind cursor m next step run' f hnext ih =>
    obtain ⟨host, rfl⟩ := htwin
    have hlimit := (Matcher.call_agrees self kind f cursor m run).limit
    obtain ⟨host', hcall⟩ := Matcher.call_withHost hp.1 self kind cursor m run host
    obtain ⟨twin', hnext', htwin'⟩ := ih (hlimit ▸ hagree) (hlimit ▸ htask.2 _) (hp.2 _)
      (hrun.call htask.1) ⟨host', rfl⟩
    refine ⟨twin', .call ?_, htwin'⟩
    rw [hcall]
    exact hnext'

end Grammar

end Packrat
