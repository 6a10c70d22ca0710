import Packrat.Proofs.Engine.Nesting

/-!
# Proofs/Engine/Reentry — meeting an unfinished place again

An outcome is remembered once it is known, so a place can be met again while it is still being
worked out. That is always fatal. Children that have been matched on the way are remembered, so
whatever works the place out again takes the same way (`Grammar.Stuck`), as far as the slot that was
entered since; and that slot is still being followed.

A place that is being worked out is *pending*. `Grammar.Linked` is the invariant: a pending place is
stuck already, or else the task is further down and the place is stuck as soon as the task is.
-/

namespace Packrat

variable {υ σ : Type}

/-! ## Callbacks are called last -/

namespace Plan

/-- A callback is called for the node itself, where it starts, and nothing is done afterwards. -/
def CallsLast (start : Cursor) : Plan υ σ (Step υ) → Prop
  | done _ => True
  | look next => ∀ limit, (next limit).CallsLast start
  | apply _ _ _ next => ∀ step, (next step).CallsLast start
  | call _ _ cursor _ next => cursor = start ∧ ∀ answer, ∃ step, next answer = done step

/-- A plan without callbacks. -/
theorem Strict.callsLast {child : Nat → Prop} {p : Plan υ σ (Step υ)}
    (hp : p.Strict child fun _ _ => False) (start : Cursor) : p.CallsLast start := by
  induction p with
  | done step => trivial
  | look next ih => exact fun limit => ih limit (hp limit)
  | apply window c cursor next ih =>
    intro step
    cases hstep : Step.fatal? step with
    | none => exact ih step (hp.2.2 step hstep)
    | some kind =>
      obtain ⟨f, rfl, hf, -⟩ := Step.fatal?_eq_some.1 hstep
      obtain ⟨f', hf', -⟩ := hp.2.1 f hf
      rw [hf']
      trivial
  | call kind f cursor m next ih => exact hp.1.elim

end Plan

theorem Node.callsLast (n : Node Nat υ σ) (input : Input) (start : Cursor) :
    (n.rule input start).CallsLast start := by
  have hplain : ∀ n : Node Nat υ σ, n.Calls (fun _ _ => False) →
      (n.rule input start).CallsLast start := fun n h =>
    (n.strict_rule input (fun c hc => hc) h start).callsLast start
  cases n with
  | action p act =>
    intro step
    cases step with
    | ok m => exact ⟨rfl, fun answer => by cases answer <;> exact ⟨_, rfl⟩⟩
    | error f => trivial
  | satisfying p accepts =>
    intro step
    cases step with
    | ok m =>
      refine ⟨rfl, fun answer => ?_⟩
      cases answer with
      | ok b => cases b <;> exact ⟨_, rfl⟩
      | error e => exact ⟨_, rfl⟩
    | error f => trivial
  | _ => exact hplain _ trivial

namespace Grammar

/-! ## Being stuck -/

/-- What is remembered of an entry: the outcome of the combinator that placeholders lead to. -/
inductive Knows (g : Grammar υ σ) (past : Run υ σ) : Nat → Cursor → Cursor → Step υ → Prop
  | node {i start limit step n} (he : g.entries[i]? = some (.node n))
      (hs : past.memo[(⟨i, start, limit⟩ : Site)]? = some step) : Knows g past i start limit step
  | indirect {i start limit step slot target} (he : g.entries[i]? = some (.indirect slot))
      (ht : g.targets[slot.index]? = some target) (h : Knows g past target start limit step) :
      Knows g past i start limit step

/-- The task leads to a slot that is being followed where it stands, past children whose outcomes
are remembered. -/
inductive Stuck (g : Grammar υ σ) (input : Input) (past : Run υ σ) :
    Cursor → Task υ σ → Prop
  | reentered {limit i start slot target} (he : g.entries[i]? = some (.indirect slot))
      (ht : g.targets[slot.index]? = some target)
      (ha : (⟨target, start, limit⟩ : Site) ∈ past.active) :
      Stuck g input past limit (.entry i start)
  | entered {limit i start slot target} (he : g.entries[i]? = some (.indirect slot))
      (ht : g.targets[slot.index]? = some target)
      (h : Stuck g input past limit (.entry target start)) :
      Stuck g input past limit (.entry i start)
  | evaluated {limit i start n} (he : g.entries[i]? = some (.node n))
      (hs : past.memo[(⟨i, start, limit⟩ : Site)]? = none)
      (h : Stuck g input past limit (.plan i (n.rule input start))) :
      Stuck g input past limit (.entry i start)
  | look {limit self next} (h : Stuck g input past limit (.plan self (next limit))) :
      Stuck g input past limit (.plan self (.look next))
  | child {limit self window c start next}
      (h : Stuck g input past (window.getD limit) (.entry c start)) :
      Stuck g input past limit (.plan self (.apply window c start next))
  | rest {limit self window c start next step}
      (hs : g.Knows past c start (window.getD limit) step)
      (h : Stuck g input past limit (.plan self (next step))) :
      Stuck g input past limit (.plan self (.apply window c start next))

variable {g : Grammar υ σ} {config : Config} {input : Input} {past : Run υ σ} {limit : Cursor}
  {task : Task υ σ} {budget : Nat} {run run' : Run υ σ} {step step' : Step υ}

theorem Knows.mono {i : Nat} {start : Cursor} (h : g.Knows past i start limit step)
    (hmemo : ∀ (site : Site) step, past.memo[site]? = some step → run.memo[site]? = some step) :
    g.Knows run i start limit step := by
  induction h with
  | node he hs => exact .node he (hmemo _ _ hs)
  | indirect he ht _ ih => exact .indirect he ht ih

/-- What is remembered is recalled, unless the entry fails for good. -/
theorem Knows.recalled {i : Nat} {start : Cursor} (h : g.Knows past i start limit step)
    (hm : config.memoize = true)
    (hexec : g.Exec config input budget (.entry i start) run step' run')
    (hlimit : run.limit = limit) (hmemo : run.memo = past.memo)
    (hf : Step.fatal? step' = none) : step' = step ∧ run'.memo = past.memo := by
  induction h generalizing budget run run' with
  | node he hs =>
    obtain ⟨hs', rfl⟩ | ⟨hs', -⟩ := hexec.node_cases hm he
    · rw [Run.site, hlimit, hmemo, hs] at hs'
      exact ⟨(Option.some.inj hs').symm, hmemo⟩
    · rw [Run.site, hlimit, hmemo, hs] at hs'
      cases hs'
  | indirect he ht _ ih =>
    obtain ⟨ha, rfl, -⟩ | ⟨-, ⟨-, rfl, -⟩ | ⟨b, run₁, -, h₁, rfl⟩⟩ := hexec.placeholder_cases he ht
    · cases hf
    · cases hf
    · have htarget := ih h₁ hlimit hmemo
      exact htarget

/-- **What is stuck fails for good.** -/
theorem Stuck.fatal (h : g.Stuck input past limit task) (hm : config.memoize = true)
    (hexec : g.Exec config input budget task run step run') (hlimit : run.limit = limit)
    (hmemo : run.memo = past.memo) (hactive : ∀ site ∈ past.active, site ∈ run.active) :
    Step.fatal? step ≠ none := by
  induction h generalizing budget run run' step with
  | @reentered limit i start slot target he ht ha =>
    obtain ⟨-, rfl, -⟩ | ⟨ha', -⟩ := hexec.placeholder_cases he ht
    · exact Option.some_ne_none _
    · rw [Run.site, hlimit] at ha'
      exact absurd (hactive _ ha) ha'
  | entered he ht h ih =>
    obtain ⟨-, rfl, -⟩ | ⟨-, ⟨-, rfl, -⟩ | ⟨b, run₁, -, h₁, rfl⟩⟩ := hexec.placeholder_cases he ht
    · exact Option.some_ne_none _
    · exact Option.some_ne_none _
    · exact ih h₁ hlimit hmemo fun site hsite => List.mem_cons_of_mem _ (hactive site hsite)
  | evaluated he hs h ih =>
    obtain ⟨hs', -⟩ | ⟨-, run₁, h₁, rfl⟩ := hexec.node_cases hm he
    · rw [Run.site, hlimit, hmemo, hs] at hs'
      cases hs'
    · exact ih h₁ hlimit hmemo hactive
  | look h ih =>
    cases hexec with
    | look h₁ => exact ih (hlimit ▸ h₁) hlimit hmemo hactive
  | child h ih =>
    cases hexec with
    | abort h₁ hf hnext hkind =>
      rw [Step.fatal?_error_congr hkind]
      exact ih h₁ (by rw [← hlimit, Run.limit_withLimit]) hmemo hactive
    | apply h₁ hf =>
      exact absurd hf (ih h₁ (by rw [← hlimit, Run.limit_withLimit]) hmemo hactive)
  | rest hs h ih =>
    subst hlimit
    cases hexec with
    | abort h₁ hf hnext hkind =>
      rw [Step.fatal?_error_congr hkind]
      simp [Step.fatal?, hf]
    | apply h₁ hf hnext =>
      obtain ⟨rfl, hmemo₁⟩ := hs.recalled hm h₁ rfl hmemo hf
      refine ih hnext rfl hmemo₁ fun site hsite => ?_
      rw [Run.active_withLimit, h₁.agrees.active]
      exact hactive site hsite

end Grammar

/-! ## Pending places -/

/-- A state that may come later while these places are being worked out: more is remembered, though
nothing of them, and more targets are followed. -/
structure Run.Later (pending : List Site) (run later : Run υ σ) : Prop where
  memo : ∀ (site : Site) step, run.memo[site]? = some step → later.memo[site]? = some step
  unknown : ∀ place ∈ pending, later.memo[place]? = none
  active : ∀ site ∈ run.active, site ∈ later.active

/-- A plan that is carried out calls callbacks last. -/
def Task.Last : Task υ σ → Prop
  | entry .. => True
  | plan _ p => ∃ start, p.CallsLast start

/-- The task is an entry before this one, or the plan of one that does not stand behind it. -/
def Task.Below (bound : Nat) : Task υ σ → Prop
  | entry i _ => i < bound
  | plan self _ => self ≤ bound

namespace Grammar

/-- Whatever comes later, the place is stuck. -/
def StuckLater (g : Grammar υ σ) (input : Input) (pending : List Site) (run : Run υ σ)
    (place : Site) : Prop :=
  ∀ later, run.Later pending later →
    g.Stuck input later place.limit (.entry place.node place.start)

/-- Whatever comes later, the place is stuck; or the task is further down, and the place is stuck
whenever the task is. -/
def Linked (g : Grammar υ σ) (input : Input) (pending : List Site) (run : Run υ σ)
    (task : Task υ σ) (place : Site) : Prop :=
  g.StuckLater input pending run place ∨
    task.Below place.node ∧ ∀ later, run.Later pending later →
      g.Stuck input later run.limit task →
        g.Stuck input later place.limit (.entry place.node place.start)

/-- The task is one of the grammar, and these places are being worked out while it is carried out:
they are linked to it, and nothing is known of them. -/
structure Pends (g : Grammar υ σ) (input : Input) (pending : List Site) (run : Run υ σ)
    (task : Task υ σ) : Prop where
  of : task.Of g
  last : task.Last
  linked : ∀ place ∈ pending, g.Linked input pending run task place
  unknown : ∀ place ∈ pending, run.memo[place]? = none

variable {g : Grammar υ σ} {config : Config} {input : Input} {limit : Cursor}
  {task task' : Task υ σ} {budget : Nat} {run run' : Run υ σ} {step : Step υ}
  {pending pending' : List Site}

/-- The state itself may come later. -/
theorem Pends.later (h : g.Pends input pending run task) : run.Later pending run :=
  ⟨fun _ _ hs => hs, h.unknown, fun _ hsite => hsite⟩

theorem Linked.pass {place : Site} (h : g.Linked input pending run task place)
    (hbelow : task.Below place.node → task'.Below place.node)
    (hlater : ∀ later, run'.Later pending' later → run.Later pending later)
    (hstuck : ∀ later, run'.Later pending' later → g.Stuck input later run'.limit task' →
      g.Stuck input later run.limit task) : g.Linked input pending' run' task' place := by
  obtain hplace | ⟨htask, hplace⟩ := h
  · exact .inl fun later h => hplace later (hlater later h)
  · exact .inr ⟨hbelow htask, fun later h hs => hplace later (hlater later h) (hstuck later h hs)⟩

namespace Pends

variable {i self c target : Nat} {n : Node Nat υ σ} {slot : Slot} {start : Cursor}
  {window : Option Cursor} {next : Step υ → Plan υ σ (Step υ)}

/-- **A pending place that is met again fails for good.** -/
theorem fatal (h : g.Pends input pending run (.entry i start)) (hm : config.memoize = true)
    (hplace : run.site i start ∈ pending)
    (hexec : g.Exec config input budget (.entry i start) run step run') :
    Step.fatal? step ≠ none := by
  obtain hstuck | ⟨hbelow, -⟩ := h.linked _ hplace
  · exact (hstuck run h.later).fatal hm hexec rfl rfl fun _ hsite => hsite
  · exact absurd hbelow (Nat.lt_irrefl i)

/-- A node that starts to be worked out is pending, too. -/
theorem evaluate (he : g.entries[i]? = some (.node n)) (hs : run.memo[run.site i start]? = none)
    (h : g.Pends input pending run (.entry i start)) (e : Event υ) :
    g.Pends input (run.site i start :: pending) (run.note e) (.plan i (n.rule input start)) := by
  have hunknown : ∀ place ∈ run.site i start :: pending, run.memo[place]? = none :=
    List.forall_mem_cons.2 ⟨hs, h.unknown⟩
  have hstuck : ∀ later : Run υ σ, later.memo[run.site i start]? = none →
      g.Stuck input later run.limit (.plan i (n.rule input start)) →
      g.Stuck input later run.limit (.entry i start) := fun _ hs h => .evaluated he hs h
  refine ⟨.rule he input start, ⟨start, n.callsLast input start⟩, List.forall_mem_cons.2
    ⟨.inr ⟨Nat.le_refl i, fun later hlater => ?_⟩, fun place hplace => (h.linked place hplace).pass
      Nat.le_of_lt (fun later hlater => ?_) fun later hlater => ?_⟩, hunknown⟩
  · exact hstuck later (hlater.unknown _ List.mem_cons_self)
  · exact ⟨hlater.memo, fun p hp => hlater.unknown p (List.mem_cons_of_mem _ hp), hlater.active⟩
  · exact hstuck later (hlater.unknown _ List.mem_cons_self)

/-- Once a slot is entered, all pending places are stuck: they lead to its target. -/
theorem enter (he : g.entries[i]? = some (.indirect slot))
    (ht : g.targets[slot.index]? = some target) (h : g.Pends input pending run (.entry i start)) :
    g.Pends input pending (run.enter slot (run.site target start)) (.entry target start) := by
  refine ⟨target_lt_size ht, trivial, fun place hplace => .inl fun later hlater => ?_, h.unknown⟩
  have hactive := hlater.active _ List.mem_cons_self
  have hbefore : run.Later pending later := ⟨hlater.memo, hlater.unknown,
    fun site hsite => hlater.active site (List.mem_cons_of_mem _ hsite)⟩
  obtain hstuck | ⟨-, hstuck⟩ := h.linked place hplace
  · exact hstuck later hbefore
  · exact hstuck later hbefore (.reentered he ht hactive)

theorem look {next : Cursor → Plan υ σ (Step υ)}
    (h : g.Pends input pending run (.plan self (.look next))) :
    g.Pends input pending run (.plan self (next run.limit)) := by
  obtain ⟨⟨hself, hstrict⟩, ⟨cursor, hlast⟩, hlinked, hunknown⟩ := h
  exact ⟨⟨hself, hstrict _⟩, ⟨cursor, hlast _⟩, fun place hplace => (hlinked place hplace).pass
    (fun hbelow => hbelow) (fun _ hlater => hlater) fun _ _ hs => .look hs, hunknown⟩

theorem child (h : g.Pends input pending run (.plan self (.apply window c start next))) :
    g.Pends input pending (run.withLimit (window.getD run.limit)) (.entry c start) :=
  ⟨h.of.child, trivial, fun place hplace => (h.linked place hplace).pass
    (Nat.lt_of_lt_of_le h.of.2.1) (fun _ hlater => ⟨hlater.memo, hlater.unknown, hlater.active⟩)
      fun _ _ hs => .child hs, h.unknown⟩

/-- Behind a child whose outcome is remembered now. -/
theorem rest (h : g.Pends input pending run (.plan self (.apply window c start next)))
    (hgrows : ∀ (site : Site) s, run.memo[site]? = some s → run'.memo[site]? = some s)
    (hunknown : ∀ place ∈ pending, run'.memo[place]? = none) (hactive : run'.active = run.active)
    (hknown : g.Knows run' c start (window.getD run.limit) step) (hf : Step.fatal? step = none) :
    g.Pends input pending (run'.withLimit run.limit) (.plan self (next step)) := by
  obtain ⟨hof, ⟨cursor, hlast⟩, hlinked, -⟩ := h
  refine ⟨hof.rest hf, ⟨cursor, hlast step⟩, fun place hplace => (hlinked place hplace).pass
    (fun hbelow => hbelow) (fun later hlater => ?_) fun later hlater hs =>
      .rest (hknown.mono hlater.memo) hs, hunknown⟩
  exact ⟨fun site s hs => hlater.memo site s (hgrows site s hs), hlater.unknown,
    fun site hsite => hlater.active site (hactive ▸ hsite)⟩

/-- Behind a callback nothing is left to be done. -/
theorem call {β : Type} {kind : CallbackKind} {f : Callback υ σ β} {m : Match υ}
    {next : Except CallbackError β → Plan υ σ (Step υ)}
    (h : g.Pends input pending run (.plan self (.call kind f start m next))) :
    g.Pends input pending (Matcher.call self kind f start m run).2
      (.plan self (next (Matcher.call self kind f start m run).1)) := by
  obtain ⟨⟨hself, -, hstrict⟩, ⟨cursor, -, hlast⟩, hlinked, hunknown⟩ := h
  have hmemo := Matcher.memo_call self kind f start m run
  have hactive := (Matcher.call_agrees self kind f start m run).active
  obtain ⟨step, hdone⟩ := hlast (Matcher.call self kind f start m run).1
  refine ⟨⟨hself, hstrict _⟩, ⟨cursor, ?_⟩, fun place hplace => (hlinked place hplace).pass
    (fun hbelow => hbelow) (fun later hlater => ?_) fun later _ hs => ?_,
    fun place hplace => by rw [hmemo, hunknown place hplace]⟩
  · rw [hdone]
    trivial
  · exact ⟨hmemo ▸ hlater.memo, hlater.unknown, hactive ▸ hlater.active⟩
  · rw [hdone] at hs
    cases hs

end Pends

end Grammar

end Packrat
