import Packrat.Engine

/-!
# Proofs/Plan/Strict — fatal answers end a plan

A plan is *strict* when it ends as soon as a child fails for good, with a failure of the same kind,
and makes no fatal failure of its own. `Plan.Strict` says so, and at the same time bounds what the
plan asks for: the children it matches and the callbacks it calls.

Main statement: the rule of every combinator is strict, and asks only for the combinator's children
and its callback (`Node.strict_rule`).
-/

namespace Packrat

variable {υ σ α : Type}

/-- The kind of a fatal failure. -/
def Step.fatal? : Step υ → Option FailureKind
  | .ok _ => none
  | .error f => if f.isFatal then some f.kind else none

theorem Step.fatal?_error_eq_none {f : Fail} :
    Step.fatal? (.error f : Step υ) = none ↔ f.isFatal = false := by
  simp [Step.fatal?]

theorem Step.fatal?_error_eq_none_iff {f : Fail} :
    Step.fatal? (.error f : Step υ) = none ↔ ¬f.isFatal :=
  Step.fatal?_error_eq_none.trans Bool.eq_false_iff

theorem Step.fatal?_eq_some {step : Step υ} {kind : FailureKind} :
    Step.fatal? step = some kind ↔ ∃ f, step = .error f ∧ f.isFatal ∧ f.kind = kind := by
  cases step <;> simp [Step.fatal?]

/-- How a failure is reported does not matter. -/
theorem Step.fatal?_error_congr {f f' : Fail} (h : f'.kind = f.kind) :
    Step.fatal? (.error f' : Step υ) = Step.fatal? (.error f : Step υ) := by
  obtain ⟨_, _, kind⟩ := f
  obtain rfl : f'.kind = kind := h
  rfl

theorem Step.fatal?_ne_none {f f' : Fail} (hf : f.isFatal) (hkind : f'.kind = f.kind) :
    Step.fatal? (.error f' : Step υ) ≠ none := by
  rw [Step.fatal?_error_congr hkind, Step.fatal?, if_pos hf]
  exact Option.some_ne_none _

/-- Of two failures that are not fatal the one that got further is not fatal. -/
theorem Fail.not_isFatal_deeper {f g : Fail} (hf : ¬f.isFatal) (hg : ¬g.isFatal) :
    ¬(f.deeper g).isFatal := by
  rw [Fail.deeper]
  split
  · exact hg
  · exact hf

namespace Plan

/-- Only children that satisfy `child` are matched and only callbacks that satisfy `callback` are
called; a fatal answer ends the plan with its kind, and without one the end is not fatal. -/
def Strict (child : Nat → Prop) (callback : ∀ γ : Type, Callback υ σ γ → Prop) :
    Plan υ σ (Step υ) → Prop
  | done step => Step.fatal? step = none
  | look next => ∀ limit, (next limit).Strict child callback
  | apply _ index _ next => child index
      ∧ (∀ f : Fail, f.isFatal → ∃ f' : Fail, next (.error f) = done (.error f') ∧ f'.kind = f.kind)
      ∧ ∀ step, Step.fatal? step = none → (next step).Strict child callback
  | call _ f _ _ next => callback _ f ∧ ∀ answer, (next answer).Strict child callback

variable {child : Nat → Prop} {callback : ∀ γ : Type, Callback υ σ γ → Prop}
  {p : Plan υ σ (Step υ)}

theorem Strict.bind {next : Step υ → Plan υ σ (Step υ)} (hp : p.Strict child callback)
    (hfatal : ∀ f : Fail, f.isFatal →
      ∃ f' : Fail, next (.error f) = done (.error f') ∧ f'.kind = f.kind)
    (hnext : ∀ step, Step.fatal? step = none → (next step).Strict child callback) :
    (p.bind next).Strict child callback := by
  induction p with
  | done step => exact hnext step hp
  | look rest ih => exact fun limit => ih limit (hp limit)
  | apply window index start rest ih =>
    obtain ⟨hchild, hstop, hrest⟩ := hp
    refine ⟨hchild, fun f hf => ?_, fun step hstep => ih step (hrest step hstep)⟩
    obtain ⟨f', hf', hkind⟩ := hstop f hf
    obtain ⟨f'', hf'', hkind'⟩ := hfatal f' (by rw [Fail.isFatal, hkind]; exact hf)
    exact ⟨f'', by simp only [hf', bind_done, hf''], hkind'.trans hkind⟩
  | call kind f start m rest ih => exact ⟨hp.1, fun answer => ih answer (hp.2 answer)⟩

/-- Every failure ends the plan, reported in some way. -/
theorem Strict.pass {next : Step υ → Plan υ σ (Step υ)} (hp : p.Strict child callback)
    (hfail : ∀ f : Fail, ∃ f' : Fail, next (.error f) = done (.error f') ∧ f'.kind = f.kind)
    (hmatch : ∀ m, (next (.ok m)).Strict child callback) : (p.bind next).Strict child callback := by
  refine hp.bind (fun f _ => hfail f) fun step hstep => ?_
  cases step with
  | ok m => exact hmatch m
  | error f =>
    obtain ⟨f', hf', hkind⟩ := hfail f
    rw [hf']
    rw [Step.fatal?_error_eq_none, Fail.isFatal] at hstep
    exact Step.fatal?_error_eq_none.2 (by rw [Fail.isFatal, hkind, hstep])

/-- A fatal failure ends the plan as it is; another one is gone on with. -/
theorem Strict.absorb {next : Step υ → Plan υ σ (Step υ)} {onFail : Fail → Plan υ σ (Step υ)}
    (hp : p.Strict child callback)
    (hnext : ∀ f : Fail, next (.error f) = if f.isFatal then done (.error f) else onFail f)
    (hmatch : ∀ m, (next (.ok m)).Strict child callback)
    (hfail : ∀ f : Fail, ¬f.isFatal → (onFail f).Strict child callback) :
    (p.bind next).Strict child callback := by
  refine hp.bind (fun f hf => ⟨f, (hnext f).trans (if_pos hf), rfl⟩) fun step hstep => ?_
  cases step with
  | ok m => exact hmatch m
  | error f =>
    have hf : ¬f.isFatal := Step.fatal?_error_eq_none_iff.1 hstep
    rw [hnext, if_neg hf]
    exact hfail f hf

/-- Two families of matchers that agree on the children of a plan carry it out alike. -/
theorem Strict.run_congr {self : Nat} {m m' : Nat → Matcher υ σ} (hp : p.Strict child callback)
    (h : ∀ i, child i → m i = m' i) : p.run self m = p.run self m' := by
  induction p with
  | done a => rfl
  | look next ih => exact bind_congr fun run => ih run.limit (hp run.limit)
  | apply window index start next ih =>
    obtain ⟨hchild, hstop, hnext⟩ := hp
    simp only [run, h index hchild]
    refine bind_congr fun step => ?_
    cases hstep : Step.fatal? step with
    | none => exact ih step (hnext step hstep)
    | some kind =>
      obtain ⟨f, rfl, hf, -⟩ := Step.fatal?_eq_some.1 hstep
      obtain ⟨f', hf', -⟩ := hstop f hf
      rw [hf']
      rfl
  | call kind f start m next ih => exact bind_congr fun answer => ih answer (hp.2 answer)

end Plan

/-! ## Rules -/

namespace Rule

open Plan

variable {child : Nat → Prop} {callback : ∀ γ : Type, Callback υ σ γ → Prop}
  {first second third : Rule υ σ}

/-- Whatever the cursor, the rule's plan is strict. -/
abbrev Strict (child : Nat → Prop) (callback : ∀ γ : Type, Callback υ σ γ → Prop)
    (rule : Rule υ σ) : Prop := ∀ start, (rule start).Strict child callback

theorem strict_child {index : Nat} (h : child index) :
    (Rule.child index : Rule υ σ).Strict child callback :=
  fun _ => ⟨h, fun f _ => ⟨f, rfl, rfl⟩, fun _ hstep => hstep⟩

theorem strict_childWithin {index : Nat} (h : child index) (stop : Cursor) :
    (Rule.childWithin index stop : Rule υ σ).Strict child callback :=
  fun _ => ⟨h, fun f _ => ⟨f, rfl, rfl⟩, fun _ hstep => hstep⟩

theorem strict_ofRead (start : Cursor) (found : Option (Match υ)) :
    (ofRead start found : Plan υ σ (Step υ)).Strict child callback := by
  cases found <;> rfl

theorem strict_atEnd : (Rule.atEnd : Rule υ σ).Strict child callback := by
  intro start limit
  simp only [Plan.bind_done, Plan.pure_eq_done]
  split <;> rfl

/-! ### In a row -/

theorem Strict.andThen {start cursor : Cursor} {next : Match υ → Plan υ σ (Step υ)}
    (h : first.Strict child callback) (hnext : ∀ m, (next m).Strict child callback) :
    (Rule.andThen start first cursor next).Strict child callback :=
  (h cursor).pass (fun f => ⟨f.reportedAt start, rfl, rfl⟩) hnext

theorem Strict.sequenceFrom {start cursor : Cursor} {parts : List (Rule υ σ)}
    {values : Array (Value υ)} (h : ∀ r ∈ parts, r.Strict child callback) :
    (Rule.sequenceFrom start parts cursor values).Strict child callback := by
  induction parts generalizing cursor values with
  | nil => rfl
  | cons part parts ih =>
    have hpart : part.Strict child callback := h part List.mem_cons_self
    exact hpart.andThen fun _ => ih fun r hr => h r (List.mem_cons_of_mem _ hr)

theorem Strict.left (ha : first.Strict child callback) (hb : second.Strict child callback) :
    (Rule.left first second).Strict child callback :=
  fun _ => ha.andThen fun _ => hb.andThen fun _ => rfl

theorem Strict.right (ha : first.Strict child callback) (hb : second.Strict child callback) :
    (Rule.right first second).Strict child callback :=
  fun _ => ha.andThen fun _ => hb.andThen fun _ => rfl

theorem Strict.middle (ha : first.Strict child callback) (hb : second.Strict child callback)
    (hc : third.Strict child callback) : (Rule.middle first second third).Strict child callback :=
  fun _ => ha.andThen fun _ => hb.andThen fun _ => hc.andThen fun _ => rfl

theorem Strict.whitespace (input : Input) (h : first.Strict child callback) :
    (Rule.whitespace input first).Strict child callback :=
  fun _ _ => h.andThen fun _ => rfl

/-- What changes matches only keeps a rule strict. -/
theorem Strict.map (f : Cursor → Match υ → Match υ) (h : first.Strict child callback) :
    Strict child callback fun start =>
      (first start).bind fun step => .done (step.map (f start)) := by
  intro start
  refine (h start).bind (fun g _ => ⟨g, rfl, rfl⟩) fun step hstep => ?_
  cases step with
  | ok m => rfl
  | error g => exact hstep

theorem Strict.intRange (low high : Int) (h : first.Strict child callback) :
    (Rule.intRange first low high).Strict child callback := by
  intro _
  refine h.andThen fun m => ?_
  split
  · split <;> rfl
  · rfl

/-! ### Alternatives -/

theorem Strict.choiceFrom {start : Cursor} {alternatives : List (Rule υ σ)} {best : Option Fail}
    (hbest : ∀ f ∈ best, ¬f.isFatal) (h : ∀ r ∈ alternatives, r.Strict child callback) :
    (Rule.choiceFrom start alternatives best).Strict child callback := by
  induction alternatives generalizing best with
  | nil =>
    cases best with
    | none => rfl
    | some f => exact Step.fatal?_error_eq_none_iff.2 (hbest f rfl)
  | cons first alternatives ih =>
    have hfirst : first.Strict child callback := h first List.mem_cons_self
    refine (hfirst start).absorb (fun _ => rfl) (fun _ => rfl) fun f hf => ?_
    refine ih (fun f' hf' => ?_) fun r hr => h r (List.mem_cons_of_mem _ hr)
    obtain rfl := Option.some.inj hf'
    cases best with
    | none => exact hf
    | some b => exact Fail.not_isFatal_deeper (hbest b rfl) hf

theorem Strict.butnot (ha : first.Strict child callback) (hb : second.Strict child callback) :
    (Rule.butnot first second).Strict child callback := by
  intro start
  refine (ha start).pass (fun f => ⟨f, rfl, rfl⟩) fun ma => ?_
  refine (hb start).absorb (fun _ => rfl) (fun mb => ?_) fun _ _ => rfl
  dsimp only
  split <;> rfl

theorem Strict.difference (ha : first.Strict child callback) (hb : second.Strict child callback) :
    (Rule.difference first second).Strict child callback := by
  intro start
  refine (ha start).pass (fun f => ⟨f, rfl, rfl⟩) fun ma => ?_
  exact (hb start).absorb (fun _ => rfl) (fun _ => rfl) fun _ _ => rfl

theorem Strict.xor (ha : first.Strict child callback) (hb : second.Strict child callback) :
    (Rule.xor first second).Strict child callback := by
  intro start
  refine (ha start).absorb (fun _ => rfl) (fun ma => ?_) fun f hf => ?_
  · exact (hb start).absorb (fun _ => rfl) (fun _ => rfl) fun _ _ => rfl
  · refine (hb start).absorb (fun _ => rfl) (fun _ => rfl) fun g hg => ?_
    exact Step.fatal?_error_eq_none_iff.2 (Fail.not_isFatal_deeper hf hg)

/-! ### Repetition -/

theorem Strict.continueFrom (h : first.Strict child callback) {room : Nat} {cursor : Cursor}
    {values : Array (Value υ)} :
    (Rule.continueFrom first room cursor values).Strict child callback := by
  induction room using Nat.strongRecOn generalizing cursor values with
  | ind room ih =>
    rw [Rule.continueFrom_eq]
    refine (h cursor).absorb (fun _ => rfl) (fun m => ?_) fun _ _ => rfl
    dsimp only
    split
    · cases room with
      | zero => rfl
      | succ rest => exact ih rest (Nat.lt_succ_self rest)
    · rfl

theorem Strict.repeated (needed : Bool) (hf : first.Strict child callback)
    (hn : second.Strict child callback) :
    (Rule.repeated first second needed).Strict child callback := by
  intro start
  refine (hf start).absorb (fun _ => rfl) (fun m => ?_) fun f hfatal => ?_
  · dsimp only
    split
    · exact fun limit => hn.continueFrom
    · rfl
  · split
    · exact Step.fatal?_error_eq_none_iff.2 hfatal
    · rfl

theorem Strict.separated (hi : first.Strict child callback) (hs : second.Strict child callback) :
    (Rule.separated first second).Strict child callback :=
  fun start => (hs start).pass (fun f => ⟨f, rfl, rfl⟩) fun m => hi m.stop

theorem Strict.repeatFrom (h : first.Strict child callback) {count : Nat} {cursor : Cursor}
    {values : Array (Value υ)} :
    (Rule.repeatFrom first count cursor values).Strict child callback := by
  induction count generalizing cursor values with
  | zero => rfl
  | succ count ih => exact h.andThen fun _ => ih

theorem Strict.optional (h : first.Strict child callback) :
    (Rule.optional first).Strict child callback :=
  fun start => (h start).absorb (fun _ => rfl) (fun _ => rfl) fun _ _ => rfl

theorem Strict.not (h : first.Strict child callback) :
    (Rule.not first).Strict child callback :=
  fun start => (h start).absorb (fun _ => rfl) (fun _ => rfl) fun _ _ => rfl

/-! ### Windows and callbacks -/

theorem Strict.lengthValue {value : Cursor → Rule υ σ} (hl : first.Strict child callback)
    (hv : ∀ stop, (value stop).Strict child callback) :
    (Rule.lengthValue first value).Strict child callback := by
  intro _
  refine hl.andThen fun ml limit => ?_
  simp only [Plan.bind_done, Plan.pure_eq_done]
  split
  · rfl
  · refine (hv _).andThen fun mv => ?_
    split <;> rfl

theorem Strict.action {act : Action υ σ} (h : first.Strict child callback) (ha : callback _ act) :
    (Rule.action first act).Strict child callback := by
  intro start
  refine (h start).pass (fun f => ⟨f, rfl, rfl⟩) fun m => ⟨ha, fun answer => ?_⟩
  cases answer <;> rfl

theorem Strict.satisfying {accepts : Predicate υ σ} (h : first.Strict child callback)
    (ha : callback _ accepts) : (Rule.satisfying first accepts).Strict child callback := by
  intro start
  refine (h start).pass (fun f => ⟨f, rfl, rfl⟩) fun m => ⟨ha, fun answer => ?_⟩
  cases answer with
  | ok b => cases b <;> rfl
  | error e => rfl

end Rule

/-! ## Nodes -/

namespace Node

/-- The callback of a combinator, if it has one, satisfies `callback`. -/
def Calls (callback : ∀ γ : Type, Callback υ σ γ → Prop) : Node Nat υ σ → Prop
  | action _ act => callback _ act
  | satisfying _ accepts => callback _ accepts
  | _ => True

/-- **Every combinator is strict**, and asks only for its children and its callback. -/
theorem strict_rule {child : Nat → Prop} {callback : ∀ γ : Type, Callback υ σ γ → Prop}
    (input : Input) (node : Node Nat υ σ) (hchild : ∀ c ∈ node.children, child c)
    (hcall : node.Calls callback) : (node.rule input).Strict child callback := by
  have hc : ∀ c ∈ node.children, (Rule.child c : Rule υ σ).Strict child callback :=
    fun c h => Rule.strict_child (hchild c h)
  cases node with
  | token bytes => exact fun _ _ => Rule.strict_ofRead _ _
  | byte b => exact fun _ _ => Rule.strict_ofRead _ _
  | byteRange low high => exact fun _ _ => Rule.strict_ofRead _ _
  | byteIn set => exact fun _ _ => Rule.strict_ofRead _ _
  | bits width signed => exact fun _ _ => Rule.strict_ofRead _ _
  | atEnd => exact Rule.strict_atEnd
  | never => exact fun _ => rfl
  | empty => exact fun _ => rfl
  | intRange base low high => exact (hc base (by simp [children])).intRange low high
  | whitespace p => exact (hc p (by simp [children])).whitespace input
  | left a b => exact (hc a (by simp [children])).left (hc b (by simp [children]))
  | right a b => exact (hc a (by simp [children])).right (hc b (by simp [children]))
  | middle a b c =>
    exact (hc a (by simp [children])).middle (hc b (by simp [children])) (hc c (by simp [children]))
  | sequence ps =>
    intro _
    refine Rule.Strict.sequenceFrom fun r hr => ?_
    obtain ⟨c, hmem, rfl⟩ := List.mem_map.1 hr
    exact hc c hmem
  | choice ps =>
    intro _
    refine Rule.Strict.choiceFrom (by simp) fun r hr => ?_
    obtain ⟨c, hmem, rfl⟩ := List.mem_map.1 hr
    exact hc c hmem
  | butnot a b => exact (hc a (by simp [children])).butnot (hc b (by simp [children]))
  | difference a b => exact (hc a (by simp [children])).difference (hc b (by simp [children]))
  | xor a b => exact (hc a (by simp [children])).xor (hc b (by simp [children]))
  | many p => exact (hc p (by simp [children])).repeated false (hc p (by simp [children]))
  | many1 p => exact (hc p (by simp [children])).repeated true (hc p (by simp [children]))
  | repeatN p count => exact fun _ => (hc p (by simp [children])).repeatFrom
  | optional p => exact (hc p (by simp [children])).optional
  | ignore p => exact (hc p (by simp [children])).map fun _ m => .absent m.stop
  | sepBy item sep =>
    exact (hc item (by simp [children])).repeated false
      ((hc item (by simp [children])).separated (hc sep (by simp [children])))
  | sepBy1 item sep =>
    exact (hc item (by simp [children])).repeated true
      ((hc item (by simp [children])).separated (hc sep (by simp [children])))
  | lengthValue length value =>
    exact (hc length (by simp [children])).lengthValue
      (Rule.strict_childWithin (hchild value (by simp [children])))
  | and p => exact (hc p (by simp [children])).map fun start _ => .absent start
  | not p => exact (hc p (by simp [children])).not
  | action p act => exact (hc p (by simp [children])).action hcall
  | satisfying p accepts => exact (hc p (by simp [children])).satisfying hcall

/-- Every combinator is strict, and asks only for its children. -/
theorem strict_children {child : Nat → Prop} (input : Input) (node : Node Nat υ σ)
    (h : ∀ c ∈ node.children, child c) : (node.rule input).Strict child fun _ _ => True :=
  strict_rule input node h (by cases node <;> trivial)

end Node

end Packrat
