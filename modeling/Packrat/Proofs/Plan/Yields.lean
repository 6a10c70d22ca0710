import Packrat.Proofs.Plan.Bounded
import Packrat.Proofs.Plan.Strict

/-!
# Proofs/Plan/Yields — what a plan may end in

`Plan.Yields` is the meaning of a plan without a run: given which outcomes children have in which
windows, it tells which outcomes the plan has. A callback may give any answer that it gives in some
state. Strict plans with pure callbacks yield at most one outcome, and bounded plans one within
their window.
-/

namespace Packrat

variable {υ σ α : Type}

/-! ## Callbacks without a state -/

namespace Callback

/-- In some state this is the answer. -/
def Answers (f : Callback υ σ α) (v : Value υ) (answer : Except CallbackError α) : Prop :=
  ∃ host, (f v host).1 = answer

/-- The answer depends on the value alone. -/
def IsPure (f : Callback υ σ α) : Prop := ∀ v host host', (f v host).1 = (f v host').1

variable {f : Callback υ σ α} {v : Value υ} {a a' : Except CallbackError α}

theorem IsPure.unique (h : f.IsPure) (ha : f.Answers v a) (ha' : f.Answers v a') : a = a' := by
  obtain ⟨host, rfl⟩ := ha
  obtain ⟨host', rfl⟩ := ha'
  exact h v host host'

theorem isPure_ofFunction (function : Value υ → Except CallbackError α) :
    (ofFunction function : Callback υ σ α).IsPure :=
  fun _ _ _ => rfl

end Callback

/-! ## Outcomes -/

/-- Which outcomes an entry has at a cursor, in a window with this end. -/
abbrev Outcomes (υ : Type) := Nat → Cursor → Cursor → Step υ → Prop

/-- No outcome is fatal. -/
def Outcomes.Calm (R : Outcomes υ) : Prop :=
  ∀ index start limit step, R index start limit step → Step.fatal? step = none

namespace Plan

/-- The plan may end in this outcome, in a window that ends at `limit`, where `R` tells the outcomes
of children. -/
def Yields (R : Outcomes υ) (limit : Cursor) : Plan υ σ (Step υ) → Step υ → Prop
  | done answer, step => answer = step
  | look next, step => (next limit).Yields R limit step
  | apply window index start next, step =>
    ∃ s, R index start (window.getD limit) s ∧ (next s).Yields R limit step
  | call _ f _ m next, step => ∃ a, f.Answers m.shown a ∧ (next a).Yields R limit step

variable {R R' : Outcomes υ} {limit : Cursor} {p : Plan υ σ (Step υ)} {step step' : Step υ}

theorem yields_done {answer : Step υ} :
    (done answer : Plan υ σ (Step υ)).Yields R limit step ↔ answer = step := .rfl

theorem yields_look {next : Cursor → Plan υ σ (Step υ)} :
    (look next).Yields R limit step ↔ (next limit).Yields R limit step := .rfl

theorem yields_bind {next : Step υ → Plan υ σ (Step υ)} : (p.bind next).Yields R limit step ↔
    ∃ s, p.Yields R limit s ∧ (next s).Yields R limit step := by
  induction p with
  | done answer => simp [Yields]
  | look rest ih => exact ih limit
  | apply window index start rest ih =>
    simp only [bind_apply, Yields, ih]
    constructor
    · rintro ⟨s, hs, s', hs', hnext⟩
      exact ⟨s', ⟨s, hs, hs'⟩, hnext⟩
    · rintro ⟨s', ⟨s, hs, hs'⟩, hnext⟩
      exact ⟨s, hs, s', hs', hnext⟩
  | call kind f start m rest ih =>
    simp only [Plan.bind, Yields, ih]
    constructor
    · rintro ⟨a, ha, s', hs', hnext⟩
      exact ⟨s', ⟨a, ha, hs'⟩, hnext⟩
    · rintro ⟨s', ⟨a, ha, hs'⟩, hnext⟩
      exact ⟨a, ha, s', hs', hnext⟩

theorem Yields.mono (h : p.Yields R limit step)
    (hR : ∀ index start limit step, R index start limit step → R' index start limit step) :
    p.Yields R' limit step := by
  induction p with
  | done answer => exact h
  | look next ih => exact ih limit h
  | apply window index start next ih =>
    obtain ⟨s, hs, hnext⟩ := h
    exact ⟨s, hR _ _ _ _ hs, ih s hnext⟩
  | call kind f start m next ih =>
    obtain ⟨a, ha, hnext⟩ := h
    exact ⟨a, ha, ih a hnext⟩

/-- Finitely many children have their outcomes at finitely many stages, so they all have them at
one. -/
theorem Yields.exists_stage {S : Nat → Outcomes υ}
    (hS : ∀ {m n index start limit step}, m ≤ n → S m index start limit step →
      S n index start limit step)
    (h : p.Yields (fun index start limit step => ∃ n, S n index start limit step) limit step) :
    ∃ n, p.Yields (S n) limit step := by
  induction p with
  | done answer => exact ⟨0, h⟩
  | look next ih => exact ih limit h
  | apply window index start next ih =>
    obtain ⟨s, ⟨m, hm⟩, hnext⟩ := h
    obtain ⟨n, hn⟩ := ih s hnext
    exact ⟨max m n, s, hS (Nat.le_max_left ..) hm,
      hn.mono fun _ _ _ _ => hS (Nat.le_max_right ..)⟩
  | call kind f start m next ih =>
    obtain ⟨a, ha, hnext⟩ := h
    obtain ⟨n, hn⟩ := ih a hnext
    exact ⟨n, a, ha, hn⟩

variable {child : Nat → Prop} {callback : ∀ γ : Type, Callback υ σ γ → Prop}

/-- Without a fatal child there is no fatal outcome. -/
theorem Yields.fatal?_eq_none (h : p.Yields R limit step) (hp : p.Strict child callback)
    (hR : R.Calm) : Step.fatal? step = none := by
  induction p with
  | done answer =>
    obtain rfl : answer = step := h
    exact hp
  | look next ih => exact ih limit h (hp limit)
  | apply window index start next ih =>
    obtain ⟨s, hs, hnext⟩ := h
    exact ih s hnext (hp.2.2 s (hR _ _ _ _ hs))
  | call kind f start m next ih =>
    obtain ⟨a, -, hnext⟩ := h
    exact ih a hnext (hp.2 a)

/-- Where children have one outcome and callbacks one answer, the plan has one outcome. -/
theorem Yields.unique (h : p.Yields R limit step) (h' : p.Yields R' limit step')
    (hp : p.Strict child fun _ f => f.IsPure) (hR : R.Calm)
    (hRR' : ∀ index start limit step step', R index start limit step →
      R' index start limit step' → step = step') : step = step' := by
  induction p with
  | done answer => exact h.symm.trans h'
  | look next ih => exact ih limit h h' (hp limit)
  | apply window index start next ih =>
    obtain ⟨s, hs, hnext⟩ := h
    obtain ⟨s', hs', hnext'⟩ := h'
    obtain rfl := hRR' _ _ _ _ _ hs hs'
    exact ih s hnext hnext' (hp.2.2 s (hR _ _ _ _ hs))
  | call kind f start m next ih =>
    obtain ⟨a, ha, hnext⟩ := h
    obtain ⟨a', ha', hnext'⟩ := h'
    obtain rfl := hp.1.unique ha ha'
    exact ih a hnext hnext' (hp.2 a)

/-- A bounded plan yields an outcome within its window if children do, and nothing else about
children is used than what they do inside the window. -/
theorem Yields.within (h : p.Yields R limit step) {start : Cursor} (hp : p.Bounded start limit)
    (hR : ∀ index cursor window step, cursor.Spans window → window.Spans limit →
      R index cursor window step → R' index cursor window step ∧ Step.Within cursor window step) :
    p.Yields R' limit step ∧ Step.Within start limit step := by
  induction p with
  | done answer =>
    obtain rfl : answer = step := h
    exact ⟨rfl, hp⟩
  | look next ih => exact ih limit h hp
  | apply window index cursor next ih =>
    obtain ⟨s, hs, hnext⟩ := h
    obtain ⟨-, hcursor, hwindow, hrest⟩ := hp
    obtain ⟨hs', hwithin⟩ := hR _ _ _ _ hcursor hwindow hs
    obtain ⟨hnext', hstep⟩ := ih s hnext (hrest s hwithin)
    exact ⟨⟨s, hs', hnext'⟩, hstep⟩
  | call kind f cursor m next ih =>
    obtain ⟨a, ha, hnext⟩ := h
    obtain ⟨hnext', hstep⟩ := ih a hnext (hp.2 a)
    exact ⟨⟨a, ha, hnext'⟩, hstep⟩

end Plan

end Packrat
