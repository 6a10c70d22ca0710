import Packrat.Proofs.Engine.Recursion
import Packrat.Proofs.Plan.Outcomes

/-!
# Proofs/Semantics/Settles — outcomes by height

`Grammar.SettlesIn g input n` are the outcomes that entries have when rules are nested at most `n`
deep, with no memo, no targets being followed and no bound on slots. The number makes it a
recursion, and gives a measure to what has an outcome at all (`Grammar.Settles`): what needs its own
outcome has none. Rows and alternatives, and actions on them, report failures where they start
(`Grammar.AtStart`).
-/

namespace Packrat.Grammar

variable {υ σ : Type}

/-! ## Outcomes by height -/

/-- The entry has the outcome, by rules nested less than `n` deep. -/
def SettlesIn (g : Grammar υ σ) (input : Input) : Nat → Outcomes υ
  | 0, _, _, _, _ => False
  | n + 1, index, start, limit, step =>
    match g.entries[index]? with
    | some (.node node) => (node.rule input start).Yields (g.SettlesIn input n) limit step
    | some (.indirect slot) =>
      ∃ target, g.targets[slot.index]? = some target ∧ g.SettlesIn input n target start limit step
    | none => False

/-- The entry has the outcome. -/
def Settles (g : Grammar υ σ) (input : Input) : Outcomes υ :=
  fun index start limit step => ∃ n, g.SettlesIn input n index start limit step

/-- The answers of all callbacks depend on the values alone. -/
def PureCallbacks (g : Grammar υ σ) : Prop :=
  ∀ (i : Nat) node, g.entries[i]? = some (.node node) → node.Calls fun _ f => f.IsPure

variable {g : Grammar υ σ} {input : Input} {n m i target : Nat} {node : Node Nat υ σ} {slot : Slot}
  {start limit : Cursor} {step step' : Step υ}

theorem settlesIn_node (he : g.entries[i]? = some (.node node)) :
    g.SettlesIn input (n + 1) i start limit step ↔
      (node.rule input start).Yields (g.SettlesIn input n) limit step := by
  rw [SettlesIn, he]

theorem settlesIn_indirect (he : g.entries[i]? = some (.indirect slot))
    (ht : g.targets[slot.index]? = some target) :
    g.SettlesIn input (n + 1) i start limit step ↔
      g.SettlesIn input n target start limit step := by
  rw [SettlesIn, he]
  simp [ht]

theorem SettlesIn.mono (hnm : n ≤ m) (h : g.SettlesIn input n i start limit step) :
    g.SettlesIn input m i start limit step := by
  induction n generalizing m i start limit step with
  | zero => exact h.elim
  | succ n ih =>
    cases m with
    | zero => omega
    | succ m =>
      have hnm := Nat.le_of_succ_le_succ hnm
      rw [SettlesIn] at h ⊢
      split at h
      · exact h.mono fun _ _ _ _ => ih hnm
      · obtain ⟨target, ht, h⟩ := h
        exact ⟨target, ht, ih hnm h⟩
      · exact h.elim

/-- No outcome is a fatal failure. -/
theorem SettlesIn.fatal?_eq_none (h : g.SettlesIn input n i start limit step) :
    Step.fatal? step = none := by
  induction n generalizing i start limit step with
  | zero => exact h.elim
  | succ n ih =>
    rw [SettlesIn] at h
    split at h
    · next node he =>
      exact h.fatal?_eq_none (node.strict_children input (fun _ hc => hc) start) fun _ _ _ _ => ih
    · obtain ⟨target, -, h⟩ := h
      exact ih h
    · exact h.elim

theorem settlesIn_calm (g : Grammar υ σ) (input : Input) (n : Nat) : (g.SettlesIn input n).Calm :=
  fun _ _ _ _ h => h.fatal?_eq_none

/-- **There is at most one outcome**, if callbacks are pure. -/
theorem SettlesIn.unique (hpure : g.PureCallbacks) (h : g.SettlesIn input n i start limit step)
    (h' : g.SettlesIn input m i start limit step') : step = step' := by
  induction n generalizing m i start limit step step' with
  | zero => exact h.elim
  | succ n ih =>
    cases m with
    | zero => exact h'.elim
    | succ m =>
      rw [SettlesIn] at h h'
      split at h
      · next node he =>
        rw [he] at h'
        exact h.unique h' (node.strict_rule input (fun _ hc => hc) (hpure i node he) start)
          (settlesIn_calm g input n) fun _ _ _ _ _ => ih
      · next slot he =>
        rw [he] at h'
        obtain ⟨target, ht, h⟩ := h
        obtain ⟨target', ht', h'⟩ := h'
        obtain rfl := Option.some.inj (ht.symm.trans ht')
        exact ih h h'
      · exact h.elim

/-- Outcomes lie within their windows. -/
theorem SettlesIn.within (h : g.SettlesIn input n i start limit step) (hstart : start.Spans limit) :
    Step.Within start limit step := by
  induction n generalizing i start limit step with
  | zero => exact h.elim
  | succ n ih =>
    rw [SettlesIn] at h
    split at h
    · next node he =>
      exact (h.within (node.bounded_rule input limit start hstart)
        fun _ _ _ _ hs _ hR => ⟨hR, ih hR hs⟩).2
    · obtain ⟨target, -, h⟩ := h
      exact ih h hstart
    · exact h.elim

/-! ## Outcomes -/

theorem settles_node (he : g.entries[i]? = some (.node node)) :
    g.Settles input i start limit step ↔
      (node.rule input start).Yields (g.Settles input) limit step := by
  constructor
  · rintro ⟨_ | n, h⟩
    · exact h.elim
    · exact ((settlesIn_node he).1 h).mono fun _ _ _ _ h => ⟨n, h⟩
  · intro h
    obtain ⟨n, hn⟩ := Plan.Yields.exists_stage (S := g.SettlesIn input) SettlesIn.mono h
    exact ⟨n + 1, (settlesIn_node he).2 hn⟩

theorem settles_indirect (he : g.entries[i]? = some (.indirect slot))
    (ht : g.targets[slot.index]? = some target) :
    g.Settles input i start limit step ↔ g.Settles input target start limit step := by
  constructor
  · rintro ⟨_ | n, h⟩
    · exact h.elim
    · exact ⟨n, (settlesIn_indirect he ht).1 h⟩
  · rintro ⟨n, h⟩
    exact ⟨n + 1, (settlesIn_indirect he ht).2 h⟩

theorem settles_calm (g : Grammar υ σ) (input : Input) : (g.Settles input).Calm :=
  fun _ _ _ _ ⟨_, h⟩ => h.fatal?_eq_none

theorem settles_calm_child (index : Nat) :
    (Rule.child index : Rule υ σ).Calm (g.Settles input) limit :=
  Rule.calm_child (settles_calm g input) index

theorem Settles.unique (hpure : g.PureCallbacks) (h : g.Settles input i start limit step)
    (h' : g.Settles input i start limit step') : step = step' :=
  let ⟨_, h⟩ := h
  let ⟨_, h'⟩ := h'
  h.unique hpure h'

theorem Settles.within (h : g.Settles input i start limit step) (hstart : start.Spans limit) :
    Step.Within start limit step :=
  let ⟨_, h⟩ := h
  h.within hstart

/-! ## Failures reported at the start -/

variable {cursor : Cursor} {parts : List Nat} {j : Nat}

/-- Failures of the entry are reported where it was tried. -/
def AtStart (g : Grammar υ σ) (i : Nat) : Prop :=
  ∀ {input start limit f}, g.Settles input i start limit (.error f) → f.position = start

theorem position_sequenceFrom {values : Array (Value υ)} {f : Fail}
    (h : (Rule.sequenceFrom start (parts.map (Rule.child (σ := σ))) cursor values).Yields
      (g.Settles input) limit (.error f)) : f.position = start := by
  induction parts generalizing cursor values with
  | nil => cases h
  | cons c parts ih =>
    obtain ⟨f', -, hf⟩ | ⟨m, -, hrest⟩ := Rule.yields_sequenceFrom_cons.1 h
    · obtain rfl := Except.error.inj hf
      rfl
    · exact ih hrest

theorem position_choiceFrom {best : Option Fail} {f : Fail}
    (h : (Rule.choiceFrom start (parts.map (Rule.child (σ := σ))) best).Yields (g.Settles input)
      limit (.error f)) : f.position = start := by
  induction parts generalizing best with
  | nil =>
    obtain rfl := Except.error.inj h
    cases best <;> rfl
  | cons c parts ih =>
    obtain ⟨f', -, hrest⟩ | ⟨m, -, hm⟩ :=
      (Rule.yields_choiceFrom_cons (settles_calm_child c)).1 h
    · exact ih hrest
    · cases hm

theorem atStart_sequence (he : g.entries[i]? = some (.node (.sequence parts))) : g.AtStart i :=
  fun h => position_sequenceFrom ((settles_node he).1 h)

theorem atStart_choice (he : g.entries[i]? = some (.node (.choice parts))) : g.AtStart i :=
  fun h => position_choiceFrom ((settles_node he).1 h)

/-- An action reports what the entry under it reports, and a refusal where it was tried. -/
theorem AtStart.action {act : Action υ σ} (he : g.entries[i]? = some (.node (.action j act)))
    (h : g.AtStart j) : g.AtStart i := by
  intro input start limit f hs
  obtain ⟨f', hf', heq⟩ | ⟨m, -, ⟨e, -, heq⟩ | ⟨v, -, heq⟩⟩ := Rule.yields_action.1
    ((settles_node he).1 hs)
  · obtain rfl := Except.error.inj heq
    exact h (Rule.yields_child.1 hf')
  · obtain rfl := Except.error.inj heq
    rfl
  · cases heq

/-- The entry makes something of a row or of alternatives. -/
def makesOfParts (g : Grammar υ σ) (i : Nat) : Bool :=
  match g.entries[i]? with
  | some (.node (.action j _)) =>
    match g.entries[j]? with
    | some (.node (.sequence _)) | some (.node (.choice _)) => true
    | _ => false
  | _ => false

theorem atStart_of_makesOfParts (h : g.makesOfParts i) : g.AtStart i := by
  unfold makesOfParts at h
  split at h
  · next j act he =>
    split at h
    · next parts hj => exact AtStart.action he (atStart_sequence hj)
    · next parts hj => exact AtStart.action he (atStart_choice hj)
    · cases h
  · cases h

end Packrat.Grammar
