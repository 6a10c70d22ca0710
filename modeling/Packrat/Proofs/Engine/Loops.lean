import Packrat.Proofs.Engine.Moments
import Packrat.Proofs.Semantics.Adequacy

/-!
# Proofs/Engine/Loops — repetitions as loops without a bound

`Rule.continueFrom` counts down the room that is left in the window, so that it is a recursion. As a
loop it has no such number: it goes on until an element fails or consumes nothing (`Turns`). Every
element that it goes on behind consumes a bit at least, so it is the loop that ends, and never the
room. Hence a repetition applies its item no more often than once for each bit that its window
holds, and once more (`Exec.repeats`).
-/

namespace Packrat

variable {υ σ : Type}

/-! ## Loops -/

/-- What children do: at a cursor, in a state, a child ends in a step and leaves a state. -/
abbrev Applies (υ σ : Type) := Nat → Cursor → Run υ σ → Step υ → Run υ σ → Prop

/-- One element of a repetition, with the separator in front of it if there is one. The number says
how often the item is applied. -/
inductive Turn (A : Applies υ σ) (item : Nat) :
    Option Nat → Cursor → Run υ σ → Step υ → Run υ σ → Nat → Prop
  | plain {cursor run step run'} (h : A item cursor run step run') :
      Turn A item none cursor run step run' 1
  | unseparated {sep cursor run f run'} (h : A sep cursor run (.error f) run') :
      Turn A item (some sep) cursor run (.error f) run' 0
  | separated {sep cursor run m run' step run''} (hs : A sep cursor run (.ok m) run')
      (h : A item m.stop run' step run'') : Turn A item (some sep) cursor run step run'' 1

/-- What is left of a repetition at a cursor, behind these values. -/
inductive Turns (A : Applies υ σ) (item : Nat) (sep : Option Nat) :
    Cursor → Array (Value υ) → Run υ σ → Step υ → Run υ σ → Nat → Prop
  /-- An element fails for good. -/
  | fatal {cursor values run f run' items} (h : Turn A item sep cursor run (.error f) run' items)
      (hf : f.isFatal) : Turns A item sep cursor values run (.error f) run' items
  /-- An element does not match: the repetition ends in front of it. -/
  | stop {cursor values run f run' items} (h : Turn A item sep cursor run (.error f) run' items)
      (hf : ¬f.isFatal) :
      Turns A item sep cursor values run (.ok (.of cursor (.sequence values.toList))) run' items
  /-- An element consumes nothing: the repetition ends behind it. -/
  | still {cursor values run m run' items} (h : Turn A item sep cursor run (.ok m) run' items)
      (hstill : ¬cursor < m.stop) :
      Turns A item sep cursor values run
        (.ok (.of m.stop (.sequence (m.collect values).toList))) run' items
  /-- An element consumes something: the repetition goes on behind it. -/
  | go {cursor values run m run' step run'' items more}
      (h : Turn A item sep cursor run (.ok m) run' items) (hgo : cursor < m.stop)
      (hmore : Turns A item sep m.stop (m.collect values) run' step run'' more) :
      Turns A item sep cursor values run step run'' (items + more)

/-- A whole repetition. -/
inductive Repeats (A : Applies υ σ) (item : Nat) (sep : Option Nat) (needed : Bool)
    (start : Cursor) : Run υ σ → Step υ → Run υ σ → Nat → Prop
  /-- The first item fails for good. -/
  | fatal {run f run'} (h : A item start run (.error f) run') (hf : f.isFatal) :
      Repeats A item sep needed start run (.error f) run' 1
  /-- There is no item, and one is needed. -/
  | missing {run f run'} (h : A item start run (.error f) run') (hf : ¬f.isFatal)
      (hneeded : needed = true) :
      Repeats A item sep needed start run (.error (f.reportedAt start)) run' 1
  /-- There is no item, and none is needed. -/
  | none {run f run'} (h : A item start run (.error f) run') (hf : ¬f.isFatal)
      (hneeded : needed = false) :
      Repeats A item sep needed start run (.ok (.of start (.sequence []))) run' 1
  /-- The first item consumes nothing. -/
  | still {run m run'} (h : A item start run (.ok m) run') (hstill : ¬start < m.stop) :
      Repeats A item sep needed start run
        (.ok (.of m.stop (.sequence (m.collect #[]).toList))) run' 1
  /-- The first item consumes something. -/
  | go {run m run' step run'' more} (h : A item start run (.ok m) run') (hgo : start < m.stop)
      (hmore : Turns A item sep m.stop (m.collect #[]) run' step run'' more) :
      Repeats A item sep needed start run step run'' (1 + more)

/-- A repetition, from its first item on. -/
theorem Rule.repeated_eq (first next : Rule υ σ) (needed : Bool) (start : Cursor) :
    Rule.repeated first next needed start = (first start).bind fun
      | .error f =>
        if f.isFatal then .done (.error f)
        else if needed then .done (.error (f.reportedAt start))
        else .done (.ok (.of start (.sequence [])))
      | .ok m =>
        if start < m.stop then
          .look fun limit => Rule.continueFrom next (limit.bitPosition - m.stop.bitPosition) m.stop
            (m.collect #[])
        else .done (.ok (.of m.stop (.sequence (m.collect #[]).toList))) := rfl

/-- The rule of a repetition. -/
theorem Node.rule_eq_repeated {n : Node Nat υ σ} {item : Nat} {sep : Option Nat} {needed : Bool}
    (h : n.repetition? = some (item, sep, needed)) (input : Input) :
    n.rule input = .repeated (.child item) (.element item sep) needed := by
  cases n <;> cases h <;> rfl

/-! ## The engine's loops -/

theorem Run.Agrees.withLimit_eq {run run' : Run υ σ} (h : run.Agrees run') :
    run'.withLimit run.limit = run' := by
  rw [← h.limit]
  rfl

namespace Grammar

variable {g : Grammar υ σ} {config : Config} {input : Input} {budget self item : Nat}
  {sep : Option Nat} {needed : Bool} {start cursor : Cursor} {values : Array (Value υ)}
  {run run' run'' : Run υ σ} {step : Step υ}

variable (g config input budget) in
/-- What children do with `budget` more slots to enter. -/
def applies : Applies υ σ := fun c cursor run step run' =>
  g.Exec config input budget (.entry c cursor) run step run'

/-- A child in the whole window is carried out first; the plan ends with it or goes on. -/
theorem Exec.apply_cases {c : Nat} {next : Step υ → Plan υ σ (Step υ)}
    (h : g.Exec config input budget (.plan self (.apply none c start next)) run step run'') :
    ∃ s run', g.applies config input budget c start run s run' ∧
      ((∃ f f', s = .error f ∧ f.isFatal ∧ next s = .done (.error f') ∧ step = .error f'
          ∧ run'' = run') ∨
        Step.fatal? s = none ∧ g.Exec config input budget (.plan self (next s)) run' step run'') := by
  cases h with
  | abort h hf hnext hkind =>
    exact ⟨_, _, h, .inl ⟨_, _, rfl, hf, hnext, rfl, h.agrees.withLimit_eq⟩⟩
  | apply h hf hnext =>
    have hback := h.agrees.withLimit_eq
    exact ⟨_, _, h, .inr ⟨hf, hback ▸ hnext⟩⟩

/-- An element of a repetition is carried out first; a fatal failure ends the plan as it is. -/
theorem Exec.turn {onFail : Fail → Plan υ σ (Step υ)} {next : Step υ → Plan υ σ (Step υ)}
    (hnext : ∀ f : Fail, next (.error f) = if f.isFatal then .done (.error f) else onFail f)
    (h : g.Exec config input budget (.plan self ((Rule.element item sep cursor).bind next)) run
      step run'') :
    ∃ s run', ∃ items ≤ 1, Turn (g.applies config input budget) item sep cursor run s run' items ∧
      ((∃ f, s = .error f ∧ f.isFatal ∧ step = .error f ∧ run'' = run') ∨
        Step.fatal? s = none ∧ g.Exec config input budget (.plan self (next s)) run' step run'') := by
  cases sep with
  | none =>
    obtain ⟨s, run', hitem, ⟨f, f', rfl, hf, hdone, rfl, rfl⟩ | hrest⟩ := h.apply_cases
    · rw [Plan.bind_done, hnext, if_pos hf] at hdone
      cases hdone
      exact ⟨_, _, 1, Nat.le_refl 1, .plain hitem, .inl ⟨f, rfl, hf, rfl, rfl⟩⟩
    · exact ⟨_, _, 1, Nat.le_refl 1, .plain hitem, .inr hrest⟩
  | some sep =>
    obtain ⟨s, run', hsep, ⟨f, f', rfl, hf, hdone, rfl, rfl⟩ | ⟨hs, hrest⟩⟩ := h.apply_cases
    · have hdone : next (.error f) = .done (.error f') := hdone
      rw [hnext, if_pos hf] at hdone
      cases hdone
      exact ⟨_, _, 0, Nat.zero_le 1, .unseparated hsep, .inl ⟨f, rfl, hf, rfl, rfl⟩⟩
    · cases s with
      | error f => exact ⟨_, _, 0, Nat.zero_le 1, .unseparated hsep, .inr ⟨hs, hrest⟩⟩
      | ok m =>
        obtain ⟨s, run₁, hitem, ⟨f, f', rfl, hf, hdone, rfl, rfl⟩ | hrest⟩ := hrest.apply_cases
        · rw [Plan.bind_done, hnext, if_pos hf] at hdone
          cases hdone
          exact ⟨_, _, 1, Nat.le_refl 1, .separated hsep hitem, .inl ⟨f, rfl, hf, rfl, rfl⟩⟩
        · exact ⟨_, _, 1, Nat.le_refl 1, .separated hsep hitem, .inr hrest⟩

/-- An element ends within the window, and leaves the window as it was. -/
theorem turn_inBounds {items : Nat}
    (h : Turn (g.applies config input budget) item sep cursor run step run' items)
    (hcursor : cursor.Spans run.limit) (hrun : run.InBounds input) :
    run.Agrees run' ∧ Step.Within cursor run.limit step ∧ run'.InBounds input := by
  cases h with
  | plain h => exact ⟨h.agrees, h.inBounds ⟨rfl, hcursor⟩ hrun⟩
  | unseparated h => exact ⟨h.agrees, h.inBounds ⟨rfl, hcursor⟩ hrun⟩
  | @separated sep cursor run m run₁ step run' hs h =>
    obtain ⟨⟨hstart, hstop⟩, hrun₁⟩ := hs.inBounds ⟨rfl, hcursor⟩ hrun
    have hlimit : run₁.limit = run.limit := hs.agrees.limit
    obtain ⟨hstep, hrun'⟩ := h.inBounds ⟨rfl, hlimit ▸ hstop⟩ hrun₁
    rw [hlimit] at hstep
    exact ⟨hs.agrees.trans h.agrees, hstep.widen hstart (.refl hstop.right), hrun'⟩

/-- **The room that is left never ends a loop**, and bounds how often the item is applied. -/
theorem Exec.turns {room : Nat}
    (h : g.Exec config input budget
      (.plan self (Rule.continueFrom (.element item sep) room cursor values)) run step run')
    (hroom : run.limit.bitPosition ≤ cursor.bitPosition + room) (hcursor : cursor.Spans run.limit)
    (hrun : run.InBounds input) :
    ∃ items ≤ room + 1,
      Turns (g.applies config input budget) item sep cursor values run step run' items := by
  induction room using Nat.strongRecOn generalizing cursor values run with
  | ind room ih =>
    rw [Rule.continueFrom_eq] at h
    obtain ⟨s, run₁, items, hitems, hturn, ⟨f, rfl, hf, rfl, rfl⟩ | ⟨hs, hrest⟩⟩ :=
      h.turn fun _ => rfl
    · exact ⟨items, by omega, .fatal hturn hf⟩
    · obtain ⟨hagrees, hwithin, hrun₁⟩ := turn_inBounds hturn hcursor hrun
      cases s with
      | error f =>
        have hf : ¬f.isFatal := Step.fatal?_error_eq_none_iff.1 hs
        dsimp only at hrest
        rw [if_neg hf] at hrest
        cases hrest
        exact ⟨items, by omega, .stop hturn hf⟩
      | ok m =>
        obtain ⟨hstart, hstop⟩ := hwithin
        dsimp only at hrest
        split at hrest
        · next hgo =>
          have hbits := (Cursor.lt_iff_bitPosition_lt hstart.left hstart.right).1 hgo
          have hend := hstop.bitPosition_le
          cases room with
          | zero => omega
          | succ room =>
            rw [← hagrees.limit] at hroom hstop
            obtain ⟨more, hmore, hturns⟩ := ih room (Nat.lt_succ_self room) hrest (by omega) hstop hrun₁
            exact ⟨items + more, by omega, .go hturn hgo hturns⟩
        · next hstill =>
          cases hrest
          exact ⟨items, by omega, .still hturn hstill⟩

/-- **A repetition is a loop without a bound**, and applies its item no more often than once for
each bit that its window holds, and once more. -/
theorem Exec.repeats
    (h : g.Exec config input budget
      (.plan self (Rule.repeated (.child item) (.element item sep) needed start)) run step run')
    (hstart : start.Spans run.limit) (hrun : run.InBounds input) :
    ∃ items ≤ run.limit.bitPosition - start.bitPosition + 1,
      Repeats (g.applies config input budget) item sep needed start run step run' items := by
  rw [Rule.repeated_eq] at h
  obtain ⟨s, run₁, hitem, ⟨f, f', rfl, hf, hdone, rfl, rfl⟩ | ⟨hs, hrest⟩⟩ := h.apply_cases
  · simp only [Plan.bind_done, if_pos hf] at hdone
    cases hdone
    exact ⟨1, by omega, .fatal hitem hf⟩
  · obtain ⟨hwithin, hrun₁⟩ := hitem.inBounds ⟨rfl, hstart⟩ hrun
    simp only [Plan.bind_done] at hrest
    cases s with
    | error f =>
      have hf : ¬f.isFatal := Step.fatal?_error_eq_none_iff.1 hs
      simp only [if_neg hf] at hrest
      cases needed with
      | true =>
        cases hrest
        exact ⟨1, by omega, .missing hitem hf rfl⟩
      | false =>
        cases hrest
        exact ⟨1, by omega, .none hitem hf rfl⟩
    | ok m =>
      obtain ⟨hbefore, hstop⟩ := hwithin
      dsimp only at hrest
      split at hrest
      · next hgo =>
        have hbits := (Cursor.lt_iff_bitPosition_lt hbefore.left hbefore.right).1 hgo
        have hend := hstop.bitPosition_le
        have hlimit : run₁.limit = run.limit := hitem.agrees.limit
        cases hrest with
        | look hrest =>
          obtain ⟨more, hmore, hturns⟩ :=
            hrest.turns (by omega) (hlimit ▸ hstop) hrun₁
          rw [hlimit] at hmore
          exact ⟨1 + more, by omega, .go hitem hgo hturns⟩
      · next hstill =>
        cases hrest
        exact ⟨1, by omega, .still hitem hstill⟩

end Grammar

end Packrat
