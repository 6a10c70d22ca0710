import Packrat.Proofs.Engine.Moments

/-!
# Proofs/Engine/Nesting — evaluations inside one another

A node's children stand before it, so between two slots evaluations are nested no deeper than the
grammar has entries. The trace shows it: an evaluation and its end are a pair of brackets, and what
happens meanwhile stands between them (`Event.Nested`).

Main statement: `Exec.nested`. With `budget` more slots to enter, evaluations are nested no more than
`budget + 1` times as deep as the grammar is long.
-/

namespace Packrat

variable {υ σ : Type}

/-! ## Brackets -/

namespace Event

/-- Whether an evaluation starts or ends. -/
def isBracket : Event υ → Bool
  | evaluated _ | settled .. => true
  | _ => false

/-- The events are those of evaluations nested at most so deep; each ends where it has started,
before the one around it ends. -/
inductive Nested : Nat → List (Event υ) → Prop
  /-- Nothing happens. -/
  | nil {depth} : Nested depth []
  /-- Something happens that is no evaluation. -/
  | other {depth e events} (he : e.isBracket = false) (h : Nested depth events) :
      Nested depth (e :: events)
  /-- A node is matched afresh, and other things happen meanwhile. -/
  | evaluation {depth site step inner events} (hinner : Nested depth inner)
      (h : Nested (depth + 1) events) :
      Nested (depth + 1) (.evaluated site :: (inner ++ .settled site step :: events))

namespace Nested

variable {depth depth' : Nat} {events events' : List (Event υ)}

theorem mono (hdepth : depth ≤ depth') (h : Nested depth events) : Nested depth' events := by
  induction h generalizing depth' with
  | nil => exact .nil
  | other he _ ih => exact .other he (ih hdepth)
  | evaluation _ _ ihInner ih =>
    obtain ⟨rest, rfl⟩ := Nat.exists_eq_add_of_lt hdepth
    exact .evaluation (ihInner (by omega)) (ih hdepth)

theorem append (h : Nested depth events) (h' : Nested depth events') :
    Nested depth (events ++ events') := by
  induction h with
  | nil => exact h'
  | other he _ ih => exact .other he (ih h')
  | @evaluation depth site step inner events hinner _ _ ih =>
    rw [List.cons_append, List.append_assoc, List.cons_append]
    exact .evaluation hinner (ih h')

theorem of_forall (h : ∀ e ∈ events, e.isBracket = false) : Nested depth events := by
  induction events with
  | nil => exact .nil
  | cons e events ih =>
    exact .other (h e List.mem_cons_self) (ih fun e' he' => h e' (List.mem_cons_of_mem e he'))

/-- A whole evaluation is one deeper than what happens meanwhile. -/
theorem evaluated (h : Nested depth events) (site : Site) (step : Step υ) :
    Nested (depth + 1) (.evaluated site :: (events ++ [.settled site step])) :=
  .evaluation h .nil

end Nested

end Event

/-! ## Tasks of a grammar -/

namespace Task

/-- The task is one of the grammar: an entry, or a plan that matches entries before its node. -/
def Of (g : Grammar υ σ) : Task υ σ → Prop
  | entry i _ => i < g.entries.size
  | plan self p => self < g.entries.size ∧ p.Strict (· < self) fun _ _ => True

/-- How deep evaluations are nested while the task is carried out. -/
def nesting (g : Grammar υ σ) (budget : Nat) : Task υ σ → Nat
  | entry i _ => budget * g.entries.size + (i + 1)
  | plan self _ => budget * g.entries.size + self

variable {g : Grammar υ σ} {i self c : Nat} {n : Node Nat υ σ} {start : Cursor}
  {window : Option Cursor} {next : Step υ → Plan υ σ (Step υ)} {step : Step υ}

theorem Of.rule (he : g.entries[i]? = some (.node n)) (input : Input) (start : Cursor) :
    (plan i (n.rule input start)).Of g :=
  ⟨Grammar.lt_size_of_entry he, n.strict_children input (Grammar.child_lt_of_entry he) start⟩

theorem Of.child (h : (plan self (.apply window c start next)).Of g) :
    (entry c start : Task υ σ).Of g :=
  Nat.lt_trans h.2.1 h.1

theorem Of.rest (h : (plan self (.apply window c start next)).Of g)
    (hf : Step.fatal? step = none) : (plan self (next step)).Of g :=
  ⟨h.1, h.2.2.2 step hf⟩

/-- An entry is nested one deeper than the plan of its node. -/
theorem nested_entry {budget : Nat} {p : Plan υ σ (Step υ)} {events : List (Event υ)}
    (h : Event.Nested ((plan i p).nesting g budget) events) (site : Site) (step : Step υ) :
    Event.Nested ((entry i start : Task υ σ).nesting g budget)
      (.evaluated site :: (events ++ [.settled site step])) :=
  h.evaluated site step

/-- A child is nested no deeper than the plan that matches it. -/
theorem nesting_child_le (h : (plan self (.apply window c start next)).Of g) (budget : Nat) :
    (entry c start : Task υ σ).nesting g budget
      ≤ (plan self (.apply window c start next)).nesting g budget :=
  Nat.add_le_add_left h.2.1 _

/-- Behind a slot there is room for all entries once more. -/
theorem nesting_target_le (hi : i < g.entries.size) (j budget : Nat) :
    (entry i start : Task υ σ).nesting g budget
      ≤ (entry j start : Task υ σ).nesting g (budget + 1) := by
  rw [nesting, nesting, Nat.succ_mul]
  omega

end Task

/-! ## Evaluations of a run -/

namespace Grammar

variable {g : Grammar υ σ} {config : Config} {input : Input} {budget : Nat} {task : Task υ σ}
  {run run' : Run υ σ} {step : Step υ}

/-- **Evaluations are nested no deeper than the task allows**, however it ends. -/
theorem Exec.nested (h : g.Exec config input budget task run step run') (htask : task.Of g) :
    ∃ events, run'.trace.toList = run.trace.toList ++ events
      ∧ Event.Nested (task.nesting g budget) events := by
  induction h with
  | recalled => exact ⟨_, Array.toList_push .., .other rfl .nil⟩
  | @stored budget i start run n step run' hm he hs h ih =>
    obtain ⟨events, htrace, hnested⟩ := ih (.rule he input start)
    refine ⟨_, ?_, Task.nested_entry hnested (run.site i start) step⟩
    simp [htrace]
  | @fresh budget i start run n step run' hm he h ih =>
    obtain ⟨events, htrace, hnested⟩ := ih (.rule he input start)
    refine ⟨_, ?_, Task.nested_entry hnested (run.site i start) step⟩
    simp [htrace]
  | reentered => exact ⟨_, Array.toList_push .., .other rfl .nil⟩
  | tooDeep => exact ⟨_, Array.toList_push .., .other rfl .nil⟩
  | @entered budget i start run slot target step run' he ht ha h ih =>
    have htarget := target_lt_size ht
    obtain ⟨events, htrace, hnested⟩ := ih htarget
    refine ⟨.entered slot (run.site target start :: run.active) (run.depth + 1) :: events, ?_,
      .other rfl (hnested.mono (Task.nesting_target_le htarget i budget))⟩
    simp [htrace]
  | done => exact ⟨[], (List.append_nil _).symm, .nil⟩
  | look h ih => exact ih ⟨htask.1, htask.2 _⟩
  | abort h hf hnext hkind ih =>
    obtain ⟨events, htrace, hnested⟩ := ih htask.child
    exact ⟨events, htrace, hnested.mono (Task.nesting_child_le htask _)⟩
  | apply h hf hnext ihChild ihNext =>
    obtain ⟨events, htrace, hnested⟩ := ihChild htask.child
    obtain ⟨events', htrace', hnested'⟩ := ihNext (htask.rest hf)
    refine ⟨events ++ events', ?_, (hnested.mono (Task.nesting_child_le htask _)).append hnested'⟩
    rw [htrace', Run.trace_withLimit, htrace, Run.trace_withLimit, List.append_assoc]
  | @call budget self run β kind start m next step run' f hnext ih =>
    obtain ⟨events, htrace, hevents⟩ := Matcher.trace_call self kind f start m run
    obtain ⟨events', htrace', hnested'⟩ := ih ⟨htask.1, htask.2.2 _⟩
    have hother : ∀ e ∈ events, e.isBracket = false := by
      intro e he
      obtain rfl | ⟨message, rfl⟩ := hevents e he
      · rfl
      · rfl
    refine ⟨events ++ events', ?_, Event.Nested.append (.of_forall hother) hnested'⟩
    rw [htrace', htrace, List.append_assoc]

end Grammar

end Packrat
