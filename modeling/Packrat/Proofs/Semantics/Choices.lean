import Packrat.Proofs.Semantics.Unrolled

/-!
# Proofs/Semantics/Choices — alternatives, in order

Alternatives are tried in order. Those that fail, but not for good, are refused (`Refused`), and the
first that is not decides: its outcome is that of the choice, and nothing is done behind it. If all
are refused, the choice tells of the failure that got furthest, the first of those on a tie
(`Furthest`). So `Chooses` says what comes of alternatives, whatever the children are: the engine in
a state, or the rules of inference. Main statement: `choice_committed`.
-/

namespace Packrat

variable {υ σ ρ : Type}

/-! ## The failure that got furthest -/

/-- Of the failures the first of those that got furthest, if there is any. -/
def Furthest (fails : List Fail) : Option Fail → Prop
  | none => fails = []
  | some f => ∃ before after, fails = before ++ f :: after
      ∧ (∀ g ∈ before, g.deepest < f.deepest) ∧ ∀ g ∈ after, g.deepest ≤ f.deepest

/-- With one failure more, that one gets furthest, or the one that did before. -/
theorem Furthest.concat {fails : List Fail} {best : Option Fail} (h : Furthest fails best)
    (f : Fail) : Furthest (fails ++ [f]) (some ((best.map (·.deeper f)).getD f)) := by
  cases best with
  | none =>
    obtain rfl : fails = [] := h
    exact ⟨[], [], rfl, by simp, by simp⟩
  | some b =>
    obtain ⟨before, after, rfl, hbefore, hafter⟩ := h
    rw [Option.map_some, Option.getD_some, Fail.deeper]
    split
    · next hlt =>
      -- It got further than the best, and so further than all others.
      refine ⟨before ++ b :: after, [], rfl, fun g hg => ?_, by simp⟩
      obtain hg | rfl | hg := by simpa only [List.mem_append, List.mem_cons] using hg
      · exact Std.lt_trans (hbefore g hg) hlt
      · exact hlt
      · exact Std.lt_of_le_of_lt (hafter g hg) hlt
    · next hlt =>
      refine ⟨before, after ++ [f], by rw [List.append_assoc, List.cons_append], hbefore, ?_⟩
      intro g hg
      obtain hg | rfl := by simpa only [List.mem_append, List.mem_singleton] using hg
      · exact hafter g hg
      · exact Std.not_lt.1 hlt

theorem Furthest.mem {fails : List Fail} {f : Fail} (h : Furthest fails (some f)) : f ∈ fails := by
  obtain ⟨before, after, rfl, -, -⟩ := h
  exact List.mem_append_right _ List.mem_cons_self

/-- The failure that a choice reports at `start` when the best of its failures is this one. -/
def Fail.chosen (start : Cursor) (best : Option Fail) : Fail :=
  (best.map (·.movedTo start)).getD (.noMatch start)

/-- Failures inside a window are only moved when they are reported where it starts. -/
theorem Furthest.reportedAt_eq {fails : List Fail} {best : Option Fail} (h : Furthest fails best)
    {start limit : Cursor} (hwithin : ∀ f ∈ fails, f.Within start limit) :
    (best.map (·.reportedAt start)).getD (.noMatch start) = Fail.chosen start best := by
  cases best with
  | none => rfl
  | some f =>
    have hf := hwithin f h.mem
    exact Fail.Within.reportedAt_eq hf hf.before.self

/-! ## Alternatives -/

/-- The outcome is no failure, or one for good. -/
def Step.Decides (step : Step υ) : Prop := ∀ f, step = .error f → f.isFatal

/-- The alternatives fail one after the other, none of them for good. -/
inductive Refused (A : Nat → ρ → Step υ → ρ → Prop) : List Nat → ρ → List Fail → ρ → Prop
  | nil {r} : Refused A [] r [] r
  | cons {c cs r f r' fails r''} (h : A c r (.error f) r') (hf : ¬f.isFatal)
      (hrest : Refused A cs r' fails r'') : Refused A (c :: cs) r (f :: fails) r''

/-- What comes of alternatives at `start`. -/
inductive Chooses (A : Nat → ρ → Step υ → ρ → Prop) (start : Cursor) (alternatives : List Nat)
    (r : ρ) : Step υ → ρ → Prop
  /-- The first that is not refused decides, and those behind it are not tried. -/
  | decided {before c after fails r' step r''} (hsplit : alternatives = before ++ c :: after)
      (hbefore : Refused A before r fails r') (h : A c r' step r'') (hdecides : step.Decides) :
      Chooses A start alternatives r step r''
  /-- All are refused. -/
  | refused {fails best r'} (h : Refused A alternatives r fails r') (hbest : Furthest fails best) :
      Chooses A start alternatives r (.error (.chosen start best)) r'

section

variable {A : Nat → ρ → Step υ → ρ → Prop} {start limit : Cursor} {c : Nat} {cs : List Nat}
  {r r' r'' : ρ} {f : Fail} {fails : List Fail} {step : Step υ}

/-- What holds of each failure, in states that have what each attempt keeps, holds of those of
alternatives that are refused. -/
theorem Refused.forall {I : ρ → Prop} {P : Fail → Prop} (h : Refused A cs r fails r') (hr : I r)
    (hP : ∀ {c r f r'}, I r → A c r (.error f) r' → I r' ∧ P f) : ∀ f ∈ fails, P f := by
  induction h with
  | nil => exact fun f hf => absurd hf List.not_mem_nil
  | cons h hf hrest ih =>
    obtain ⟨hr', hfail⟩ := hP hr h
    exact List.forall_mem_cons.2 ⟨hfail, ih hr'⟩

/-! A loop over alternatives keeps the failure that got furthest. -/

variable {L : List Nat → Option Fail → ρ → Step υ → ρ → Prop}
  (hnil : ∀ {best r step r'}, L [] best r step r' →
    step = .error ((best.map (·.reportedAt start)).getD (.noMatch start)) ∧ r' = r)
  (hcons : ∀ {c cs best r step r''}, L (c :: cs) best r step r'' → ∃ s r', A c r s r' ∧
    ((s.Decides ∧ step = s ∧ r'' = r') ∨ ∃ f, s = .error f ∧ ¬f.isFatal
      ∧ L cs (some ((best.map (·.deeper f)).getD f)) r' step r''))

include hnil hcons

theorem refused_of_loop {seen : List Fail} {best : Option Fail} (hseen : Furthest seen best)
    (h : L cs best r step r'') :
    (∃ before c after fails r', cs = before ++ c :: after ∧ Refused A before r fails r'
        ∧ A c r' step r'' ∧ step.Decides) ∨
      ∃ fails best', Refused A cs r fails r'' ∧ Furthest (seen ++ fails) best'
        ∧ step = .error ((best'.map (·.reportedAt start)).getD (.noMatch start)) := by
  induction cs generalizing seen best r with
  | nil =>
    obtain ⟨rfl, rfl⟩ := hnil h
    exact .inr ⟨[], best, .nil, by rwa [List.append_nil], rfl⟩
  | cons c cs ih =>
    obtain ⟨s, r', hc, ⟨hs, rfl, rfl⟩ | ⟨f, rfl, hf, hrest⟩⟩ := hcons h
    · exact .inl ⟨[], c, cs, [], r, rfl, .nil, hc, hs⟩
    · obtain ⟨before, d, after, fails, r₁, rfl, hbefore, hd, hdecides⟩ |
        ⟨fails, best', hrefused, hfurthest, hstep⟩ := ih (hseen.concat f) hrest
      · exact .inl ⟨c :: before, d, after, f :: fails, r₁, rfl, .cons hc hf hbefore, hd, hdecides⟩
      · rw [List.append_assoc, List.singleton_append] at hfurthest
        exact .inr ⟨f :: fails, best', .cons hc hf hrefused, hfurthest, hstep⟩

/-- **Such a loop chooses**, if what fails does so inside the window. -/
theorem chooses_of_loop {I : ρ → Prop} (hr : I r)
    (hwithin : ∀ {c r f r'}, I r → A c r (.error f) r' → I r' ∧ f.Within start limit)
    (h : L cs none r step r'') : Chooses A start cs r step r'' := by
  have hseen : Furthest [] none := rfl
  obtain ⟨before, c, after, fails, r', hsplit, hbefore, hc, hdecides⟩ |
    ⟨fails, best, hrefused, hbest, rfl⟩ := refused_of_loop hnil hcons hseen h
  · exact .decided hsplit hbefore hc hdecides
  · rw [hbest.reportedAt_eq (hrefused.forall hr hwithin)]
    exact .refused hrefused hbest

end

namespace Grammar

variable {g : Grammar υ σ} {config : Config} {input : Input} {budget self i c : Nat}
  {ps cs : List Nat} {start limit : Cursor} {best : Option Fail} {run run' : Run υ σ}
  {step : Step υ}

/-! ## In one state -/

theorem choiceFrom_cons (start : Cursor) (c : Nat) (cs : List Nat) (best : Option Fail) :
    (Rule.choiceFrom start ((c :: cs).map .child) best : Plan υ σ (Step υ))
      = .apply none c start fun
        | .ok m => .done (.ok m)
        | .error f =>
          if f.isFatal then .done (.error f)
          else Rule.choiceFrom start (cs.map .child) (some ((best.map (·.deeper f)).getD f)) := rfl

/-- The first alternative decides, or the loop goes on with the others. -/
theorem Exec.choiceFrom_cases (h : g.Exec config input budget
      (.plan self (Rule.choiceFrom start ((c :: cs).map .child) best)) run step run') :
    ∃ s run₁, g.applies config input budget c start run s run₁ ∧
      ((s.Decides ∧ step = s ∧ run' = run₁) ∨ ∃ f, s = .error f ∧ ¬f.isFatal
        ∧ g.Exec config input budget (.plan self (Rule.choiceFrom start (cs.map .child)
          (some ((best.map (·.deeper f)).getD f)))) run₁ step run') := by
  rw [choiceFrom_cons] at h
  obtain ⟨s, run₁, hc, ⟨f, f', rfl, hf, hnext, rfl, rfl⟩ | ⟨hf, hnext⟩⟩ := h.apply_cases
  · dsimp only at hnext
    rw [if_pos hf] at hnext
    cases hnext
    exact ⟨_, run', hc, .inl ⟨fun f' h => Except.error.inj h ▸ hf, rfl, rfl⟩⟩
  · cases s with
    | ok m =>
      obtain ⟨rfl, rfl⟩ := Exec.of_done hnext
      exact ⟨_, run', hc, .inl ⟨fun f h => (nomatch h), rfl, rfl⟩⟩
    | error f =>
      have hcalm : ¬f.isFatal := Step.fatal?_error_eq_none_iff.1 hf
      dsimp only at hnext
      rw [if_neg hcalm] at hnext
      exact ⟨_, run₁, hc, .inr ⟨f, rfl, hcalm, hnext⟩⟩

/-- **The engine chooses.** -/
theorem Exec.chooses (h : g.Exec config input budget
      (.plan self (Rule.choiceFrom start (ps.map .child) none)) run step run')
    (hstart : start.Spans run.limit) (hrun : run.InBounds input) :
    Chooses (fun c => g.applies config input budget c start) start ps run step run' := by
  have hwithin : ∀ {c : Nat} {r : Run υ σ} {f : Fail} {r' : Run υ σ},
      r.InBounds input ∧ r.limit = run.limit →
      g.applies config input budget c start r (.error f) r' →
      (r'.InBounds input ∧ r'.limit = run.limit) ∧ f.Within start run.limit := by
    rintro c r f r' ⟨hbounds, hlimit⟩ hc
    obtain ⟨hf, hbounds'⟩ := hc.inBounds ⟨rfl, hlimit ▸ hstart⟩ hbounds
    exact ⟨⟨hbounds', hc.agrees.limit.trans hlimit⟩, hlimit ▸ hf⟩
  exact chooses_of_loop (L := fun ps best run step run' => g.Exec config input budget
    (.plan self (Rule.choiceFrom start (ps.map .child) best)) run step run')
    Exec.of_done Exec.choiceFrom_cases ⟨hrun, rfl⟩ hwithin h

/-- The state that an evaluation leaves behind it. -/
def settle (config : Config) (site : Site) (step : Step υ) (run : Run υ σ) : Run υ σ :=
  if config.memoize then (run.note (.settled site step)).remember site step
  else run.note (.settled site step)

/-- The outcome of a combinator is remembered, or its plan is carried out, and nothing else is left
behind. -/
theorem Exec.settle_cases {n : Node Nat υ σ}
    (h : g.Exec config input budget (.entry i start) run step run') (he : g.IsNode i n) :
    (config.memoize = true ∧ run.memo[run.site i start]? = some step) ∨
      Forgets config run i start ∧ ∃ run₁, g.Exec config input budget
          (.plan i (n.rule input start)) (run.note (.evaluated (run.site i start))) step run₁
        ∧ run' = settle config (run.site i start) step run₁ := by
  cases hm : config.memoize with
  | true =>
    obtain ⟨hs, -⟩ | ⟨hnone, run₁, hplan, rfl⟩ := h.node_cases hm he
    · exact .inl ⟨rfl, hs⟩
    · refine .inr ⟨fun _ => hnone, run₁, hplan, ?_⟩
      rw [settle, if_pos hm]
  | false =>
    obtain ⟨run₁, hplan⟩ := h.plan_of_plain hm he
    refine .inr ⟨fun h => (nomatch hm.symm.trans h), run₁, hplan, ?_⟩
    rw [settle, hm]
    exact (Exec.unique (.fresh hm he hplan) h).2

/-- An entry of which nothing is remembered carries out its plan. -/
theorem Exec.settle_of_forgets {n : Node Nat υ σ}
    (h : g.Exec config input budget (.entry i start) run step run') (he : g.IsNode i n)
    (hforgets : Forgets config run i start) :
    ∃ run₁, g.Exec config input budget (.plan i (n.rule input start))
        (run.note (.evaluated (run.site i start))) step run₁
      ∧ run' = settle config (run.site i start) step run₁ := by
  obtain ⟨hm, hs⟩ | ⟨-, hplan⟩ := h.settle_cases he
  · cases (hforgets hm).symm.trans hs
  · exact hplan

/-! ## Wherever they are found -/

/-- **The rules of inference choose.** -/
theorem Derives.chooses (h : g.Derives input limit (.firstOf start ps none) step)
    (hstart : start.Spans limit) :
    Chooses (fun c (_ : Unit) s _ => g.Derives input limit (.entry c start) s) start ps () step
      () := by
  refine chooses_of_loop (I := fun _ => True) (L := fun ps best _ step _ =>
    g.Derives input limit (.firstOf start ps best) step) ?_ ?_ trivial
    (fun _ hc => ⟨trivial, hc.within hstart⟩) h
  · intro best _ step _ h
    cases h with
    | firstOf_none => exact ⟨rfl, rfl⟩
    | firstOf_some => exact ⟨rfl, rfl⟩
  · intro c cs best _ step _ h
    cases h with
    | firstOf_ok hc => exact ⟨_, (), hc, .inl ⟨fun f h => (nomatch h), rfl, rfl⟩⟩
    | firstOf_next hc hrest =>
      exact ⟨_, (), hc, .inr ⟨_, rfl, Bool.eq_false_iff.1 (hc.isFatal_eq_false hstart), hrest⟩⟩

/-- **A choice is committed, and tells of the failure that got furthest.** In a state that does not
remember it, the first alternative that is not refused decides, fatal failures included, and nothing
is done behind it; if all are refused, the failure that got furthest is told of where the choice
began. Wherever an outcome is found that is not fatal, be it remembered, the alternatives have
outcomes of which it is chosen so. -/
theorem choice_committed (hi : g.IsNode i (.choice ps)) (hstart : start.Spans limit) :
    (∀ (config : Config) (budget : Nat) (run : Run υ σ), run.InBounds input → run.limit = limit →
        Forgets config run i start → ∃ run',
          Chooses (fun c => g.applies config input budget c start) start ps
              (run.note (.evaluated (run.site i start)))
              (g.matcher config input budget i start run).1 run'
            ∧ (g.matcher config input budget i start run).2 = settle config (run.site i start)
              (g.matcher config input budget i start run).1 run') ∧
      ∀ step, g.Found input i start limit step → Step.fatal? step = none →
        Chooses (fun c (_ : Unit) s _ => g.Derives input limit (.entry c start) s) start ps ()
          step () := by
  refine ⟨fun config budget run hrun hlimit hforgets => ?_, fun step hfound hf => ?_⟩
  · subst hlimit
    have hentry : g.Exec config input budget (.entry i start) run
        (g.matcher config input budget i start run).1
        (g.matcher config input budget i start run).2 :=
      exec_matcher budget (lt_size_of_entry hi) start run
    obtain ⟨run', hplan, hleft⟩ := hentry.settle_of_forgets hi hforgets
    exact ⟨run', Exec.chooses hplan hstart (hrun.note (hrun.site hstart i)), hleft⟩
  · have hderives := (derives_iff_settles hstart).2 (hfound.settles (lt_size_of_entry hi) hf)
    exact (derives_firstOf ((derives_iff_yields hi hstart).1 hderives)).chooses hstart

/-- A choice of a letter that is not there, and of one that is, which is refused in two ways. -/
def refusals : Grammar Unit Unit where
  id := 0
  entries := #[.node (.byte 0x61), .node (.byte 0x62),
    .node (.action 0 (.ofFunction fun _ => .error (.rejected "first"))),
    .node (.action 0 (.ofFunction fun _ => .error (.rejected "second"))), .node (.choice [1, 2, 3])]
  targets := #[]
  child_lt := by decide
  slot_lt := by
    intro i h slot he
    have hmem := Array.getElem_mem h
    rw [he] at hmem
    simp only [List.mem_toArray, List.mem_cons, reduceCtorEq, List.not_mem_nil, or_false] at hmem
  target_lt := by decide

/-- Both refusals get as far; the first is told. -/
theorem choice_committed_refusals : refusals.IsNode 4 (.choice [1, 2, 3])
    ∧ Cursor.start.Spans (.atByte 1)
    ∧ (Run.fresh ⟨#[0x61]⟩ () : Run Unit Unit).InBounds ⟨#[0x61]⟩
    ∧ Forgets {} (.fresh ⟨#[0x61]⟩ () : Run Unit Unit) 4 .start
    ∧ refusals.Found ⟨#[0x61]⟩ 4 .start (.atByte 1)
      (.error ⟨.start, .atByte 1, .callback "first"⟩) ∧
    (∃ run', Chooses (fun c => refusals.applies {} ⟨#[0x61]⟩ 0 c .start) .start [1, 2, 3]
        ((Run.fresh ⟨#[0x61]⟩ ()).note (.evaluated ⟨4, .start, .atByte 1⟩))
        (refusals.matcher {} ⟨#[0x61]⟩ 0 4 .start (.fresh ⟨#[0x61]⟩ ())).1 run'
      ∧ (refusals.matcher {} ⟨#[0x61]⟩ 0 4 .start (.fresh ⟨#[0x61]⟩ ())).2
          = settle {} ⟨4, .start, .atByte 1⟩
            (refusals.matcher {} ⟨#[0x61]⟩ 0 4 .start (.fresh ⟨#[0x61]⟩ ())).1 run') ∧
    Chooses (fun c (_ : Unit) s _ =>
        refusals.Derives ⟨#[0x61]⟩ (.atByte 1) (.entry c .start) s) .start [1, 2, 3] ()
      (.error ⟨.start, .atByte 1, .callback "first"⟩) () :=
  have hstart : Cursor.start.Spans (.atByte 1) := ⟨by decide, by decide, by decide⟩
  have hbounds : (Run.fresh ⟨#[0x61]⟩ () : Run Unit Unit).InBounds ⟨#[0x61]⟩ :=
    .fresh ⟨#[0x61]⟩ ()
  have hforgets : Forgets {} (.fresh ⟨#[0x61]⟩ () : Run Unit Unit) 4 .start :=
    fun _ => Run.memo_fresh
  have hfound : refusals.Found ⟨#[0x61]⟩ 4 .start (.atByte 1)
      (.error ⟨.start, .atByte 1, .callback "first"⟩) := .of_fresh {} 0 () (by decide +kernel)
  have h := choice_committed (g := refusals) (i := 4) rfl hstart
  ⟨rfl, hstart, hbounds, hforgets, hfound, h.1 {} 0 _ hbounds rfl hforgets, h.2 _ hfound rfl⟩

end Grammar

end Packrat
