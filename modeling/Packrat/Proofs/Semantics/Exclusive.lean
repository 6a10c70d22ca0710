import Packrat.Proofs.Engine.Again
import Packrat.Proofs.Semantics.Choices

/-!
# Proofs/Semantics/Exclusive — either of two, but not both

What matches if exactly one of two parsers does is the choice of the two differences. On the
outcomes of the two it is the same function (`Step.either_apart`). But the choice works them out
twice: first the one difference and then the other. With a memo the second time costs nothing, and
without one nothing has changed.

There is one thing that may have changed: the first difference is remembered to have failed, and the
second parser may lead back to it. It is then spared slots that it enters otherwise, and stays below
a bound that it comes to otherwise (`xor_ne_choice_spared`). But for that the two are the same, in
every state (`xor_as_choice`).
-/

namespace Packrat

variable {υ σ : Type}

/-! ## On the outcomes of the two -/

/-- Of two failures that got so far and matched nothing, the one that got further is told. -/
theorem Fail.deeper_noMatch (start x y : Cursor) :
    (((Fail.noMatch start).reached x).deeper ((Fail.noMatch start).reached y)).reportedAt start
      = (Fail.noMatch start).reached (max x y) := by
  ext1
  · unfold Fail.deeper
    split <;> rfl
  · simp only [Fail.deeper, Fail.reached, Fail.reportedAt, Fail.noMatch, Fail.here]
    grind [Std.max_eq_if]
  · unfold Fail.deeper
    split <;> rfl

namespace Step

/-- The outcome of a difference. -/
def apart (start : Cursor) : Step υ → Step υ → Step υ
  | .error f, _ => .error f
  | .ok ma, .ok _ => .error ((Fail.noMatch start).reached ma.stop)
  | .ok ma, .error f => if f.isFatal then .error f else .ok ma

/-- The outcome of a choice of two. -/
def either (start : Cursor) : Step υ → Step υ → Step υ
  | .ok m, _ => .ok m
  | .error _, .ok m => .ok m
  | .error f, .error g =>
    if g.isFatal then .error g else .error ((f.deeper g).reportedAt start)

/-- The outcome of an exclusive choice. -/
def exclusive (start : Cursor) : Step υ → Step υ → Step υ
  | .ok ma, .ok mb => .error ((Fail.noMatch start).reached (max ma.stop mb.stop))
  | .ok ma, .error g => if g.isFatal then .error g else .ok ma
  | .error f, step => either start (.error f) step

variable {start : Cursor} {sa sb : Step υ}

/-- **On outcomes an exclusive choice is the choice of the differences.** -/
theorem either_apart (ha : Step.fatal? sa = none) (hb : Step.fatal? sb = none) :
    either start (apart start sa sb) (apart start sb sa) = exclusive start sa sb := by
  cases sa with
  | ok ma =>
    cases sb with
    | ok mb =>
      have hcalm : ((Fail.noMatch start).reached mb.stop).isFatal = false := rfl
      simp only [apart, either, exclusive, hcalm, Bool.false_eq_true, if_false]
      rw [Fail.deeper_noMatch]
    | error g =>
      have hg : g.isFatal = false := Step.fatal?_error_eq_none.1 hb
      simp only [apart, either, exclusive, hg, Bool.false_eq_true, if_false]
  | error f =>
    have hf : f.isFatal = false := Step.fatal?_error_eq_none.1 ha
    cases sb with
    | ok mb => simp only [apart, either, exclusive, hf, Bool.false_eq_true, if_false]
    | error g => rfl

/-- A match that is compared with a failure stays what it is. -/
theorem apart_error {f : Fail} (hf : ¬f.isFatal) (step : Step υ) :
    apart start step (.error f) = step := by
  cases step with
  | ok m => exact if_neg hf
  | error g => rfl

/-- A difference that decides a choice has the outcome of the exclusive choice. -/
theorem exclusive_of_decides {m : Match υ} (h : (apart start (.ok m) sb).Decides) :
    exclusive start (.ok m) sb = apart start (.ok m) sb := by
  cases sb with
  | ok m' => cases h _ rfl
  | error f => rfl

/-- A difference whose first part matches fails, but not for good, if the second part matches. -/
theorem calm_of_apart_error {m : Match υ} {f : Fail} (h : apart start (.ok m) sb = .error f)
    (hf : ¬f.isFatal) : Step.fatal? sb = none := by
  cases sb with
  | ok m' => rfl
  | error g =>
    refine Step.fatal?_error_eq_none_iff.2 fun hg => hf ?_
    rw [apart, if_pos hg] at h
    exact Except.error.inj h ▸ hg

/-- What fails for good behind a failure is told as it is. -/
theorem either_of_fatal {f : Fail} {kind : FailureKind} (h : Step.fatal? sb = some kind) :
    either start (.error f) sb = sb := by
  obtain ⟨g, rfl, hg, -⟩ := Step.fatal?_eq_some.1 h
  exact if_pos hg

end Step

namespace Grammar

variable {g : Grammar υ σ} {config : Config} {input : Input} {budget self i j d e a b : Nat}
  {start limit : Cursor} {run run' : Run υ σ} {step sa sb : Step υ}

/-! ## Wherever they are found -/

theorem derives_difference_iff (hd : g.IsNode d (.difference a b)) (hstart : start.Spans limit) :
    g.Derives input limit (.entry d start) step ↔
      (∃ f, g.Derives input limit (.entry a start) (.error f) ∧ step = .error f) ∨
        ∃ ma sb, g.Derives input limit (.entry a start) (.ok ma)
          ∧ g.Derives input limit (.entry b start) sb ∧ step = Step.apart start (.ok ma) sb := by
  constructor
  · intro h
    have h := (derives_iff_yields hd hstart).1 h
    simp only [Node.rule, Rule.yields_difference (derived_calm_child b), Rule.yields_child] at h
    obtain ⟨f, ha, rfl⟩ | ⟨ma, ha, ⟨f, hb, rfl⟩ | ⟨mb, hb, rfl⟩⟩ := h
    · exact .inl ⟨f, ha.1, rfl⟩
    · exact .inr ⟨ma, _, ha.1, hb.1, by rw [Step.apart, hb.1.isFatal_eq_false hstart]; rfl⟩
    · exact .inr ⟨ma, _, ha.1, hb.1, rfl⟩
  · rintro (⟨f, ha, rfl⟩ | ⟨ma, sb, ha, hb, rfl⟩)
    · exact .difference_fail hd ha
    · cases sb with
      | ok mb => exact .difference_refused hd ha hb
      | error f =>
        rw [Step.apart, hb.isFatal_eq_false hstart]
        exact .difference_ok hd ha hb

theorem derives_apart (hd : g.IsNode d (.difference a b)) (hstart : start.Spans limit)
    (ha : g.Derives input limit (.entry a start) sa)
    (hb : g.Derives input limit (.entry b start) sb) :
    g.Derives input limit (.entry d start) (Step.apart start sa sb) := by
  cases sa with
  | ok ma => exact (derives_difference_iff hd hstart).2 (.inr ⟨ma, sb, ha, hb, rfl⟩)
  | error f => exact (derives_difference_iff hd hstart).2 (.inl ⟨f, ha, rfl⟩)

theorem derives_xor_iff (hi : g.IsNode i (.xor a b)) (hstart : start.Spans limit) :
    g.Derives input limit (.entry i start) step ↔
      ∃ sa sb, g.Derives input limit (.entry a start) sa
        ∧ g.Derives input limit (.entry b start) sb ∧ step = Step.exclusive start sa sb := by
  constructor
  · intro h
    have h := (derives_iff_yields hi hstart).1 h
    simp only [Node.rule, Rule.yields_xor (derived_calm_child a) (derived_calm_child b),
      Rule.yields_child] at h
    obtain ⟨f, ha, ⟨f', hb, rfl⟩ | ⟨mb, hb, rfl⟩⟩ | ⟨ma, ha, ⟨f', hb, rfl⟩ | ⟨mb, hb, rfl⟩⟩ := h
    · exact ⟨_, _, ha.1, hb.1, by
        rw [Step.exclusive, Step.either, hb.1.isFatal_eq_false hstart]
        rfl⟩
    · exact ⟨_, _, ha.1, hb.1, rfl⟩
    · exact ⟨_, _, ha.1, hb.1, by
        rw [Step.exclusive, hb.1.isFatal_eq_false hstart]
        rfl⟩
    · exact ⟨_, _, ha.1, hb.1, rfl⟩
  · rintro ⟨sa, sb, ha, hb, rfl⟩
    cases sa with
    | ok ma =>
      cases sb with
      | ok mb => exact .xor_both hi ha hb
      | error f =>
        rw [Step.exclusive, hb.isFatal_eq_false hstart]
        exact .xor_first hi ha hb
    | error f =>
      cases sb with
      | ok mb => exact .xor_second hi ha hb
      | error f' =>
        rw [Step.exclusive, Step.either, hb.isFatal_eq_false hstart]
        exact .xor_neither hi ha hb

theorem derives_either (hj : g.IsNode j (.choice [d, e])) (hstart : start.Spans limit)
    (hsd : g.Derives input limit (.entry d start) sa)
    (hse : g.Derives input limit (.entry e start) sb) :
    g.Derives input limit (.entry j start) (Step.either start sa sb) := by
  refine .choice hj ?_
  cases sa with
  | ok m => exact .firstOf_ok hsd
  | error f =>
    refine .firstOf_next hsd ?_
    cases sb with
    | ok m => exact .firstOf_ok hse
    | error f' =>
      rw [Step.either, hse.isFatal_eq_false hstart]
      exact .firstOf_next hse .firstOf_some

/-- The choice of the differences needs outcomes of both parsers. -/
theorem exists_derives_of_choice (hd : g.IsNode d (.difference a b))
    (he : g.IsNode e (.difference b a)) (hj : g.IsNode j (.choice [d, e]))
    (hstart : start.Spans limit) (h : g.Derives input limit (.entry j start) step) :
    ∃ sa sb, g.Derives input limit (.entry a start) sa
      ∧ g.Derives input limit (.entry b start) sb := by
  -- The second difference is tried only if the first one fails, and it tries `b` first.
  have hsecond {se : Step υ} {f : Fail} (ha : g.Derives input limit (.entry a start) (.error f))
      (hse : g.Derives input limit (.entry e start) se) : ∃ sa sb,
      g.Derives input limit (.entry a start) sa ∧ g.Derives input limit (.entry b start) sb := by
    obtain ⟨f', hb, -⟩ | ⟨mb, sa, hb, -, -⟩ := (derives_difference_iff he hstart).1 hse
    · exact ⟨_, _, ha, hb⟩
    · exact ⟨_, _, ha, hb⟩
  obtain ⟨sd, hsd, hrest⟩ : ∃ sd, g.Derives input limit (.entry d start) sd
      ∧ ∀ f, sd = .error f → ∃ se, g.Derives input limit (.entry e start) se := by
    cases derives_firstOf ((derives_iff_yields hj hstart).1 h) with
    | firstOf_ok hsd => exact ⟨_, hsd, fun f h => nomatch h⟩
    | firstOf_next hsd hrest =>
      refine ⟨_, hsd, fun _ _ => ?_⟩
      cases hrest with
      | firstOf_ok hse => exact ⟨_, hse⟩
      | firstOf_next hse => exact ⟨_, hse⟩
  obtain ⟨f, ha, rfl⟩ | ⟨ma, sb, ha, hb, -⟩ := (derives_difference_iff hd hstart).1 hsd
  · obtain ⟨se, hse⟩ := hrest f rfl
    exact hsecond ha hse
  · exact ⟨_, _, ha, hb⟩

/-- **Whatever can be derived for the one can be derived for the other.** -/
theorem derives_xor_iff_choice (hpure : g.PureCallbacks) (hi : g.IsNode i (.xor a b))
    (hd : g.IsNode d (.difference a b)) (he : g.IsNode e (.difference b a))
    (hj : g.IsNode j (.choice [d, e])) (hstart : start.Spans limit) :
    g.Derives input limit (.entry i start) step ↔ g.Derives input limit (.entry j start) step := by
  have hchoice {sa sb : Step υ} (ha : g.Derives input limit (.entry a start) sa)
      (hb : g.Derives input limit (.entry b start) sb) :
      g.Derives input limit (.entry j start) (Step.exclusive start sa sb) := by
    rw [← Step.either_apart (ha.fatal?_eq_none hstart) (hb.fatal?_eq_none hstart)]
    exact derives_either hj hstart (derives_apart hd hstart ha hb) (derives_apart he hstart hb ha)
  rw [derives_xor_iff hi hstart]
  constructor
  · rintro ⟨sa, sb, ha, hb, rfl⟩
    exact hchoice ha hb
  · intro h
    obtain ⟨sa, sb, ha, hb⟩ := exists_derives_of_choice hd he hj hstart h
    exact ⟨sa, sb, ha, hb, h.unique hpure hstart (hchoice ha hb)⟩

/-! ## What the plans do -/

/-- A plan that ends with what it makes of its last child. -/
theorem Exec.last_child {c : Nat} {next : Step υ → Plan υ σ (Step υ)}
    (h : g.Exec config input budget (.plan self (.apply none c start next)) run step run')
    (made : Step υ → Step υ) (hnext : ∀ s, next s = .done (made s)) :
    ∃ s, g.applies config input budget c start run s run' ∧ step = made s := by
  obtain ⟨s, run₁, hc, ⟨f, f', -, -, hdone, rfl, rfl⟩ | ⟨-, hrest⟩⟩ := h.apply_cases
  · exact ⟨s, hc, Plan.done.inj (hdone.symm.trans (hnext s))⟩
  · rw [hnext] at hrest
    obtain ⟨rfl, rfl⟩ := Exec.of_done hrest
    exact ⟨s, hc, rfl⟩

/-- A difference tries its first part, and its second if that matches. -/
theorem Exec.difference_cases (h : g.Exec config input budget
      (.plan self (Rule.difference (.child a) (.child b) start)) run step run') :
    ∃ sa run₁, g.applies config input budget a start run sa run₁ ∧
      ((∃ f, sa = .error f ∧ step = .error f ∧ run' = run₁) ∨
        ∃ ma sb, sa = .ok ma ∧ g.applies config input budget b start run₁ sb run'
          ∧ step = Step.apart start (.ok ma) sb) := by
  obtain ⟨sa, run₁, ha, ⟨f, f', rfl, -, hnext, rfl, rfl⟩ | ⟨-, hrest⟩⟩ := h.apply_cases
  · cases hnext
    exact ⟨_, _, ha, .inl ⟨_, rfl, rfl, rfl⟩⟩
  · cases sa with
    | error f =>
      obtain ⟨rfl, rfl⟩ := Exec.of_done hrest
      exact ⟨_, _, ha, .inl ⟨_, rfl, rfl, rfl⟩⟩
    | ok ma =>
      obtain ⟨sb, hb, rfl⟩ := hrest.last_child (Step.apart start (.ok ma)) fun s => by
        cases s with
        | ok mb => rfl
        | error f => exact (apply_ite _ _ _ _).symm
      exact ⟨_, _, ha, .inr ⟨ma, sb, rfl, hb, rfl⟩⟩

/-- An exclusive choice tries both parts, unless the first fails for good. -/
theorem Exec.xor_cases (h : g.Exec config input budget
      (.plan self (Rule.xor (.child a) (.child b) start)) run step run') :
    ∃ sa run₁, g.applies config input budget a start run sa run₁ ∧
      ((∃ f, sa = .error f ∧ f.isFatal ∧ step = .error f) ∨
        Step.fatal? sa = none ∧ ∃ sb, g.applies config input budget b start run₁ sb run'
          ∧ step = Step.exclusive start sa sb) := by
  obtain ⟨sa, run₁, ha, ⟨f, f', rfl, hf, hnext, rfl, rfl⟩ | ⟨hsa, hrest⟩⟩ := h.apply_cases
  · have hnext := hnext.symm.trans (if_pos hf)
    cases hnext
    exact ⟨_, _, ha, .inl ⟨_, rfl, hf, rfl⟩⟩
  · refine ⟨_, _, ha, .inr ⟨hsa, ?_⟩⟩
    cases sa with
    | ok ma =>
      refine hrest.last_child (Step.exclusive start (.ok ma)) fun s => ?_
      cases s with
      | ok mb => rfl
      | error f => exact (apply_ite _ _ _ _).symm
    | error f =>
      have hcalm : ¬f.isFatal := Step.fatal?_error_eq_none_iff.1 hsa
      simp only [Plan.bind_done, if_neg hcalm] at hrest
      refine hrest.last_child (Step.exclusive start (.error f)) fun s => ?_
      cases s with
      | ok mb => rfl
      | error f => exact (apply_ite _ _ _ _).symm

/-- A choice of two tries the second if the first fails, but not for good. -/
theorem Exec.choice_cases (h : g.Exec config input budget
      (.plan self (Rule.choiceFrom start ([d, e].map .child) none)) run step run') :
    ∃ sd run₁, g.applies config input budget d start run sd run₁ ∧
      ((sd.Decides ∧ step = sd) ∨ ∃ f se, sd = .error f ∧ ¬f.isFatal
        ∧ g.applies config input budget e start run₁ se run'
        ∧ step = Step.either start (.error f) se) := by
  obtain ⟨sd, run₁, hsd, ⟨hdecides, rfl, rfl⟩ | ⟨f, rfl, hf, hrest⟩⟩ := h.choiceFrom_cases
  · exact ⟨_, _, hsd, .inl ⟨hdecides, rfl⟩⟩
  · rw [choiceFrom_cons] at hrest
    obtain ⟨se, hse, rfl⟩ := hrest.last_child (Step.either start (.error f)) fun s => by
      cases s with
      | ok m => rfl
      | error f' => exact (apply_ite Plan.done _ _ _).symm
    exact ⟨_, _, hsd, .inr ⟨f, se, rfl, hf, hse, rfl⟩⟩

/-- The choice of the differences tries the first parser, if that matches the second, and then the
second difference, unless one of them has failed for good or the first difference matches. -/
theorem Exec.differences_cases {ev : Event υ} (h : g.Exec config input budget
      (.plan self (Rule.choiceFrom start ([d, e].map .child) none)) (run.note ev) step run')
    (hd : g.IsNode d (.difference a b)) (hfd : Forgets config run d start) :
    ∃ sa run₁, g.applies config input budget a start
        ((run.note ev).note (.evaluated (run.site d start))) sa run₁ ∧
      ((∃ f, sa = .error f ∧ f.isFatal ∧ step = .error f) ∨
        (∃ f se, sa = .error f ∧ ¬f.isFatal
          ∧ g.applies config input budget e start
            (settle config (run.site d start) (.error f) run₁) se run'
          ∧ step = Step.either start (.error f) se) ∨
        ∃ ma sb run₂, sa = .ok ma ∧ g.applies config input budget b start run₁ sb run₂ ∧
          (step = Step.exclusive start (.ok ma) sb ∨
            ∃ f se, Step.apart start (.ok ma) sb = .error f ∧ ¬f.isFatal
              ∧ g.applies config input budget e start
                (settle config (run.site d start) (Step.apart start (.ok ma) sb) run₂) se run'
              ∧ step = Step.either start (.error f) se)) := by
  obtain ⟨sd, twin, hsd, hc⟩ := h.choice_cases
  obtain ⟨run₂, hplan, rfl⟩ := hsd.settle_of_forgets hd hfd
  obtain ⟨sa, run₁, ha, ⟨f, rfl, rfl, rfl⟩ | ⟨ma, sb, rfl, hb, rfl⟩⟩ := hplan.difference_cases
  · obtain ⟨hdecides, rfl⟩ | ⟨f', se, heq, hf, hse, rfl⟩ := hc
    · exact ⟨_, _, ha, .inl ⟨f, rfl, hdecides f rfl, rfl⟩⟩
    · obtain rfl := Except.error.inj heq
      exact ⟨_, _, ha, .inr (.inl ⟨f, se, rfl, hf, hse, rfl⟩)⟩
  · obtain ⟨hdecides, rfl⟩ | ⟨f, se, hrefused, hf, hse, rfl⟩ := hc
    · exact ⟨_, _, ha, .inr (.inr ⟨ma, sb, run₂, rfl, hb,
        .inl (Step.exclusive_of_decides hdecides).symm⟩)⟩
    · exact ⟨_, _, ha, .inr (.inr ⟨ma, sb, run₂, rfl, hb, .inr ⟨f, se, hrefused, hf, hse, rfl⟩⟩)⟩

/-! ## The state behind an evaluation -/

section

variable {site known : Site} {s : Step υ}

@[simp]
theorem limit_settle (config : Config) (site : Site) (step : Step υ) (run : Run υ σ) :
    (settle config site step run).limit = run.limit := by
  rw [settle]
  split <;> rfl

@[simp]
theorem active_settle (config : Config) (site : Site) (step : Step υ) (run : Run υ σ) :
    (settle config site step run).active = run.active := by
  rw [settle]
  split <;> rfl

theorem settle_sound (config : Config) (h : run.Sound g input)
    (hstep : g.Settles input site.node site.start site.limit step) :
    (settle config site step run).Sound g input := by
  have hnoted : (run.note (.settled site step)).Sound g input := h
  rw [settle]
  split
  · exact hnoted.remember hstep
  · exact hnoted

theorem settle_grows (config : Config) (h : run.Sound g input) (hpure : g.PureCallbacks)
    (hstep : g.Settles input site.node site.start site.limit step)
    (hs : run.memo[known]? = some s) : (settle config site step run).memo[known]? = some s := by
  have hnoted : (run.note (.settled site step)).Sound g input := h
  rw [settle]
  split
  · exact remember_grows hnoted hpure hstep hs
  · exact hs

end

/-- A state that remembers that the difference failed, because its first part did, is ahead. -/
theorem Exec.ahead_of_settle {fail : Fail} {twin : Run υ σ}
    (ha : g.Exec config input budget (.entry a start) run (.error fail) run')
    (hpure : g.PureCallbacks) (hd : g.IsNode d (.difference a b)) (hstart : start.Spans run.limit)
    (hsound : run.Sound g input) (hfail : ¬fail.isFatal) (hretold : run'.Retold twin) :
    g.Ahead config ⟨d, start, run.limit⟩ a fail run'
      (settle config ⟨d, start, run.limit⟩ (.error fail) twin) := by
  have hcalm : Step.fatal? (.error fail : Step υ) = none :=
    Step.fatal?_error_eq_none_iff.2 hfail
  have hagrees := ha.agrees
  obtain ⟨stats, trace, rfl⟩ := hretold
  refine ⟨limit_settle .., active_settle .., fun hm site => ?_, fun hm => ?_⟩
  · rw [settle, if_pos hm]
    by_cases hsite : (⟨d, start, run.limit⟩ : Site) = site
    · subst hsite
      cases hs : run'.memo[(⟨d, start, run.limit⟩ : Site)]? with
      | none => exact .inr ⟨rfl, rfl, Run.memo_remember_self⟩
      | some s =>
        -- It has been remembered on the way, and so it is what is remembered now.
        obtain ⟨hsettles, hsound'⟩ := ha.settles hsound hcalm
        have hfailed := (derives_difference_iff hd hstart).2
          (.inl ⟨fail, (derives_iff_settles hstart).2 hsettles, rfl⟩)
        have hknown := (derives_iff_settles hstart).2 (hsound' _ _ hs)
        obtain rfl := hknown.unique hpure hstart hfailed
        exact .inl Run.memo_remember_self
    · exact .inl (Run.memo_remember_of_ne hsite)
  · have hagain := ha.again hm hcalm
    rw [← hagrees.active] at hagain
    exact ⟨_, hagain⟩

/-! ## The second difference -/

section

variable {first first' first'' twin : Run υ σ} {fail : Fail}

/-- The second difference has the outcome that it should have, if the other part was tried before,
and the first part has this outcome now, or had it when the difference was remembered. -/
theorem Exec.difference_eq (h : g.Exec config input budget (.entry e start) run step run')
    (hpure : g.PureCallbacks) (he : g.IsNode e (.difference b a)) (hsound : run.Sound g input)
    (ha : g.Exec config input budget (.entry a start) first sa first')
    (hfirst : first.Sound g input) (hstart : start.Spans first.limit)
    (hsa : Step.fatal? sa = none) (hlimit : run.limit = first.limit)
    (hactive : run.active = first.active)
    (hmemo : config.memoize = true → ∀ {site : Site} {s}, first'.memo[site]? = some s →
      run.memo[site]? = some s)
    (hknown : config.memoize = true → run.memo[run.site e start]? ≠ none →
      g.Derives input first.limit (.entry b start) sb)
    (hb : ∃ run₁, g.Exec config input budget (.entry b start)
      (run.note (.evaluated (run.site e start))) sb run₁) :
    step = Step.apart start sb sa := by
  obtain ⟨hm, hs⟩ | ⟨-, run₁, hplan, -⟩ := h.settle_cases he
  · have hsa := (derives_iff_settles hstart).2 (ha.settles hfirst hsa).1
    have hsb := hknown hm (hs ▸ Option.some_ne_none _)
    have hstep : g.Settles input e start run.limit step := hsound _ _ hs
    rw [hlimit] at hstep
    exact ((derives_iff_settles hstart).2 hstep).unique hpure hstart
      (derives_apart he hstart hsb hsa)
  · obtain ⟨sb', run₂, hb', hrest⟩ := hplan.difference_cases
    obtain ⟨run₂', hb⟩ := hb
    obtain ⟨rfl, rfl⟩ := hb.unique hb'
    obtain ⟨f, rfl, rfl, -⟩ | ⟨mb, sa', rfl, ha', rfl⟩ := hrest
    · rfl
    · have hagrees := hb.agrees
      obtain ⟨run₃, hagain, -⟩ := ha.second hpure hsa (hagrees.limit.trans hlimit)
        (hagrees.active.trans hactive) fun hm _ _ hs => hb.grows (hmemo hm hs)
      obtain ⟨rfl, -⟩ := hagain.unique ha'
      rfl

/-- If it was remembered while the other part was tried, the first part has an outcome, and that is
what is found of it now. -/
theorem Exec.derives_of_remembered
    (hb : g.Exec config input budget (.entry b start) first' sb run')
    (ha : g.Exec config input budget (.entry a start) first sa first')
    (hpure : g.PureCallbacks) (hm : config.memoize = true) (hd : g.IsNode d (.difference a b))
    (he : g.IsNode e (.difference b a)) (hstart : start.Spans first.limit)
    (hfirst : first.Sound g input) (hsa : Step.fatal? sa = none)
    (hfe : Forgets config first e start)
    (hknown : e = d ∨ first'.memo[first.site e start]? ≠ none) :
    g.Derives input first.limit (.entry b start) sb := by
  have hagrees := ha.agrees
  obtain ⟨found, hagain⟩ :
      ∃ found, g.Again first'.memo start first.limit budget first.active b found := by
    obtain rfl | hknown := hknown
    · -- Then the two parsers are one.
      cases Option.some.inj (hd.symm.trans he)
      exact ⟨sa, ha.again hm hsa⟩
    · obtain ⟨s, hs⟩ := Option.ne_none_iff_exists'.1 hknown
      exact ha.first_again hpure hm hfirst hsa he (hfe hm) hs
  have hfound := hagain.settles ((ha.settles hfirst hsa).2 _ _)
  rw [← hagrees.limit, ← hagrees.active] at hagain
  obtain ⟨run₂, hb', -⟩ := hagain.exec input hm fun hs => hs
  obtain ⟨rfl, -⟩ := hb.unique hb'
  exact (derives_iff_settles hstart).2 hfound

/-- **Behind a match of the first parser** the second difference has the outcome that it should
have. -/
theorem Exec.difference_behind_match
    (h : g.Exec config input budget (.entry e start)
      (settle config ⟨d, start, limit⟩ (Step.apart start sa sb) first'') step run')
    (ha : g.Exec config input budget (.entry a start) first sa first')
    (hb : g.Exec config input budget (.entry b start) first' sb first'')
    (hlimit : first.limit = limit) (hpure : g.PureCallbacks) (hd : g.IsNode d (.difference a b))
    (he : g.IsNode e (.difference b a)) (hstart : start.Spans limit)
    (hfirst : first.Sound g input) (hsa : Step.fatal? sa = none) (hsb : Step.fatal? sb = none) :
    step = Step.apart start sb sa := by
  subst hlimit
  have hagrees := ha.agrees
  have hagrees' := hagrees.trans hb.agrees
  obtain ⟨hsettles, hsound⟩ := ha.settles hfirst hsa
  obtain ⟨hsettles', hsound'⟩ := hb.settles hsound hsb
  rw [hagrees.limit] at hsettles'
  have hda := (derives_iff_settles hstart).2 hsettles
  have hdb := (derives_iff_settles hstart).2 hsettles'
  have hdiff := (derives_iff_settles hstart).1 (derives_apart hd hstart hda hdb)
  generalize hrun : settle config ⟨d, start, first.limit⟩ (Step.apart start sa sb) first'' = run
    at h
  have hsettled : run.Sound g input := hrun ▸ settle_sound config hsound' hdiff
  have hgrows {known : Site} {s : Step υ} (hs : first''.memo[known]? = some s) :
      run.memo[known]? = some s := hrun ▸ settle_grows config hsound' hpure hdiff hs
  have hlimit : run.limit = first.limit := by rw [← hrun, limit_settle, hagrees'.limit]
  have hactive : run.active = first.active := by rw [← hrun, active_settle, hagrees'.active]
  have hnoted : (run.note (.evaluated (run.site e start))).limit = first'.limit :=
    hlimit.trans hagrees.limit.symm
  obtain ⟨run₁, hb', -⟩ :=
    hb.second hpure hsb hnoted (hactive.trans hagrees.active.symm) fun _ _ _ hs => hgrows hs
  exact h.difference_eq hpure he hsettled ha hfirst hstart hsa hlimit hactive
    (fun _ _ _ hs => hgrows (hb.grows hs)) (fun _ _ => hdb) ⟨run₁, hb'⟩

/-- **Behind a failure of the first parser** the second difference has the outcome of the second
parser, unless that comes to the bound on slots and there is a memo. -/
theorem Exec.difference_behind_failure
    (h : g.Exec config input budget (.entry e start)
      (settle config ⟨d, start, limit⟩ (.error fail) twin) step run')
    (ha : g.Exec config input budget (.entry a start) first (.error fail) first')
    (hb : g.Exec config input budget (.entry b start) first' sb first'')
    (hretold : first'.Retold twin) (hlimit : first.limit = limit) (hpure : g.PureCallbacks)
    (hd : g.IsNode d (.difference a b)) (he : g.IsNode e (.difference b a))
    (hstart : start.Spans limit)
    (hfirst : first.Sound g input) (hfail : ¬fail.isFatal) (hfe : Forgets config first e start) :
    step = sb ∨ config.memoize = true
      ∧ Step.fatal? sb = some (.recursionLimit config.maxRecursionDepth) := by
  subst hlimit
  have hcalm : Step.fatal? (.error fail : Step υ) = none :=
    Step.fatal?_error_eq_none_iff.2 hfail
  have hagrees := ha.agrees
  have hahead := ha.ahead_of_settle hpure hd hstart hfirst hfail hretold
  obtain ⟨hsettles, hsound⟩ := ha.settles hfirst hcalm
  have hdiff := (derives_iff_settles hstart).1 ((derives_difference_iff hd hstart).2
    (.inl ⟨fail, (derives_iff_settles hstart).2 hsettles, rfl⟩))
  have hsettled : (settle config ⟨d, start, first.limit⟩ (.error fail) twin).Sound g input := by
    obtain ⟨stats, trace, rfl⟩ := hretold
    exact settle_sound config hsound hdiff
  generalize settle config ⟨d, start, first.limit⟩ (.error fail) twin = run at h hahead hsettled
  have hlimit := hahead.limit.trans hagrees.limit
  have hnoted : g.Ahead config ⟨d, start, first.limit⟩ a fail first'
      (run.note (.evaluated (run.site e start))) :=
    ⟨hahead.limit, hahead.active, hahead.memo, hahead.again⟩
  obtain ⟨run₁, hb', -⟩ | hbound := hb.ahead hpure trivial (fun _ => hd) hfail hnoted
  · have hstep := h.difference_eq hpure he hsettled ha hfirst hstart hcalm hlimit
      (hahead.active.trans hagrees.active) (fun hm _ _ => hahead.covers hm) ?_ ⟨run₁, hb'⟩
    · rw [Step.apart_error hfail] at hstep
      exact .inl hstep
    · intro hm hknown
      refine hb.derives_of_remembered ha hpure hm hd he hstart hfirst hcalm hfe ?_
      rw [Run.site, hlimit] at hknown
      obtain heq | ⟨hplace, -⟩ := hahead.memo hm ⟨e, start, first.limit⟩
      · exact .inr (heq ▸ hknown)
      · exact .inl (Site.mk.inj hplace).1
  · exact .inr hbound

end

/-! ## In one state -/

/-- **The choice of the differences does what the exclusive choice does**, unless that comes to the
bound on slots and there is a memo. -/
theorem Exec.choice_eq_xor {evx evc : Event υ} {twin : Run υ σ} {sx sc : Step υ}
    (hx : g.Exec config input budget (.plan i (Rule.xor (.child a) (.child b) start))
      (run.note evx) sx run')
    (hc : g.Exec config input budget (.plan j (Rule.choiceFrom start ([d, e].map .child) none))
      (run.note evc) sc twin)
    (hpure : g.PureCallbacks) (hd : g.IsNode d (.difference a b))
    (he : g.IsNode e (.difference b a)) (hstart : start.Spans run.limit)
    (hsound : run.Sound g input) (hfd : Forgets config run d start)
    (hfe : Forgets config run e start) :
    sc = sx ∨ config.memoize = true
      ∧ Step.fatal? sx = some (.recursionLimit config.maxRecursionDepth) := by
  obtain ⟨sa, run₁, ha, hx⟩ := hx.xor_cases
  obtain ⟨sa', twin₁, ha', hc⟩ := hc.differences_cases hd hfd
  -- The first parser is tried in states that differ in what has been told.
  have hretold : (run.note evx).Retold
      ((run.note evc).note (.evaluated (run.site d start))) :=
    (run.retold_note evx).symm.trans ((run.retold_note evc).trans (Run.retold_note _ _))
  obtain ⟨_, ha'', hretold₁⟩ := ha.retold hretold
  obtain ⟨rfl, rfl⟩ := ha'.unique ha''
  obtain ⟨f, rfl, hf, rfl⟩ | ⟨hsa, sb, hb, rfl⟩ := hx
  · obtain ⟨f', heq, -, rfl⟩ | ⟨f', se, heq, hf', -⟩ | ⟨ma, sb, twin₂, heq, -⟩ := hc
    · exact .inl heq.symm
    · obtain rfl := Except.error.inj heq
      exact absurd hf hf'
    · cases heq
  · obtain ⟨f, rfl, hf, -⟩ | ⟨f, se, rfl, hf, hse, rfl⟩ | ⟨ma, sb', twin₂, rfl, hb', hc⟩ := hc
    · exact absurd hsa (Step.fatal?_ne_none hf rfl)
    · obtain rfl | ⟨hm, hlimit⟩ := hse.difference_behind_failure ha hb hretold₁ rfl hpure hd he
        hstart hsound hf hfe
      · exact .inl rfl
      · refine .inr ⟨hm, ?_⟩
        rw [Step.exclusive, Step.either_of_fatal hlimit]
        exact hlimit
    · obtain ⟨_, hb'', -⟩ := hb.retold hretold₁
      obtain ⟨rfl, -⟩ := hb'.unique hb''
      obtain rfl | ⟨f, se, hrefused, hf, hse, rfl⟩ := hc
      · exact .inl rfl
      · have hsb := Step.calm_of_apart_error hrefused hf
        have hstep := hse.difference_behind_match ha' hb' rfl hpure hd he hstart hsound hsa hsb
        rw [hstep, ← hrefused, Step.either_apart hsa hsb]
        exact .inl rfl

/-! ## Taken together -/

/-- **Either of two, but not both, is the choice of the differences.** In a state that remembers
none of the four the outcomes are the same, fatal failures and recursion contexts of any kind
included, unless there is a memo and the exclusive choice comes to the bound on slots. Wherever an
outcome of one of them is found that is not fatal, be it remembered, the other ends in it too. -/
theorem xor_as_choice (hpure : g.PureCallbacks) (hi : g.IsNode i (.xor a b))
    (hd : g.IsNode d (.difference a b)) (he : g.IsNode e (.difference b a))
    (hj : g.IsNode j (.choice [d, e])) (hstart : start.Spans limit) :
    (∀ (config : Config) (budget : Nat) (run : Run υ σ), run.Sound g input → run.limit = limit →
        (∀ k ∈ [i, j, d, e], Forgets config run k start) →
        (g.matcher config input budget j start run).1
            = (g.matcher config input budget i start run).1 ∨
          config.memoize = true ∧ Step.fatal? (g.matcher config input budget i start run).1
            = some (.recursionLimit config.maxRecursionDepth)) ∧
      (∀ step, g.Found input i start limit step → Step.fatal? step = none →
        g.EndsAs input j start limit step) ∧
      ∀ step, g.Found input j start limit step → Step.fatal? step = none →
        g.EndsAs input i start limit step := by
  have hsame {s : Step υ} : g.Derives input limit (.entry i start) s ↔
      g.Derives input limit (.entry j start) s :=
    derives_xor_iff_choice hpure hi hd he hj hstart
  refine ⟨fun config budget run hsound hlimit hforgets => ?_, fun step hfound hf => ?_,
    fun step hfound hf => ?_⟩
  · subst hlimit
    obtain ⟨hfi, hfj, hfd, hfe, -⟩ := by simpa only [List.forall_mem_cons] using hforgets
    have hxor : g.Exec config input budget (.entry i start) run _ _ :=
      exec_matcher budget (lt_size_of_entry hi) start run
    have hchoice : g.Exec config input budget (.entry j start) run _ _ :=
      exec_matcher budget (lt_size_of_entry hj) start run
    obtain ⟨run', hx, -⟩ := hxor.settle_of_forgets hi hfi
    obtain ⟨twin', hc, -⟩ := hchoice.settle_of_forgets hj hfj
    exact hx.choice_eq_xor hc hpure hd he hstart hsound hfd hfe
  · have hends := hfound.ends (lt_size_of_entry hi) hf hpure hstart
    exact (hsame.1 hends.derives).ends hpure hstart
  · have hends := hfound.ends (lt_size_of_entry hj) hf hpure hstart
    exact (hsame.2 hends.derives).ends hpure hstart

/-- A slot for a letter and one for the difference of the two, compared in both ways. -/
def spared : Grammar Unit Unit where
  id := 0
  entries := #[.indirect ⟨0⟩, .indirect ⟨1⟩, .node (.byte 0x78), .node (.difference 0 1),
    .node (.difference 1 0), .node (.choice [3, 4]), .node (.xor 0 1)]
  targets := #[2, 3]
  child_lt := by decide
  slot_lt := by
    intro i h slot he
    have hmem := Array.getElem_mem h
    rw [he] at hmem
    simp only [List.mem_toArray, List.mem_cons, Entry.indirect.injEq, reduceCtorEq,
      List.not_mem_nil, or_false] at hmem
    obtain rfl | rfl := hmem <;> decide
  target_lt := by decide

theorem pureCallbacks_spared : spared.PureCallbacks := by
  intro i node he
  have hmem := Array.mem_of_getElem? he
  simp only [spared, List.mem_toArray, List.mem_cons, Entry.node.injEq, reduceCtorEq,
    List.not_mem_nil, or_false, false_or] at hmem
  obtain rfl | rfl | rfl | rfl | rfl := hmem <;> trivial

/-- Two slots are enough for a byte that is not the letter. -/
theorem xor_as_choice_spared : spared.PureCallbacks ∧ spared.IsNode 6 (.xor 0 1)
    ∧ spared.IsNode 3 (.difference 0 1) ∧ spared.IsNode 4 (.difference 1 0)
    ∧ spared.IsNode 5 (.choice [3, 4]) ∧ Cursor.start.Spans (.atByte 1)
    ∧ (Run.fresh ⟨#[0x79]⟩ () : Run Unit Unit).Sound spared ⟨#[0x79]⟩
    ∧ (∀ k ∈ [6, 5, 3, 4], Forgets {} (.fresh ⟨#[0x79]⟩ () : Run Unit Unit) k .start)
    ∧ spared.Found ⟨#[0x79]⟩ 6 .start (.atByte 1) (.error (.noMatch .start))
    ∧ spared.Found ⟨#[0x79]⟩ 5 .start (.atByte 1) (.error (.noMatch .start)) ∧
    ((spared.matcher {} ⟨#[0x79]⟩ 2 5 .start (.fresh ⟨#[0x79]⟩ ())).1
        = (spared.matcher {} ⟨#[0x79]⟩ 2 6 .start (.fresh ⟨#[0x79]⟩ ())).1 ∨
      Config.memoize {} = true
        ∧ Step.fatal? (spared.matcher {} ⟨#[0x79]⟩ 2 6 .start (.fresh ⟨#[0x79]⟩ ())).1
          = some (.recursionLimit (Config.maxRecursionDepth {}))) ∧
    spared.EndsAs ⟨#[0x79]⟩ 5 .start (.atByte 1) (.error (.noMatch .start)) ∧
    spared.EndsAs ⟨#[0x79]⟩ 6 .start (.atByte 1) (.error (.noMatch .start)) :=
  have hstart : Cursor.start.Spans (.atByte 1) := ⟨by decide, by decide, by decide⟩
  have hsound := fresh_sound spared ⟨#[0x79]⟩ ()
  have hforgets : ∀ k ∈ [6, 5, 3, 4],
      Forgets {} (.fresh ⟨#[0x79]⟩ () : Run Unit Unit) k .start :=
    fun _ _ _ => Run.memo_fresh
  have hxor : spared.Found ⟨#[0x79]⟩ 6 .start (.atByte 1) (.error (.noMatch .start)) :=
    .of_fresh {} 2 () (by decide +kernel)
  have hchoice : spared.Found ⟨#[0x79]⟩ 5 .start (.atByte 1) (.error (.noMatch .start)) :=
    .of_fresh {} 2 () (by decide +kernel)
  have hi : spared.IsNode 6 (.xor 0 1) := rfl
  have hd : spared.IsNode 3 (.difference 0 1) := rfl
  have he : spared.IsNode 4 (.difference 1 0) := rfl
  have hj : spared.IsNode 5 (.choice [3, 4]) := rfl
  ⟨pureCallbacks_spared, hi, hd, he, hj, hstart, hsound, hforgets, hxor, hchoice,
    (xor_as_choice pureCallbacks_spared hi hd he hj hstart).1 {} 2 _ hsound rfl hforgets,
    (xor_as_choice pureCallbacks_spared hi hd he hj hstart).2.1 _ hxor rfl,
    (xor_as_choice pureCallbacks_spared hi hd he hj hstart).2.2 _ hchoice rfl⟩

/-- **With a memo and one slot the two differ.** The exclusive choice enters the second slot and
then the first, and comes to the bound. The choice has tried the first difference before, and
recalls behind the second slot that it failed; without a memo it comes to the bound as well. -/
theorem xor_ne_choice_spared : ∃ xor choice plain,
    spared.run { maxRecursionDepth := 1 } ⟨0, 6⟩ ⟨#[0x79]⟩ () = .ok xor
      ∧ spared.run { maxRecursionDepth := 1 } ⟨0, 5⟩ ⟨#[0x79]⟩ () = .ok choice
      ∧ spared.run { maxRecursionDepth := 1, memoize := false } ⟨0, 5⟩ ⟨#[0x79]⟩ () = .ok plain
      ∧ xor.result = .error (.here (.recursionLimit 1) .start)
      ∧ choice.result = .error (.noMatch .start)
      ∧ plain.result = .error (.here (.recursionLimit 1) .start) :=
  ⟨_, _, _, rfl, rfl, rfl, rfl, rfl, rfl⟩

end Grammar

end Packrat
