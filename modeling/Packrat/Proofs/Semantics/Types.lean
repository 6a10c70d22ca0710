import Mathlib.Tactic.Ring
import Packrat.Proofs.Engine.Fatal
import Packrat.Proofs.Plan.Outcomes
import Packrat.Proofs.Semantics.Soundness

/-!
# Proofs/Semantics/Types — entries whose callbacks never refuse

The values that an entry may have are its type, given as the range of a function
(`Grammar.Types g i view`): whatever the input and wherever the entry matches, its value is `view a`
for some `a`. A type is found from the types of the parts, one lemma for each combinator. An action
fits a type when it makes something of each of its values; so an entry that has a type is *sane*
(`Grammar.Sane`): no slot is behind it, and neither it nor anything below it fails for any other
reason than that it does not match.

Main statement: a run of a sane root ends in an outcome that does not depend on the settings, and
no callback refuses on the way (`run_sane`).
-/

namespace Packrat

variable {υ σ : Type}

/-! ## Plans that are accepted -/

namespace Plan

variable {R : Outcomes υ} {limit : Cursor} {p : Plan υ σ (Step υ)}

/-- Where children have the outcomes that `R` tells, no callback refuses. -/
def Accepted (R : Outcomes υ) (limit : Cursor) : Plan υ σ (Step υ) → Prop
  | done _ => True
  | look next => (next limit).Accepted R limit
  | apply window c start next =>
    ∀ step, R c start (window.getD limit) step → (next step).Accepted R limit
  | call _ f _ m next =>
    (∀ e, ¬f.Answers m.shown (.error e)) ∧ ∀ answer, (next answer).Accepted R limit

/-- A plan that calls nothing is accepted. -/
theorem Strict.accepted {child : Nat → Prop} (h : p.Strict child fun _ _ => False)
    (hR : R.Calm) : p.Accepted R limit := by
  induction p with
  | done step => trivial
  | look next ih => exact ih limit (h limit)
  | apply window c start next ih =>
    exact fun step hs => ih step (h.2.2 step (hR _ _ _ _ hs))
  | call kind f start m next ih => exact h.1.elim

end Plan

open Rule in
/-- A combinator is accepted where it fails for no other reason than that it does not match. -/
theorem Node.accepted_rule {R : Outcomes υ} {limit start : Cursor} {input : Input}
    {n : Node Nat υ σ} (hR : R.Calm)
    (h : ∀ f, (n.rule input start).Yields R limit (.error f) → f.kind = .noMatch) :
    (n.rule input start).Accepted R limit := by
  have hsilent : ∀ n : Node Nat υ σ, n.Calls (fun _ _ => False) →
      (n.rule input start).Accepted R limit := fun n hn =>
    (n.strict_rule input (fun _ _ => trivial) hn start :
      Plan.Strict (fun _ => True) _ _).accepted hR
  cases n with
  | action p act =>
    intro step hs
    cases step with
    | error f => trivial
    | ok m =>
      refine ⟨fun e he => ?_, fun answer => by cases answer <;> trivial⟩
      cases h _ (yields_action.2 (.inr ⟨m, yields_child.2 hs, .inl ⟨e, he, rfl⟩⟩))
  | satisfying p accepts =>
    intro step hs
    cases step with
    | error f => trivial
    | ok m =>
      refine ⟨fun e he => ?_, fun answer => by rcases answer with _ | _ | _ <;> trivial⟩
      cases h _ (yields_satisfying.2 (.inr ⟨m, yields_child.2 hs, .inl ⟨e, he, rfl⟩⟩))
  | _ => exact hsilent _ trivial

/-- Nothing has failed for good, what is remembered are outcomes, and no callback has refused. -/
structure Run.Unrefused (g : Grammar υ σ) (input : Input) (run : Run υ σ) : Prop where
  calm : run.Calm
  sound : run.Sound g input
  accepted : ∀ kind start message, .rejected kind start message ∉ run.trace.toList

theorem Run.Unrefused.fresh (g : Grammar υ σ) (input : Input) (host : σ) :
    (Run.fresh input host : Run υ σ).Unrefused g input :=
  ⟨.fresh input host, Grammar.fresh_sound g input host, fun _ _ _ => List.not_mem_nil⟩

theorem Run.Unrefused.note {g : Grammar υ σ} {input : Input} {run : Run υ σ} {e : Event υ}
    (h : run.Unrefused g input) (hcalm : e.fatal? = none)
    (he : ∀ kind start message, e ≠ .rejected kind start message) :
    (run.note e).Unrefused g input := by
  refine ⟨h.calm.note hcalm, h.sound, fun kind start message hmem => ?_⟩
  obtain hmem | hmem := (Run.mem_trace_note ..).1 hmem
  · exact h.accepted kind start message hmem
  · exact he kind start message hmem.symm

theorem Run.Unrefused.withLimit {g : Grammar υ σ} {input : Input} {run : Run υ σ}
    (h : run.Unrefused g input) (limit : Cursor) : (run.withLimit limit).Unrefused g input :=
  ⟨⟨h.calm.trace, h.calm.memo⟩, h.sound, h.accepted⟩

/-- A callback that accepts adds no refusal. -/
theorem Run.Unrefused.call {g : Grammar υ σ} {input : Input} {run : Run υ σ} {β : Type}
    {self : Nat} {kind : CallbackKind} {f : Callback υ σ β} {start : Cursor} {m : Match υ}
    (h : run.Unrefused g input) (haccepts : ∀ e, ¬f.Answers m.shown (.error e)) :
    (Matcher.call self kind f start m run).2.Unrefused g input := by
  have hcalled := h.note (e := .called (run.site self start)) rfl fun _ _ _ he => nomatch he
  refine ⟨h.calm.call, h.sound.call, ?_⟩
  rw [Matcher.call_eq]
  dsimp only
  split
  · exact hcalled.accepted
  · next e he => exact absurd ⟨run.host, he⟩ (haccepts e)

namespace Grammar

/-! ## Sane entries -/

/-- A combinator over sane children that fails for no other reason than that it does not match. -/
inductive Sane (g : Grammar υ σ) : Nat → Prop
  | node {i n} (he : g.entries[i]? = some (.node n)) (hchildren : ∀ c ∈ n.children, Sane g c)
      (hfail : ∀ {input start limit f}, g.Settles input i start limit (.error f) →
        f.kind = .noMatch) : Sane g i

variable {g : Grammar υ σ} {config : Config} {input : Input} {budget i : Nat} {task : Task υ σ}
  {run run' : Run υ σ} {step : Step υ}

theorem Sane.noMatch (h : g.Sane i) {start limit : Cursor} {f : Fail}
    (hs : g.Settles input i start limit (.error f)) : f.kind = .noMatch := by
  obtain ⟨-, -, hfail⟩ := h
  exact hfail hs

/-- The task is to match a sane entry, or to carry out a plan over sane entries that is accepted. -/
def Sensible (g : Grammar υ σ) (input : Input) (limit : Cursor) : Task υ σ → Prop
  | .entry i _ => g.Sane i
  | .plan _ p => p.Strict g.Sane (fun _ _ => True) ∧ p.Accepted (g.Settles input) limit

theorem Sane.sensible {n : Node Nat υ σ} (h : g.Sane i) (he : g.entries[i]? = some (.node n))
    (input : Input) (start limit : Cursor) :
    g.Sensible input limit (.plan i (n.rule input start)) := by
  obtain ⟨he', hchildren, hfail⟩ := h
  obtain rfl := Entry.node.inj (Option.some.inj (he.symm.trans he'))
  exact ⟨n.strict_children input hchildren start,
    n.accepted_rule (settles_calm g input) fun f hf => hfail ((settles_node he).2 hf)⟩

theorem Sane.not_indirect (h : g.Sane i) {slot : Slot} :
    g.entries[i]? ≠ some (.indirect slot) := by
  obtain ⟨he, -, -⟩ := h
  rw [he]
  exact fun hslot => nomatch Option.some.inj hslot

/-- **Nothing is refused where entries are sane**, and nothing fails for good. -/
theorem Exec.unrefused (h : g.Exec config input budget task run step run')
    (htask : g.Sensible input run.limit task) (hrun : run.Unrefused g input) :
    Step.fatal? step = none ∧ run'.Unrefused g input := by
  induction h with
  | recalled hm he hs =>
    have hcalm := hrun.calm.memo _ _ hs
    exact ⟨hcalm, hrun.note hcalm fun _ _ _ he => nomatch he⟩
  | @stored budget i start run n step run' hm he hs h ih =>
    have hfirst := hrun.note (e := .evaluated (run.site i start)) rfl fun _ _ _ he => nomatch he
    obtain ⟨hcalm, hlast⟩ := ih (htask.sensible he input start run.limit) hfirst
    obtain ⟨⟨k, hk⟩, -⟩ := h.settles hfirst.sound hcalm
    have hdone := hlast.note (e := .settled (run.site i start) step) hcalm
      fun _ _ _ he => nomatch he
    exact ⟨hcalm, hdone.calm.remember hcalm,
      hdone.sound.remember ⟨k + 1, (settlesIn_node he).2 hk⟩, hdone.accepted⟩
  | @fresh budget i start run n step run' hm he h ih =>
    have hfirst := hrun.note (e := .evaluated (run.site i start)) rfl fun _ _ _ he => nomatch he
    obtain ⟨hcalm, hlast⟩ := ih (htask.sensible he input start run.limit) hfirst
    exact ⟨hcalm, hlast.note hcalm fun _ _ _ he => nomatch he⟩
  | reentered he => exact absurd he htask.not_indirect
  | tooDeep he => exact absurd he htask.not_indirect
  | entered he => exact absurd he htask.not_indirect
  | done hf => exact ⟨hf, hrun⟩
  | look h ih => exact ih ⟨htask.1 _, htask.2⟩ hrun
  | abort h hf hnext hkind ih =>
    obtain ⟨hcalm, -⟩ := ih htask.1.1 (hrun.withLimit _)
    rw [Step.fatal?_error_eq_none, hf] at hcalm
    cases hcalm
  | apply h hf hnext ihChild ihNext =>
    obtain ⟨-, hafter⟩ := ihChild htask.1.1 (hrun.withLimit _)
    obtain ⟨hsettles, -⟩ := h.settles hrun.sound hf
    exact ihNext ⟨htask.1.2.2 _ hf, htask.2 _ hsettles⟩ (hafter.withLimit _)
  | @call budget self run β kind start m next step run' f hnext ih =>
    have hlimit := (Matcher.call_agrees self kind f start m run).limit
    exact ih ⟨htask.1.2 _, hlimit ▸ htask.2.2 _⟩ (hrun.call htask.2.1)

/-- **A run of a sane root ends in the outcome of the root**, whatever the settings, and no callback
refuses on the way. -/
theorem run_sane (hpure : g.PureCallbacks) {root : Handle} (hroot : g.Owns root)
    (hsane : g.Sane root.index) (input : Input) (host : σ) :
    ∃ step, g.Settles input root.index .start input.stop step ∧ ∀ config, ∃ report,
      g.run config root input host = .ok report ∧ report.result = .ofStep step
        ∧ ∀ kind start message, .rejected kind start message ∉ report.trace.toList := by
  have hrun : ∀ config, ∃ step report, g.Settles input root.index .start input.stop step
      ∧ g.run config root input host = .ok report ∧ report.result = .ofStep step
      ∧ ∀ kind start message, .rejected kind start message ∉ report.trace.toList := by
    intro config
    obtain ⟨report, step, run', hreport, hexec, hresult, htrace⟩ := exec_run config hroot input host
    obtain ⟨hcalm, hlast⟩ := hexec.unrefused hsane (.fresh g input host)
    obtain ⟨hsettles, -⟩ := hexec.settles (fresh_sound g input host) hcalm
    exact ⟨step, report, hsettles, hreport, hresult, htrace ▸ hlast.accepted⟩
  obtain ⟨step, -, hsettles, -⟩ := hrun {}
  refine ⟨step, hsettles, fun config => ?_⟩
  obtain ⟨step', report, hsettles', hreport, hresult, haccepted⟩ := hrun config
  obtain rfl := Settles.unique hpure hsettles hsettles'
  exact ⟨report, hreport, hresult, haccepted⟩

/-! ## Types -/

end Grammar

variable {α β γ : Type}

/-- The match has one of the values, or it is a plain failure. -/
def Step.Typed (view : α → Option (Value υ)) : Step υ → Prop
  | .ok m => ∃ a, m.value = view a
  | .error f => f.kind = .noMatch

namespace Grammar

/-- The entry is sane, and `view` ranges over its values. -/
structure Types (g : Grammar υ σ) (i : Nat) (view : α → Option (Value υ)) : Prop where
  sane : g.Sane i
  value : ∀ {input start limit m}, g.Settles input i start limit (.ok m) → ∃ a, m.value = view a

variable {g : Grammar υ σ} {i j k : Nat} {view : α → Option (Value υ)}
  {view' : β → Option (Value υ)}

theorem Types.typed (h : g.Types i view) {input : Input} {start limit : Cursor} {step : Step υ}
    (hs : g.Settles input i start limit step) : step.Typed view := by
  cases step with
  | ok m => exact h.value hs
  | error f => exact h.sane.noMatch hs

theorem Types.of_node {n : Node Nat υ σ} (he : g.entries[i]? = some (.node n))
    (hchildren : ∀ c ∈ n.children, g.Sane c)
    (h : ∀ {input start limit step}, (n.rule input start).Yields (g.Settles input) limit step →
      step.Typed view) : g.Types i view where
  sane := .node he hchildren fun hs => h ((settles_node he).1 hs)
  value hs := h ((settles_node he).1 hs)

/-- Another function with at least the same range. -/
theorem Types.map (h : g.Types i view) (f : α → β) (hf : ∀ a, view a = view' (f a)) :
    g.Types i view' := by
  refine ⟨h.sane, fun hs => ?_⟩
  obtain ⟨a, ha⟩ := h.value hs
  exact ⟨f a, ha.trans (hf a)⟩

/-! ### Leaves -/

theorem types_bits {width : Nat} (he : g.entries[i]? = some (.node (.bits width false))) :
    g.Types i fun n : Fin (2 ^ width) => some (.word n width) := by
  refine .of_node he (fun _ hc => nomatch hc) fun hs => ?_
  obtain ⟨-, rfl⟩ | ⟨raw, stop, hread, rfl⟩ := Rule.yields_bits.1 hs
  · rfl
  · simp only [Input.readBits?, bind, pure, ↓guard_eq_ite, Option.bind_eq_some_iff,
      Option.ite_none_right_eq_some, Option.some.injEq, Prod.mk.injEq, Nat.one_shiftLeft] at hread
    obtain ⟨_, -, _, -, rfl, -⟩ := hread
    exact ⟨⟨_, Nat.mod_lt _ (Nat.two_pow_pos width)⟩, rfl⟩

theorem types_byte {b : UInt8} (he : g.entries[i]? = some (.node (.byte b))) :
    g.Types i fun _ : Unit => some (.word b.toNat 8) := by
  refine .of_node he (fun _ hc => nomatch hc) fun hs => ?_
  obtain ⟨-, rfl⟩ | ⟨found, -, hfound, rfl⟩ := Rule.yields_byteIf.1 hs
  · rfl
  · obtain rfl := eq_of_beq hfound
    exact ⟨(), rfl⟩

/-! ### In a row -/

/-- The values of entries in a row. -/
structure TypesAll (g : Grammar υ σ) (parts : List Nat) (view : α → List (Value υ)) : Prop where
  sane : ∀ c ∈ parts, g.Sane c
  typed : ∀ {input start limit cursor values step},
    (Rule.sequenceFrom start (parts.map (Rule.child (σ := σ))) cursor values).Yields
      (g.Settles input) limit step → step.Typed fun a => some (.sequence (values.toList ++ view a))

theorem typesAll_nil (g : Grammar υ σ) : g.TypesAll [] fun _ : Unit => [] := by
  refine ⟨fun _ hc => (nomatch hc), fun {input start limit cursor values step} hs => ?_⟩
  obtain rfl : Except.ok (Match.of cursor (.sequence values.toList)) = step := hs
  exact ⟨(), by rw [List.append_nil]; rfl⟩

theorem toList_collect (values : Array (Value υ)) (m : Match υ) :
    (m.collect values).toList = values.toList ++ m.value.toList := by
  rw [Match.collect]
  cases m.value <;> simp

theorem TypesAll.cons {parts : List Nat} {rest : β → List (Value υ)} (h : g.Types i view)
    (hs : g.TypesAll parts rest) :
    g.TypesAll (i :: parts) fun a : α × β => (view a.1).toList ++ rest a.2 := by
  refine ⟨List.forall_mem_cons.2 ⟨h.sane, hs.sane⟩, ?_⟩
  intro input start limit cursor values step hy
  obtain ⟨f, hf, rfl⟩ | ⟨m, hm, hy⟩ := Rule.yields_sequenceFrom_cons.1 hy
  · exact h.typed (Rule.yields_child.1 hf)
  · obtain ⟨a, ha⟩ := h.value (Rule.yields_child.1 hm)
    have hrest := hs.typed hy
    cases step with
    | error f => exact hrest
    | ok m' =>
      obtain ⟨b, hb⟩ := hrest
      refine ⟨(a, b), hb.trans ?_⟩
      dsimp only
      rw [toList_collect, ha, List.append_assoc]

theorem types_sequence {parts : List Nat} {views : α → List (Value υ)}
    (he : g.entries[i]? = some (.node (.sequence parts))) (h : g.TypesAll parts views) :
    g.Types i fun a => some (.sequence (views a)) :=
  .of_node he h.sane fun hs => h.typed hs

theorem Types.ignore (he : g.entries[i]? = some (.node (.ignore j))) (h : g.Types j view) :
    g.Types i fun _ : Unit => none := by
  refine .of_node he (fun _ hc => List.mem_singleton.1 hc ▸ h.sane) fun hs => ?_
  obtain ⟨f, hf, rfl⟩ | ⟨m, -, rfl⟩ := Rule.yields_ignore.1 hs
  · exact h.typed (Rule.yields_child.1 hf)
  · exact ⟨(), rfl⟩

/-- The integers of a range. -/
theorem Types.intRange {low high : Int}
    (he : g.entries[i]? = some (.node (.intRange j low high))) {number : α → Integer}
    (h : g.Types j fun a => some (.integer (number a))) :
    g.Types i fun a : { a // low ≤ (number a).toInt ∧ (number a).toInt ≤ high } =>
      some (.integer (number a)) := by
  refine .of_node he (fun _ hc => List.mem_singleton.1 hc ▸ h.sane) fun hs => ?_
  obtain ⟨f, hf, rfl⟩ | ⟨m, hm, ⟨⟨n, hn, hrange⟩, rfl⟩ | ⟨-, rfl⟩⟩ := Rule.yields_intRange.1 hs
  · exact h.typed (Rule.yields_child.1 hf)
  · obtain ⟨a, ha⟩ := h.value (Rule.yields_child.1 hm)
    rw [ha] at hn
    obtain rfl := Option.some.inj hn
    exact ⟨⟨a, hrange⟩, ha⟩
  · rfl

/-! ### Alternatives and repetition -/

theorem typed_choiceFrom {parts : List Nat} (h : ∀ c ∈ parts, g.Types c view) {input : Input}
    {start limit : Cursor} {best : Option Fail} (hbest : ∀ f ∈ best, f.kind = .noMatch)
    {step : Step υ} (hs : (Rule.choiceFrom start (parts.map (Rule.child (σ := σ))) best).Yields
      (g.Settles input) limit step) : step.Typed view := by
  induction parts generalizing best with
  | nil =>
    cases best with
    | none => exact hs ▸ rfl
    | some f => exact hs ▸ hbest f rfl
  | cons c parts ih =>
    have hc : g.Types c view := h c List.mem_cons_self
    obtain ⟨f, hf, hs⟩ | ⟨m, hm, rfl⟩ := (Rule.yields_choiceFrom_cons (settles_calm_child c)).1 hs
    · refine ih (fun c hc => h c (List.mem_cons_of_mem _ hc)) (fun f' hf' => ?_) hs
      have hkind : f.kind = .noMatch := hc.typed (Rule.yields_child.1 hf)
      obtain rfl := Option.some.inj hf'
      cases best with
      | none => exact hkind
      | some b =>
        rw [Option.map_some, Option.getD_some, Fail.deeper]
        split
        · exact hkind
        · exact hbest b rfl
    · exact hc.typed (Rule.yields_child.1 hm)

theorem types_choice {parts : List Nat} (he : g.entries[i]? = some (.node (.choice parts)))
    (h : ∀ c ∈ parts, g.Types c view) : g.Types i view :=
  .of_node he (fun c hc => (h c hc).sane) fun hs => typed_choiceFrom h (by simp) hs

theorem filterMap_concat (as : List α) (a : α) :
    (as ++ [a]).filterMap view = as.filterMap view ++ (view a).toList := by
  rw [List.filterMap_append, List.filterMap_cons]
  cases view a <;> rfl

theorem Types.continueFrom (h : g.Types j view) {input : Input} {limit cursor : Cursor} {room : Nat}
    {values : Array (Value υ)} {as : List α} (hvalues : values.toList = as.filterMap view)
    {step : Step υ} (hs : (Rule.continueFrom (Rule.child (σ := σ) j) room cursor values).Yields
      (g.Settles input) limit step) :
    step.Typed fun as : List α => some (.sequence (as.filterMap view)) := by
  induction room using Nat.strongRecOn generalizing cursor values as with
  | ind room ih =>
    obtain ⟨f, -, rfl⟩ | ⟨m, hm, hs⟩ := (Rule.yields_continueFrom (settles_calm_child j)).1 hs
    · exact ⟨as, congrArg (some ∘ Value.sequence) hvalues⟩
    · obtain ⟨a, ha⟩ := h.value (Rule.yields_child.1 hm)
      have hcollect : (m.collect values).toList = (as ++ [a]).filterMap view := by
        rw [toList_collect, hvalues, ha, filterMap_concat]
      obtain ⟨-, rfl⟩ | ⟨-, ⟨-, rfl⟩ | ⟨rest, rfl, hmore⟩⟩ := hs
      · exact ⟨as ++ [a], congrArg (some ∘ Value.sequence) hcollect⟩
      · exact ⟨as ++ [a], congrArg (some ∘ Value.sequence) hcollect⟩
      · exact ih rest (Nat.lt_succ_self rest) hcollect hmore

theorem Types.repeated {needed : Bool} (h : g.Types j view) {input : Input} {start limit : Cursor}
    {step : Step υ} (hs : (Rule.repeated (Rule.child (σ := σ) j) (Rule.child j) needed start).Yields
      (g.Settles input) limit step) :
    step.Typed fun as : List α => some (.sequence (as.filterMap view)) := by
  obtain ⟨f, hf, ⟨-, rfl⟩ | ⟨-, rfl⟩⟩ | ⟨m, hm, hs⟩ :=
    (Rule.yields_repeated (settles_calm_child j)).1 hs
  · exact h.typed (Rule.yields_child.1 hf)
  · exact ⟨[], rfl⟩
  · obtain ⟨a, ha⟩ := h.value (Rule.yields_child.1 hm)
    have hcollect : (m.collect #[]).toList = [a].filterMap view := by
      rw [toList_collect, ha]
      exact (filterMap_concat [] a).symm
    obtain ⟨-, rfl⟩ | ⟨-, hs⟩ := hs
    · exact ⟨[a], congrArg (some ∘ Value.sequence) hcollect⟩
    · exact h.continueFrom hcollect hs

theorem Types.many (he : g.entries[i]? = some (.node (.many j))) (h : g.Types j view) :
    g.Types i fun as : List α => some (.sequence (as.filterMap view)) :=
  .of_node he (fun _ hc => List.mem_singleton.1 hc ▸ h.sane) fun hs => h.repeated hs

theorem Types.many1 (he : g.entries[i]? = some (.node (.many1 j))) (h : g.Types j view) :
    g.Types i fun as : List α => some (.sequence (as.filterMap view)) :=
  .of_node he (fun _ hc => List.mem_singleton.1 hc ▸ h.sane) fun hs => h.repeated hs

/-! ### Windows and callbacks -/

theorem Types.lengthValue (he : g.entries[i]? = some (.node (.lengthValue j k)))
    (hl : g.Types j view) (hv : g.Types k view') : g.Types i view' := by
  refine .of_node he (List.forall_mem_cons.2 ⟨hl.sane, List.forall_mem_singleton.2 hv.sane⟩)
    fun hs => ?_
  obtain ⟨f, hf, rfl⟩ | ⟨ml, hml, ⟨-, rfl⟩ | ⟨stop, -, hs⟩⟩ := Rule.yields_lengthValue.1 hs
  · exact hl.typed (Rule.yields_child.1 hf)
  · rfl
  · obtain ⟨f, hf, rfl⟩ | ⟨mv, hmv, ⟨-, rfl⟩ | ⟨-, rfl⟩⟩ := hs
    · have hkind : f.kind = .noMatch := hv.typed (Rule.yields_childWithin.1 hf)
      exact hkind
    · exact hv.typed (Rule.yields_childWithin.1 hmv)
    · rfl

/-- A function that makes something of each value. -/
theorem Types.action {make : Value υ → Except CallbackError (Value υ)}
    (he : g.entries[i]? = some (.node (.action j (.ofFunction make)))) (h : g.Types j view)
    {made : α → Value υ} (hmake : ∀ a, make ((view a).getD .none) = .ok (made a)) :
    g.Types i fun a => some (made a) := by
  refine .of_node he (fun _ hc => List.mem_singleton.1 hc ▸ h.sane) fun hs => ?_
  obtain ⟨f, hf, rfl⟩ | ⟨m, hm, hanswer⟩ := Rule.yields_action.1 hs
  · exact h.typed (Rule.yields_child.1 hf)
  · obtain ⟨a, ha⟩ := h.value (Rule.yields_child.1 hm)
    have hshown : make m.shown = .ok (made a) := by rw [Match.shown, ha, hmake]
    obtain ⟨e, ⟨_, he⟩, -⟩ | ⟨v, ⟨_, hv⟩, rfl⟩ := hanswer
    · cases hshown.symm.trans he
    · obtain rfl := Except.ok.inj (hshown.symm.trans hv)
      exact ⟨a, rfl⟩

/-- A test that is made of each value. -/
theorem Types.satisfying {test : Value υ → Except CallbackError Bool}
    (he : g.entries[i]? = some (.node (.satisfying j (.ofFunction test)))) (h : g.Types j view)
    {accepts : α → Bool} (htest : ∀ a, test ((view a).getD .none) = .ok (accepts a)) :
    g.Types i fun a : { a // accepts a } => view a := by
  refine .of_node he (fun _ hc => List.mem_singleton.1 hc ▸ h.sane) fun hs => ?_
  obtain ⟨f, hf, rfl⟩ | ⟨m, hm, hanswer⟩ := Rule.yields_satisfying.1 hs
  · exact h.typed (Rule.yields_child.1 hf)
  · obtain ⟨a, ha⟩ := h.value (Rule.yields_child.1 hm)
    have hshown : test m.shown = .ok (accepts a) := by rw [Match.shown, ha, htest]
    obtain ⟨e, ⟨_, he⟩, -⟩ | ⟨⟨_, hb⟩, rfl⟩ | ⟨-, rfl⟩ := hanswer
    · cases hshown.symm.trans he
    · exact ⟨⟨a, Except.ok.inj (hshown.symm.trans hb)⟩, ha⟩
    · rfl

end Grammar

end Packrat
