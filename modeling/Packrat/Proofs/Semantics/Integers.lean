import Packrat.Proofs.Builder.Integers
import Packrat.Proofs.Engine.Loops
import Packrat.Proofs.Plan.Carriers
import Packrat.Proofs.Semantics.Soundness

/-!
# Proofs/Semantics/Integers — combinators that need integers

`intRange` and `lengthValue` need a child that gives integers, and the builder takes them only over
such a child (`Builder.Accepts`). It looks at the grammar as it is by then; but what it finds stays
so in the finished grammar (`Builder.Integral.of_finish`), and is so of every outcome, by induction
on the height at which an entry has it (`SettlesIn.isInteger`). In a run, then, a match of the child
carries an integer, and the integer alone decides what becomes of the match (`Weighs`).
-/

namespace Packrat

variable {υ σ : Type}

/-- The child that a combinator needs an integer from. -/
def Node.needsInteger? {ρ : Type} : Node ρ υ σ → Option ρ
  | intRange base _ _ => some base
  | lengthValue length _ => some length
  | _ => none

/-! ## Grammars -/

namespace Grammar

/-- The values of these entries come from these entries only, or are integers that an entry reads
itself. -/
def Integral (g : Grammar υ σ) (sound : Nat → Prop) : Prop :=
  ∀ i, sound i →
    (∃ node sources, g.entries[i]? = some (.node node) ∧ node.carriers = some sources
      ∧ ∀ c ∈ sources, sound c) ∨
    ∃ slot target, g.entries[i]? = some (.indirect slot) ∧ g.targets[slot.index]? = some target
      ∧ sound target

end Grammar

theorem Builder.Integral.of_finish {b : Builder υ σ} {g : Grammar υ σ} {sound : Nat → Prop}
    (h : b.Integral sound) (hg : b.finish = .ok g) : g.Integral sound := by
  obtain ⟨-, hentries, htargets⟩ := Builder.finish_eq_ok hg
  intro i hi
  obtain ⟨e, sources, he, hsources, hsound⟩ := h i hi
  rw [← hentries] at he
  cases e with
  | node node => exact .inl ⟨node, sources, he, hsources, hsound⟩
  | indirect slot =>
    obtain ⟨t, ht, rfl⟩ := Builder.carriers_indirect.1 hsources
    rw [← htargets, Option.map_eq_some_iff] at ht
    obtain ⟨target, htarget, hsome⟩ := ht
    obtain rfl := Option.some.inj hsome
    exact .inr ⟨slot, target, he, htarget, hsound target List.mem_cons_self⟩

namespace Grammar

variable {g : Grammar υ σ} {config : Config} {input : Input} {root : Handle} {host : σ}
  {S : Nat → Prop} {moment : Moment υ σ} {budget self i : Nat} {start limit : Cursor}
  {run run' : Run υ σ} {step : Step υ} {m : Match υ}

/-- **An outcome of an entry that is found to give integers carries one.** -/
theorem SettlesIn.isInteger {n : Nat} (hg : g.Integral S) (hi : S i)
    (h : g.SettlesIn input n i start limit (.ok m)) : m.IsInteger := by
  -- Values may come from one another in a circle, but the height goes down all the way.
  induction n generalizing i start limit m with
  | zero => exact h.elim
  | succ n ih =>
    obtain ⟨node, sources, he, hsources, hsound⟩ | ⟨slot, target, he, ht, htarget⟩ := hg i hi
    · refine Node.integer_of_carriers hsources (settlesIn_calm g input n) (fun c hc => ?_)
        ((settlesIn_node he).1 h)
      exact fun start limit m hm => ih (hsound c hc) hm
    · exact ih htarget ((settlesIn_indirect he ht).1 h)

/-! ## Runs -/

theorem Leads.sound {a b : Moment υ σ} (h : g.Leads config input a b) (ha : a.run.Sound g input) :
    b.run.Sound g input := by
  cases h with
  | rest h hf => exact (h.settles ha hf).2
  | called => exact ha.call
  | _ => exact ha

/-- What is remembered at a moment are outcomes. -/
theorem Passes.sound (h : g.Passes config input root host moment) : moment.run.Sound g input :=
  h.invariant (P := fun m => m.run.Sound g input) (fresh_sound g input host) fun ha hab =>
    hab.sound ha

/-- A match carries an integer if the entry is found to give integers. -/
theorem Exec.isInteger (h : g.Exec config input budget (.entry i start) run (.ok m) run')
    (hsound : run.Sound g input) (hg : g.Integral S) (hi : S i) : m.IsInteger := by
  obtain ⟨⟨n, hn⟩, -⟩ := h.settles hsound rfl
  exact SettlesIn.isInteger hg hi hn

/-! ## Plans that begin with a child -/

theorem Exec.of_done {s : Step υ} (h : g.Exec config input budget (.plan self (.done s)) run step
    run') : step = s ∧ run' = run := by
  cases h
  exact ⟨rfl, rfl⟩

/-- A plan that needs a child first ends with the child's failure, or goes on with its match. -/
theorem Exec.andThen_cases (window : Option Cursor) {c : Nat} {cursor : Cursor}
    {next : Match υ → Plan υ σ (Step υ)}
    (h : g.Exec config input budget
      (.plan self (Rule.andThen start (fun s => .apply window c s .done) cursor next)) run step
      run') :
    ∃ s run₁, g.applies config input budget c cursor (run.withLimit (window.getD run.limit)) s run₁
      ∧ ((∃ f, s = .error f ∧ step = .error (f.reportedAt start) ∧ run' = run₁.withLimit run.limit) ∨
        ∃ m, s = .ok m ∧
          g.Exec config input budget (.plan self (next m)) (run₁.withLimit run.limit) step run') := by
  cases h with
  | abort h hf hnext =>
    cases hnext
    exact ⟨_, _, h, .inl ⟨_, rfl, rfl, rfl⟩⟩
  | @apply _ _ _ _ _ _ _ s _ _ _ h hf hnext =>
    cases s with
    | error f =>
      obtain ⟨rfl, rfl⟩ := Exec.of_done hnext
      exact ⟨_, _, h, .inl ⟨f, rfl, rfl, rfl⟩⟩
    | ok m => exact ⟨_, _, h, .inr ⟨m, rfl, hnext⟩⟩

/-- The same for a child in the whole window. -/
theorem Exec.andThen_child {c : Nat} {cursor : Cursor} {next : Match υ → Plan υ σ (Step υ)}
    (h : g.Exec config input budget (.plan self (Rule.andThen start (.child c) cursor next)) run
      step run') :
    ∃ s run₁, g.applies config input budget c cursor run s run₁
      ∧ ((∃ f, s = .error f ∧ step = .error (f.reportedAt start) ∧ run' = run₁) ∨
        ∃ m, s = .ok m ∧ g.Exec config input budget (.plan self (next m)) run₁ step run') := by
  obtain ⟨s, run₁, hchild, hrest⟩ := Exec.andThen_cases none h
  have hchild : g.applies config input budget c cursor run s run₁ := hchild
  rw [hchild.agrees.withLimit_eq] at hrest
  exact ⟨s, run₁, hchild, hrest⟩

end Grammar

/-! ## What an integer decides -/

/-- A byte count has been read, and a window of so many bytes opens behind it. -/
structure Opens (A : Applies υ σ) (length : Nat) (start : Cursor) (run : Run υ σ) (m : Match υ)
    (stop : Cursor) (run' : Run υ σ) : Prop where
  applied : A length start run (.ok m) run'
  count : ∃ n count, m.value = some (.integer n) ∧ n.toWord? = some count
    ∧ m.stop.advanceBytes? count = some stop
  fits : stop ≤ run.limit

/-- What a combinator ends in that needs an integer from a child: a match of the child carries one,
and is turned down only for what the integer says. -/
inductive Weighs (A : Applies υ σ) (start : Cursor) (run : Run υ σ) :
    Node Nat υ σ → Step υ → Run υ σ → Prop
  /-- The child does not match. -/
  | failed {node child f run'} (hn : node.needsInteger? = some child)
      (h : A child start run (.error f) run') :
      Weighs A start run node (.error (f.reportedAt start)) run'
  /-- The integer lies in the range. -/
  | inside {base low high m n run'} (h : A base start run (.ok m) run')
      (hn : m.value = some (.integer n)) (hrange : low ≤ n.toInt ∧ n.toInt ≤ high) :
      Weighs A start run (.intRange base low high) (.ok m) run'
  /-- The integer lies outside the range. -/
  | outside {base low high m n run'} (h : A base start run (.ok m) run')
      (hn : m.value = some (.integer n)) (hrange : ¬(low ≤ n.toInt ∧ n.toInt ≤ high)) :
      Weighs A start run (.intRange base low high)
        (.error ((Fail.noMatch start).reached m.stop)) run'
  /-- The integer counts no bytes, or more than there are. -/
  | unfit {length value m n run'} (h : A length start run (.ok m) run')
      (hn : m.value = some (.integer n))
      (hunfit : ∀ count stop, n.toWord? = some count → m.stop.advanceBytes? count = some stop →
        ¬stop ≤ run.limit) :
      Weighs A start run (.lengthValue length value)
        (.error ((Fail.noMatch start).reached m.stop)) run'
  /-- The value does not match in the window. -/
  | unfilled {length value m stop run' f run''} (h : Opens A length start run m stop run')
      (hv : A value m.stop (run'.withLimit stop) (.error f) run'') :
      Weighs A start run (.lengthValue length value) (.error (f.reportedAt start))
        (run''.withLimit run.limit)
  /-- The value matches, but does not fill the window. -/
  | short {length value m stop run' mv run''} (h : Opens A length start run m stop run')
      (hv : A value m.stop (run'.withLimit stop) (.ok mv) run'') (hshort : mv.stop ≠ stop) :
      Weighs A start run (.lengthValue length value)
        (.error ((Fail.noMatch start).reached mv.stop)) (run''.withLimit run.limit)
  /-- The value fills the window. -/
  | filled {length value m stop run' mv run''} (h : Opens A length start run m stop run')
      (hv : A value m.stop (run'.withLimit stop) (.ok mv) run'') (hfull : mv.stop = stop) :
      Weighs A start run (.lengthValue length value) (.ok mv) (run''.withLimit run.limit)

theorem Rule.windowEnd?_eq_some {m : Match υ} {n : Integer} {limit stop : Cursor}
    (hn : m.value = some (.integer n)) : Rule.windowEnd? m limit = some stop ↔
      ∃ count, n.toWord? = some count ∧ m.stop.advanceBytes? count = some stop ∧ stop ≤ limit := by
  simp only [windowEnd?, hn, Option.bind_some, Value.word?, Value.integer?, bind, ↓guard_eq_ite,
    Option.bind_eq_some_iff, Option.ite_none_right_eq_some]
  constructor
  · rintro ⟨count, hcount, stop, hstop, -, ⟨hfits, -⟩, heq⟩
    obtain rfl := Option.some.inj heq
    exact ⟨count, hcount, hstop, hfits⟩
  · rintro ⟨count, hcount, hstop, hfits⟩
    exact ⟨count, hcount, stop, hstop, (), ⟨hfits, trivial⟩, rfl⟩

namespace Grammar

variable {g : Grammar υ σ} {config : Config} {input : Input} {budget self : Nat} {start : Cursor}
  {run run' : Run υ σ} {step : Step υ}

theorem Exec.weighs_intRange {base : Nat} {low high : Int}
    (h : g.Exec config input budget (.plan self (Rule.intRange (.child base) low high start)) run
      step run')
    (hbase : ∀ m run₁, g.applies config input budget base start run (.ok m) run₁ → m.IsInteger) :
    Weighs (g.applies config input budget) start run (.intRange base low high) step run' := by
  obtain ⟨s, run₁, hchild, ⟨f, rfl, rfl, rfl⟩ | ⟨m, rfl, hrest⟩⟩ := h.andThen_child
  · exact .failed rfl hchild
  · obtain ⟨n, hn⟩ := hbase m run₁ hchild
    simp only [hn, Option.bind_some, Value.integer?] at hrest
    split at hrest
    · next hrange =>
      obtain ⟨rfl, rfl⟩ := Exec.of_done hrest
      exact .inside hchild hn hrange
    · next hrange =>
      obtain ⟨rfl, rfl⟩ := Exec.of_done hrest
      exact .outside hchild hn hrange

theorem Exec.weighs_lengthValue {length value : Nat}
    (h : g.Exec config input budget
      (.plan self (Rule.lengthValue (.child length) (.childWithin value) start)) run step run')
    (hlength : ∀ m run₁, g.applies config input budget length start run (.ok m) run₁ →
      m.IsInteger) :
    Weighs (g.applies config input budget) start run (.lengthValue length value) step run' := by
  obtain ⟨s, run₁, hchild, ⟨f, rfl, rfl, rfl⟩ | ⟨m, rfl, hrest⟩⟩ := h.andThen_child
  · exact .failed rfl hchild
  · obtain ⟨n, hn⟩ := hlength m run₁ hchild
    cases hrest with
    | look hrest =>
    simp only [Plan.bind_done, hchild.agrees.limit] at hrest
    split at hrest
    · next hnone =>
      obtain ⟨rfl, rfl⟩ := Exec.of_done hrest
      refine .unfit hchild hn fun count stop hcount hstop hfits => ?_
      cases hnone.symm.trans ((Rule.windowEnd?_eq_some hn).2 ⟨count, hcount, hstop, hfits⟩)
    · next stop hwindow =>
      -- The rest of the plan is again one that begins with a child, in the window this time.
      obtain ⟨count, hcount, hstop, hfits⟩ := (Rule.windowEnd?_eq_some hn).1 hwindow
      have hopens : Opens (g.applies config input budget) length start run m stop run₁ :=
        ⟨hchild, ⟨n, count, hn, hcount, hstop⟩, hfits⟩
      obtain ⟨s, run₂, hvalue, ⟨f, rfl, rfl, rfl⟩ | ⟨mv, rfl, hrest⟩⟩ :=
        Exec.andThen_cases (some stop) hrest
      · rw [hchild.agrees.limit]
        exact .unfilled hopens hvalue
      · rw [hchild.agrees.limit] at hrest
        split at hrest
        · next hfull =>
          obtain ⟨rfl, rfl⟩ := Exec.of_done hrest
          exact .filled hopens hvalue hfull
        · next hshort =>
          obtain ⟨rfl, rfl⟩ := Exec.of_done hrest
          exact .short hopens hvalue hshort

/-- The integer decides, for either of the combinators that need one. -/
theorem Exec.weighs {node : Node Nat υ σ} {child : Nat} (hn : node.needsInteger? = some child)
    (h : g.Exec config input budget (.plan self (node.rule input start)) run step run')
    (hchild : ∀ m run₁, g.applies config input budget child start run (.ok m) run₁ →
      m.IsInteger) :
    Weighs (g.applies config input budget) start run node step run' := by
  cases node with
  | intRange base low high =>
    cases hn
    exact Exec.weighs_intRange h hchild
  | lengthValue length value =>
    cases hn
    exact Exec.weighs_lengthValue h hchild
  | _ => cases hn

end Grammar

/-! ## Builds -/

theorem Node.needsInteger?_map {ρ ρ' : Type} (f : ρ → ρ') (node : Node ρ υ σ) :
    (node.map f).needsInteger? = node.needsInteger?.map f := by
  cases node <;> rfl

/-- A combinator that needs an integer is accepted over a child that is found to give integers. -/
theorem Builder.Accepts.producesInteger {b : Builder υ σ} {request : Node Handle υ σ}
    {parser : Handle} (h : b.Accepts request) (hneeds : request.needsInteger? = some parser) :
    b.producesInteger parser.index = true := by
  cases request with
  | intRange base low high =>
    cases hneeds
    exact h.2.2
  | lengthValue length value =>
    cases hneeds
    exact h.2
  | _ => cases hneeds

namespace Grammar

variable {g : Grammar υ σ} {root : Handle}

/-- The combinator is where its handle says, whatever else is called. -/
theorem entry_of_made {b : Builder υ σ} {request : Node Handle υ σ} {made : Handle}
    {calls : List (Call υ σ)} (hmade : (b.perform (.add request)).1 = .ok (.made made))
    (hfinish : (b.performAll (.add request :: calls)).2.finish = .ok g) :
    g.entries[made.index]? = some (.node (request.map Handle.index)) := by
  obtain ⟨-, rfl, hlt, hadded⟩ := Builder.perform_add_made hmade
  obtain ⟨-, hentries, -⟩ := Builder.finish_eq_ok hfinish
  rw [hentries, Builder.performAll_cons, hadded]
  exact (Builder.extends_performAll _ calls).entry (Builder.getElem?_append_size hlt)

/-- What is found to give integers at some moment of a build is so in the finished grammar. -/
theorem integral_of_finish {b : Builder υ σ} {calls : List (Call υ σ)}
    (hfinish : (b.performAll calls).2.finish = .ok g) :
    g.Integral fun i => b.producesInteger i = true :=
  (b.integral_producesInteger.extends (b.extends_performAll calls)).of_finish hfinish

/-- **The integer check is right about every run.** Whatever is called before and afterwards, a
combinator that needs an integer is accepted only over a child whose matches all carry one, in every
run of the finished grammar. So the combinator never turns a match down for lack of an integer: it
fails as the child fails, or for what the integer says, or as the value in the window does. -/
theorem run_integers (owner : Nat) {before after : List (Call υ σ)} {request : Node Handle υ σ}
    {parser made : Handle} (hneeds : request.needsInteger? = some parser)
    (hmade : (((Builder.new owner).performAll before).2.perform (.add request)).1
      = .ok (.made made))
    (hfinish :
      ((Builder.new owner).performAll (before ++ .add request :: after)).2.finish = .ok g)
    (config : Config) (hroot : g.Owns root) (input : Input) (host : σ) :
    ∃ report step run', g.run config root input host = .ok report
      ∧ g.Exec config input config.maxRecursionDepth (.entry root.index .start)
        (.fresh input host) step run'
      ∧ report.result = .ofStep step
      ∧ (∀ budget start run m run',
        g.Passes config input root host ⟨budget, .entry parser.index start, run⟩ →
        g.Exec config input budget (.entry parser.index start) run (.ok m) run' →
          ∃ n, m.value = some (.integer n))
      ∧ g.entries[made.index]? = some (.node (request.map Handle.index))
      ∧ ∀ budget start run step run',
        g.Passes config input root host
          ⟨budget, .plan made.index ((request.map Handle.index).rule input start), run⟩ →
        g.Exec config input budget
          (.plan made.index ((request.map Handle.index).rule input start)) run step run' →
          Weighs (g.applies config input budget) start run (request.map Handle.index) step
            run' := by
  obtain ⟨report, step, run', hrun, hexec, hresult, -⟩ := exec_run config hroot input host
  obtain ⟨haccepts, -⟩ := Builder.perform_add_made hmade
  have hparser := haccepts.producesInteger hneeds
  rw [Builder.performAll_append] at hfinish
  have hg := integral_of_finish hfinish
  refine ⟨report, step, run', hrun, hexec, hresult, fun budget start run m run' hpass h => ?_,
    entry_of_made hmade hfinish, fun budget start run step run' hpass h => ?_⟩
  · exact h.isInteger hpass.sound hg hparser
  · have hchild : (request.map Handle.index).needsInteger? = some parser.index := by
      rw [Node.needsInteger?_map, hneeds, Option.map_some]
    exact Exec.weighs hchild h fun m run₁ h => Exec.isInteger h hpass.sound hg hparser

/-- A placeholder for a byte is bound before its integer is limited to a digit, and another one
afterwards. -/
theorem run_integers_digit : ∃ g : Grammar Unit Unit,
    ((Builder.new 0).performAll ([.indirect, .add (.uint 1), .bind ⟨0, 0⟩ ⟨0, 1⟩] ++
      .add (.intRange ⟨0, 0⟩ 0 9) :: [.indirect, .bind ⟨0, 3⟩ ⟨0, 2⟩])).2.finish = .ok g ∧
    ∃ report step run', g.run {} ⟨0, 3⟩ ⟨#[7]⟩ () = .ok report
      ∧ g.Exec {} ⟨#[7]⟩ ({} : Config).maxRecursionDepth (.entry 3 .start) (.fresh ⟨#[7]⟩ ()) step
        run'
      ∧ report.result = .ofStep step
      ∧ (∀ budget start run m run',
        g.Passes {} ⟨#[7]⟩ ⟨0, 3⟩ () ⟨budget, .entry 0 start, run⟩ →
        g.Exec {} ⟨#[7]⟩ budget (.entry 0 start) run (.ok m) run' →
          ∃ n, m.value = some (.integer n))
      ∧ g.entries[2]? = some (.node (.intRange 0 0 9))
      ∧ ∀ budget start run step run',
        g.Passes {} ⟨#[7]⟩ ⟨0, 3⟩ ()
          ⟨budget, .plan 2 ((Node.intRange 0 0 9).rule ⟨#[7]⟩ start), run⟩ →
        g.Exec {} ⟨#[7]⟩ budget (.plan 2 ((Node.intRange 0 0 9).rule ⟨#[7]⟩ start)) run step run' →
          Weighs (g.applies {} ⟨#[7]⟩ budget) start run (.intRange 0 0 9) step run' := by
  obtain ⟨g, hg⟩ : ∃ g : Grammar Unit Unit,
      ((Builder.new 0).performAll ([.indirect, .add (.uint 1), .bind ⟨0, 0⟩ ⟨0, 1⟩] ++
        .add (.intRange ⟨0, 0⟩ 0 9) :: [.indirect, .bind ⟨0, 3⟩ ⟨0, 2⟩])).2.finish = .ok g :=
    Builder.exists_finish (by decide)
  obtain ⟨hid, hentries, -⟩ := Builder.finish_eq_ok hg
  have hroot : g.Owns ⟨0, 3⟩ := ⟨hid.symm, by rw [hentries]; decide⟩
  exact ⟨g, hg, run_integers 0 rfl rfl hg {} hroot ⟨#[7]⟩ ()⟩

end Grammar

end Packrat
