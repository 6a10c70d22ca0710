import Packrat.Proofs.Plan.Strict

/-!
# Proofs/Plan/Recalls — what a failure tells of those before it

A failure *recalls* an earlier one when it has got at least as far (`Fail.Recalls`). Only a fatal
failure need not tell of an ordinary one: it ends everything, and what was tried before is left out.

A combinator that fails recalls every failure of a child, but one that matches says nothing of the
children that failed. As a property of plans: whatever a plan does once a child has failed, the
plan's own failure recalls the child's (`Plan.Recalling`).

Main statement: the rule of every combinator is recalling (`Node.recalling_rule`).
-/

namespace Packrat

variable {υ σ : Type}

/-! ## Failures -/

namespace Fail

/-- The failure tells of an earlier one: it is fatal if that one is, and it has got as far, unless
it is fatal and the other is not. -/
structure Recalls (f earlier : Fail) : Prop where
  fatal : earlier.isFatal → f.isFatal
  deepest : (f.isFatal → earlier.isFatal) → earlier.deepest ≤ f.deepest

namespace Recalls

variable {f g earlier : Fail}

theorem refl (f : Fail) : f.Recalls f := ⟨id, fun _ => Std.le_refl _⟩

theorem trans (h : f.Recalls g) (h' : g.Recalls earlier) : f.Recalls earlier :=
  ⟨fun he => h.fatal (h'.fatal he), fun hfatal =>
    Std.le_trans (h'.deepest fun hg => hfatal (h.fatal hg))
      (h.deepest fun hf => h'.fatal (hfatal hf))⟩

theorem reportedAt (f : Fail) (position : Cursor) : (f.reportedAt position).Recalls f :=
  ⟨id, fun _ => Std.left_le_max⟩

/-- A fatal failure says nothing of an ordinary one. -/
theorem of_fatal (hf : f.isFatal) (he : ¬earlier.isFatal) : f.Recalls earlier :=
  ⟨fun h => absurd h he, fun h => absurd (h hf) he⟩

theorem of_ordinary (he : ¬earlier.isFatal) (hle : earlier.deepest ≤ f.deepest) :
    f.Recalls earlier :=
  ⟨fun h => absurd h he, fun _ => hle⟩

theorem deeper_left (hf : ¬f.isFatal) (g : Fail) : (f.deeper g).Recalls f := by
  refine .of_ordinary hf ?_
  rw [Fail.deeper]
  split
  · exact Std.le_of_lt ‹_›
  · exact Std.le_refl _

theorem deeper_right (f : Fail) (hg : ¬g.isFatal) : (f.deeper g).Recalls g := by
  refine .of_ordinary hg ?_
  rw [Fail.deeper]
  split
  · exact Std.le_refl _
  · exact Std.not_lt.1 ‹_›

end Recalls

end Fail

/-! ## Plans -/

namespace Plan

/-- If the plan ends in a failure, that recalls the earlier one. -/
def Recalls (earlier : Fail) : Plan υ σ (Step υ) → Prop
  | done step => ∀ f, step = .error f → f.Recalls earlier
  | look next => ∀ limit, (next limit).Recalls earlier
  | apply _ _ _ next => ∀ step, (next step).Recalls earlier
  | call _ _ _ _ next => ∀ answer, (next answer).Recalls earlier

/-- If the plan ends in a failure, that recalls those of the children it has matched. -/
def Recalling : Plan υ σ (Step υ) → Prop
  | done _ => True
  | look next => ∀ limit, (next limit).Recalling
  | apply _ _ _ next => (∀ f, (next (.error f)).Recalls f) ∧ ∀ step, (next step).Recalling
  | call _ _ _ _ next => ∀ answer, (next answer).Recalling

/-- The plan fails as soon as a child does, with a failure that recalls the child's. -/
def Relays : Plan υ σ (Step υ) → Prop
  | done _ => True
  | look next => ∀ limit, (next limit).Relays
  | apply _ _ _ next =>
    (∀ f, ∃ f' : Fail, next (.error f) = done (.error f') ∧ f'.Recalls f)
      ∧ ∀ step, (next step).Relays
  | call _ _ _ _ next => ∀ answer, (next answer).Relays

variable {p : Plan υ σ (Step υ)} {next : Step υ → Plan υ σ (Step υ)} {f earlier : Fail}

theorem recalls_ok (m : Match υ) : (done (.ok m) : Plan υ σ (Step υ)).Recalls earlier :=
  fun _ h => nomatch h

theorem recalls_error (h : f.Recalls earlier) :
    (done (.error f) : Plan υ σ (Step υ)).Recalls earlier := by
  intro f' hf'
  obtain rfl := Except.error.inj hf'
  exact h

theorem Recalls.mono (h : p.Recalls f) (hf : f.Recalls earlier) : p.Recalls earlier := by
  induction p with
  | done step => exact fun f' hf' => (h f' hf').trans hf
  | look next ih => exact fun limit => ih limit (h limit)
  | apply window index start next ih => exact fun step => ih step (h step)
  | call kind callback start m next ih => exact fun answer => ih answer (h answer)

/-- What ends a plan decides what the plan recalls. -/
theorem recalls_bind (h : ∀ step, (next step).Recalls earlier) :
    (p.bind next).Recalls earlier := by
  induction p with
  | done step => exact h step
  | look rest ih => exact fun limit => ih limit
  | apply window index start rest ih => exact fun step => ih step
  | call kind callback start m rest ih => exact fun answer => ih answer

theorem Relays.bind (hp : p.Relays) (hfail : ∀ f, (next (.error f)).Recalls f)
    (hnext : ∀ step, (next step).Recalling) : (p.bind next).Recalling := by
  induction p with
  | done step => exact hnext step
  | look rest ih => exact fun limit => ih limit (hp limit)
  | apply window index start rest ih =>
    refine ⟨fun f => ?_, fun step => ih step (hp.2 step)⟩
    obtain ⟨f', hrest, hf'⟩ := hp.1 f
    simp only [hrest, bind_done]
    exact (hfail f').mono hf'
  | call kind callback start m rest ih => exact fun answer => ih answer (hp answer)

/-- Every failure ends the plan, reported in some way. -/
theorem Relays.pass (hp : p.Relays)
    (hfail : ∀ f, ∃ f' : Fail, next (.error f) = done (.error f') ∧ f'.Recalls f)
    (hmatch : ∀ m, (next (.ok m)).Recalling) : (p.bind next).Recalling := by
  refine hp.bind (fun f => ?_) fun step => ?_
  · obtain ⟨f', hf', hrecalls⟩ := hfail f
    rw [hf']
    exact recalls_error hrecalls
  · cases step with
    | ok m => exact hmatch m
    | error f =>
      obtain ⟨f', hf', -⟩ := hfail f
      rw [hf']
      trivial

/-- A fatal failure ends the plan as it is; another one is gone on with. -/
theorem Relays.absorb {onFail : Fail → Plan υ σ (Step υ)} (hp : p.Relays)
    (hnext : ∀ f : Fail, next (.error f) = if f.isFatal then done (.error f) else onFail f)
    (hmatch : ∀ m, (next (.ok m)).Recalling)
    (hfail : ∀ f : Fail, ¬f.isFatal → (onFail f).Recalls f ∧ (onFail f).Recalling) :
    (p.bind next).Recalling := by
  refine hp.bind (fun f => ?_) fun step => ?_
  · rw [hnext]
    split
    · exact recalls_error (.refl f)
    · exact (hfail f ‹_›).1
  · cases step with
    | ok m => exact hmatch m
    | error f =>
      rw [hnext]
      split
      · trivial
      · exact (hfail f ‹_›).2

/-- The plan goes on with another one that fails as soon as a child does. -/
theorem Relays.relay (hp : p.Relays)
    (hfail : ∀ f, ∃ f' : Fail, next (.error f) = done (.error f') ∧ f'.Recalls f)
    (hmatch : ∀ m, (next (.ok m)).Relays) : (p.bind next).Relays := by
  induction p with
  | done step =>
    cases step with
    | ok m => exact hmatch m
    | error f =>
      obtain ⟨f', hf', -⟩ := hfail f
      rw [bind_done, hf']
      trivial
  | look rest ih => exact fun limit => ih limit (hp limit)
  | apply window index start rest ih =>
    refine ⟨fun f => ?_, fun step => ih step (hp.2 step)⟩
    obtain ⟨f', hrest, hf'⟩ := hp.1 f
    obtain ⟨f'', hnext, hf''⟩ := hfail f'
    exact ⟨f'', by simp only [hrest, bind_done, hnext], hf''.trans hf'⟩
  | call kind callback start m rest ih => exact fun answer => ih answer (hp answer)

end Plan

/-! ## Rules -/

namespace Rule

open Plan

variable {first second third : Rule υ σ}

/-- Whatever the cursor, the rule's plan fails as soon as a child does. -/
abbrev Relays (rule : Rule υ σ) : Prop := ∀ start, (rule start).Relays

/-- Whatever the cursor, the rule's plan is recalling. -/
abbrev Recalling (rule : Rule υ σ) : Prop := ∀ start, (rule start).Recalling

theorem relays_child (index : Nat) : (Rule.child index : Rule υ σ).Relays :=
  fun _ => ⟨fun f => ⟨f, rfl, .refl f⟩, fun _ => trivial⟩

theorem relays_childWithin (index : Nat) (stop : Cursor) :
    (Rule.childWithin index stop : Rule υ σ).Relays :=
  fun _ => ⟨fun f => ⟨f, rfl, .refl f⟩, fun _ => trivial⟩

theorem Relays.separated (hi : first.Relays) (hs : second.Relays) :
    (Rule.separated first second).Relays :=
  fun start => (hs start).relay (fun f => ⟨f, rfl, .refl f⟩) fun m => hi m.stop

theorem recalling_ofRead (start : Cursor) (found : Option (Match υ)) :
    (ofRead start found : Plan υ σ (Step υ)).Recalling := by
  cases found <;> trivial

theorem recalling_atEnd : (Rule.atEnd : Rule υ σ).Recalling := by
  intro start limit
  simp only [Plan.bind_done, Plan.pure_eq_done]
  split <;> trivial

/-! ### In a row -/

theorem Relays.andThen {start cursor : Cursor} {next : Match υ → Plan υ σ (Step υ)}
    (h : first.Relays) (hnext : ∀ m, (next m).Recalling) :
    (Rule.andThen start first cursor next).Recalling :=
  (h cursor).pass (fun f => ⟨f.reportedAt start, rfl, .reportedAt f start⟩) hnext

theorem Relays.sequenceFrom {start cursor : Cursor} {parts : List (Rule υ σ)}
    {values : Array (Value υ)} (h : ∀ r ∈ parts, r.Relays) :
    (Rule.sequenceFrom start parts cursor values).Recalling := by
  induction parts generalizing cursor values with
  | nil => trivial
  | cons part parts ih =>
    have hpart : part.Relays := h part List.mem_cons_self
    exact hpart.andThen fun _ => ih fun r hr => h r (List.mem_cons_of_mem _ hr)

theorem Relays.left (ha : first.Relays) (hb : second.Relays) :
    (Rule.left first second).Recalling :=
  fun _ => ha.andThen fun _ => hb.andThen fun _ => trivial

theorem Relays.right (ha : first.Relays) (hb : second.Relays) :
    (Rule.right first second).Recalling :=
  fun _ => ha.andThen fun _ => hb.andThen fun _ => trivial

theorem Relays.middle (ha : first.Relays) (hb : second.Relays) (hc : third.Relays) :
    (Rule.middle first second third).Recalling :=
  fun _ => ha.andThen fun _ => hb.andThen fun _ => hc.andThen fun _ => trivial

theorem Relays.whitespace (input : Input) (h : first.Relays) :
    (Rule.whitespace input first).Recalling :=
  fun _ _ => h.andThen fun _ => trivial

/-- What changes matches only recalls what the rule recalls. -/
theorem Relays.map (f : Cursor → Match υ → Match υ) (h : first.Relays) :
    Recalling fun start => (first start).bind fun step => .done (step.map (f start)) :=
  fun start => (h start).pass (fun g => ⟨g, rfl, .refl g⟩) fun _ => trivial

theorem Relays.intRange (low high : Int) (h : first.Relays) :
    (Rule.intRange first low high).Recalling := by
  intro _
  refine h.andThen fun m => ?_
  split
  · split <;> trivial
  · trivial

/-! ### Alternatives -/

/-- The failure to report so far is recalled in the end. -/
theorem recalls_choiceFrom {start : Cursor} {alternatives : List (Rule υ σ)} {best earlier : Fail}
    (hbest : ¬best.isFatal) (hearlier : best.Recalls earlier) :
    (Rule.choiceFrom start alternatives (some best)).Recalls earlier := by
  have hordinary : ¬earlier.isFatal := mt hearlier.fatal hbest
  induction alternatives generalizing best with
  | nil => exact recalls_error ((Fail.Recalls.reportedAt best start).trans hearlier)
  | cons alternative alternatives ih =>
    refine recalls_bind fun step => ?_
    cases step with
    | ok m => exact recalls_ok m
    | error f =>
      dsimp only
      split
      · exact recalls_error (.of_fatal ‹_› hordinary)
      · next hf =>
        exact ih (Fail.not_isFatal_deeper hbest hf)
          ((Fail.Recalls.deeper_left hbest f).trans hearlier)

theorem Relays.choiceFrom {start : Cursor} {alternatives : List (Rule υ σ)} {best : Option Fail}
    (h : ∀ r ∈ alternatives, r.Relays) (hbest : ∀ f ∈ best, ¬f.isFatal) :
    (Rule.choiceFrom start alternatives best).Recalling := by
  induction alternatives generalizing best with
  | nil => trivial
  | cons alternative alternatives ih =>
    have halternative : alternative.Relays := h alternative List.mem_cons_self
    refine (halternative start).absorb (fun _ => rfl) (fun _ => trivial) fun f hf => ?_
    have hrest : ∀ r ∈ alternatives, r.Relays := fun r hr => h r (List.mem_cons_of_mem _ hr)
    cases best with
    | none =>
      refine ⟨recalls_choiceFrom hf (.refl f), ih hrest fun f' hf' => ?_⟩
      obtain rfl := Option.some.inj hf'
      exact hf
    | some b =>
      have hdeeper := Fail.not_isFatal_deeper (hbest b rfl) hf
      refine ⟨recalls_choiceFrom hdeeper (.deeper_right b hf), ih hrest fun f' hf' => ?_⟩
      obtain rfl := Option.some.inj hf'
      exact hdeeper

theorem Relays.butnot (ha : first.Relays) (hb : second.Relays) :
    (Rule.butnot first second).Recalling := by
  intro start
  refine (ha start).pass (fun f => ⟨f, rfl, .refl f⟩) fun ma => ?_
  refine (hb start).absorb (fun _ => rfl) (fun mb => ?_) fun _ _ => ⟨recalls_ok ma, trivial⟩
  dsimp only
  split <;> trivial

theorem Relays.difference (ha : first.Relays) (hb : second.Relays) :
    (Rule.difference first second).Recalling := by
  intro start
  refine (ha start).pass (fun f => ⟨f, rfl, .refl f⟩) fun ma => ?_
  exact (hb start).absorb (fun _ => rfl) (fun _ => trivial) fun _ _ => ⟨recalls_ok ma, trivial⟩

theorem Relays.xor (ha : first.Relays) (hb : second.Relays) :
    (Rule.xor first second).Recalling := by
  intro start
  refine (ha start).absorb (fun _ => rfl) (fun ma => ?_) fun f hf => ⟨?_, ?_⟩
  · exact (hb start).absorb (fun _ => rfl) (fun _ => trivial) fun _ _ => ⟨recalls_ok ma, trivial⟩
  · refine recalls_bind fun step => ?_
    cases step with
    | ok mb => exact recalls_ok mb
    | error g =>
      dsimp only
      split
      · exact recalls_error (.of_fatal ‹_› hf)
      · exact recalls_error ((Fail.Recalls.reportedAt _ start).trans (.deeper_left hf g))
  · refine (hb start).absorb (fun _ => rfl) (fun _ => trivial) fun g hg => ⟨?_, trivial⟩
    exact recalls_error ((Fail.Recalls.reportedAt _ start).trans (.deeper_right f hg))

/-! ### Repetition -/

theorem Relays.continueFrom (h : first.Relays) {room : Nat} {cursor : Cursor}
    {values : Array (Value υ)} : (Rule.continueFrom first room cursor values).Recalling := by
  induction room using Nat.strongRecOn generalizing cursor values with
  | ind room ih =>
    rw [Rule.continueFrom_eq]
    refine (h cursor).absorb (fun _ => rfl) (fun m => ?_) fun _ _ => ⟨recalls_ok _, trivial⟩
    dsimp only
    split
    · cases room with
      | zero => trivial
      | succ rest => exact ih rest (Nat.lt_succ_self rest)
    · trivial

theorem Relays.repeated (needed : Bool) (hf : first.Relays) (hn : second.Relays) :
    (Rule.repeated first second needed).Recalling := by
  intro start
  refine (hf start).absorb (fun _ => rfl) (fun m => ?_) fun f _ => ?_
  · dsimp only
    split
    · exact fun limit => hn.continueFrom
    · trivial
  · split
    · exact ⟨recalls_error (.reportedAt f start), trivial⟩
    · exact ⟨recalls_ok _, trivial⟩

theorem Relays.repeatFrom (h : first.Relays) {count : Nat} {cursor : Cursor}
    {values : Array (Value υ)} : (Rule.repeatFrom first count cursor values).Recalling := by
  induction count generalizing cursor values with
  | zero => trivial
  | succ count ih => exact h.andThen fun _ => ih

theorem Relays.optional (h : first.Relays) : (Rule.optional first).Recalling :=
  fun start => (h start).absorb (fun _ => rfl) (fun _ => trivial) fun _ _ => ⟨recalls_ok _, trivial⟩

theorem Relays.not (h : first.Relays) : (Rule.not first).Recalling :=
  fun start => (h start).absorb (fun _ => rfl) (fun _ => trivial) fun _ _ => ⟨recalls_ok _, trivial⟩

/-! ### Windows and callbacks -/

theorem Relays.lengthValue {value : Cursor → Rule υ σ} (hl : first.Relays)
    (hv : ∀ stop, (value stop).Relays) : (Rule.lengthValue first value).Recalling := by
  intro _
  refine hl.andThen fun ml limit => ?_
  simp only [Plan.bind_done, Plan.pure_eq_done]
  split
  · trivial
  · refine (hv _).andThen fun mv => ?_
    split <;> trivial

theorem Relays.action {act : Action υ σ} (h : first.Relays) :
    (Rule.action first act).Recalling := by
  intro start
  refine (h start).pass (fun f => ⟨f, rfl, .refl f⟩) fun m answer => ?_
  cases answer <;> trivial

theorem Relays.satisfying {accepts : Predicate υ σ} (h : first.Relays) :
    (Rule.satisfying first accepts).Recalling := by
  intro start
  refine (h start).pass (fun f => ⟨f, rfl, .refl f⟩) fun m answer => ?_
  cases answer with
  | ok b => cases b <;> trivial
  | error e => trivial

end Rule

/-! ## Nodes -/

/-- **Every combinator is recalling.** -/
theorem Node.recalling_rule (input : Input) (n : Node Nat υ σ) : (n.rule input).Recalling := by
  have hc : ∀ c, (Rule.child c : Rule υ σ).Relays := Rule.relays_child
  cases n with
  | token bytes => exact fun _ _ => Rule.recalling_ofRead _ _
  | byte b => exact fun _ _ => Rule.recalling_ofRead _ _
  | byteRange low high => exact fun _ _ => Rule.recalling_ofRead _ _
  | byteIn set => exact fun _ _ => Rule.recalling_ofRead _ _
  | bits width signed => exact fun _ _ => Rule.recalling_ofRead _ _
  | atEnd => exact Rule.recalling_atEnd
  | never => exact fun _ => trivial
  | empty => exact fun _ => trivial
  | intRange base low high => exact (hc base).intRange low high
  | whitespace p => exact (hc p).whitespace input
  | left a b => exact (hc a).left (hc b)
  | right a b => exact (hc a).right (hc b)
  | middle a b c => exact (hc a).middle (hc b) (hc c)
  | sequence ps =>
    intro _
    refine Rule.Relays.sequenceFrom fun r hr => ?_
    obtain ⟨c, -, rfl⟩ := List.mem_map.1 hr
    exact hc c
  | choice ps =>
    intro _
    refine Rule.Relays.choiceFrom (fun r hr => ?_) (by simp)
    obtain ⟨c, -, rfl⟩ := List.mem_map.1 hr
    exact hc c
  | butnot a b => exact (hc a).butnot (hc b)
  | difference a b => exact (hc a).difference (hc b)
  | xor a b => exact (hc a).xor (hc b)
  | many p => exact (hc p).repeated false (hc p)
  | many1 p => exact (hc p).repeated true (hc p)
  | repeatN p count => exact fun _ => (hc p).repeatFrom
  | optional p => exact (hc p).optional
  | ignore p => exact (hc p).map fun _ m => .absent m.stop
  | sepBy item sep => exact (hc item).repeated false ((hc item).separated (hc sep))
  | sepBy1 item sep => exact (hc item).repeated true ((hc item).separated (hc sep))
  | lengthValue length value => exact (hc length).lengthValue (Rule.relays_childWithin value)
  | and p => exact (hc p).map fun start _ => .absent start
  | not p => exact (hc p).not
  | action p act => exact (hc p).action
  | satisfying p accepts => exact (hc p).satisfying

end Packrat
