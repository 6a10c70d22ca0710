import Packrat.Engine

/-!
# Proofs/Plan/Bounded — plans that stay in their window

A stretch of input runs from one cursor to another (`Cursor.Spans`). The outcome of a match lies
*within* its window when the match stops inside it, or the failure is reported, and has got, no
further than its end. A plan is *bounded* when it matches its children inside the window only, and
ends within it if they do.

Main statement: the rule of every combinator is bounded (`Node.bounded_rule`), whatever byte counts
it reads from the input.
-/

namespace Packrat

variable {υ σ : Type}

/-! ## Stretches of input -/

/-- From `a` to `b`: no way back, and the bit offsets are below eight. -/
structure Cursor.Spans (a b : Cursor) : Prop where
  le : a ≤ b
  left : a.bit < 8
  right : b.bit < 8

namespace Cursor.Spans

variable {a b c : Cursor}

theorem refl (h : a.bit < 8) : a.Spans a := ⟨Std.le_refl a, h, h⟩

theorem trans (hab : a.Spans b) (hbc : b.Spans c) : a.Spans c :=
  ⟨Std.le_trans hab.le hbc.le, hab.left, hbc.right⟩

/-- The empty stretch where a stretch starts. -/
theorem self (h : a.Spans b) : a.Spans a := refl h.left

theorem max_right (hab : a.Spans b) (hc : c.bit < 8) : a.Spans (max b c) := by
  refine ⟨Std.le_trans hab.le Std.left_le_max, hab.left, ?_⟩
  obtain h | h : max b c = b ∨ max b c = c := Std.MaxEqOr.max_eq_or b c
  · rw [h]
    exact hab.right
  · rw [h]
    exact hc

theorem max_left (hac : a.Spans c) (hbc : b.Spans c) : (max a b).Spans c := by
  obtain h | h : max a b = a ∨ max a b = b := Std.MaxEqOr.max_eq_or a b
  · rw [h]
    exact hac
  · rw [h]
    exact hbc

/-- A stretch in terms of bit positions. -/
theorem of_bitPosition_le (ha : a.bit < 8) (hb : b.bit < 8) (h : a.bitPosition ≤ b.bitPosition) :
    a.Spans b :=
  ⟨(Cursor.le_iff_bitPosition_le ha hb).2 h, ha, hb⟩

theorem bitPosition_le (h : a.Spans b) : a.bitPosition ≤ b.bitPosition :=
  (Cursor.le_iff_bitPosition_le h.left h.right).1 h.le

end Cursor.Spans

/-! ## Outcomes within a window -/

/-- The failure is reported in the window, and has got no further than its end. -/
structure Fail.Within (start limit : Cursor) (f : Fail) : Prop where
  before : start.Spans f.position
  between : f.position.Spans f.deepest
  behind : f.deepest.Spans limit

namespace Fail

variable {start limit cursor : Cursor} {f g : Fail}

theorem within_here (kind : FailureKind) (h : start.Spans limit) :
    (here kind start).Within start limit :=
  ⟨h.self, h.self, h⟩

theorem within_noMatch (h : start.Spans limit) : (noMatch start).Within start limit :=
  within_here _ h

theorem Within.reportedAt (h : f.Within cursor limit) (hstart : start.Spans cursor) :
    (f.reportedAt start).Within start limit := by
  have hdeepest : start.Spans f.deepest := hstart.trans (h.before.trans h.between)
  exact ⟨hstart.self, hdeepest.max_right hstart.left, h.behind.max_left (hdeepest.trans h.behind)⟩

theorem Within.reached (h : f.Within start limit) (hcursor : cursor.Spans limit) :
    (f.reached cursor).Within start limit :=
  ⟨h.before, h.between.max_right hcursor.left, h.behind.max_left hcursor⟩

theorem Within.deeper (hf : f.Within start limit) (hg : g.Within start limit) :
    (f.deeper g).Within start limit := by
  rw [Fail.deeper]
  split
  · exact hg
  · exact hf

/-- A failure in a part of a window is one in the whole. -/
theorem Within.widen (h : f.Within cursor limit) (hstart : start.Spans cursor) {limit' : Cursor}
    (hlimit : limit.Spans limit') : f.Within start limit' :=
  ⟨hstart.trans h.before, h.between, h.behind.trans hlimit⟩

end Fail

/-- The outcome lies within the window from `start` to `limit`. -/
def Step.Within (start limit : Cursor) : Step υ → Prop
  | .ok m => start.Spans m.stop ∧ m.stop.Spans limit
  | .error f => f.Within start limit

theorem Step.Within.widen {start cursor limit limit' : Cursor} {step : Step υ}
    (h : Step.Within cursor limit step) (hstart : start.Spans cursor)
    (hlimit : limit.Spans limit') : Step.Within start limit' step := by
  cases step with
  | ok m => exact ⟨hstart.trans h.1, h.2.trans hlimit⟩
  | error f => exact Fail.Within.widen h hstart hlimit

/-! ## Bounded plans -/

namespace Plan

/-- In the window from `start` to `limit` children are matched in stretches of the window only, and
if their outcomes lie within those, then the plan ends within the window. -/
def Bounded (start limit : Cursor) : Plan υ σ (Step υ) → Prop
  | done step => Step.Within start limit step
  | look next => (next limit).Bounded start limit
  | apply window _ cursor next => start.Spans cursor ∧ cursor.Spans (window.getD limit)
      ∧ (window.getD limit).Spans limit
      ∧ ∀ step, Step.Within cursor (window.getD limit) step → (next step).Bounded start limit
  | call _ _ cursor _ next => cursor.Spans limit ∧ ∀ answer, (next answer).Bounded start limit

variable {start cursor limit : Cursor} {p : Plan υ σ (Step υ)}

theorem Bounded.bind {next : Step υ → Plan υ σ (Step υ)} (hp : p.Bounded cursor limit)
    (hstart : start.Spans cursor)
    (hnext : ∀ step, Step.Within cursor limit step → (next step).Bounded start limit) :
    (p.bind next).Bounded start limit := by
  induction p with
  | done step => exact hnext step hp
  | look rest ih => exact ih limit hp
  | apply window index origin rest ih =>
    obtain ⟨horigin, hwindow, hlimit, hrest⟩ := hp
    exact ⟨hstart.trans horigin, hwindow, hlimit, fun step hstep => ih step (hrest step hstep)⟩
  | call kind f origin m rest ih => exact ⟨hp.1, fun answer => ih answer (hp.2 answer)⟩

/-- Every failure ends the plan as it is. -/
theorem Bounded.pass {next : Step υ → Plan υ σ (Step υ)} (hp : p.Bounded cursor limit)
    (hstart : start.Spans cursor) (hnext : ∀ f, next (.error f) = done (.error f))
    (hmatch : ∀ m : Match υ, cursor.Spans m.stop → m.stop.Spans limit →
      (next (.ok m)).Bounded start limit) : (p.bind next).Bounded start limit := by
  refine hp.bind hstart fun step hstep => ?_
  cases step with
  | ok m => exact hmatch m hstep.1 hstep.2
  | error f =>
    have hf : f.Within cursor limit := hstep
    rw [hnext]
    exact hf.widen hstart (.refl hf.behind.right)

/-- A fatal failure ends the plan as it is; another one is gone on with. -/
theorem Bounded.absorb {next : Step υ → Plan υ σ (Step υ)} {onFail : Fail → Plan υ σ (Step υ)}
    (hp : p.Bounded cursor limit) (hstart : start.Spans cursor)
    (hnext : ∀ f : Fail, next (.error f) = if f.isFatal then done (.error f) else onFail f)
    (hmatch : ∀ m : Match υ, cursor.Spans m.stop → m.stop.Spans limit →
      (next (.ok m)).Bounded start limit)
    (hfail : ∀ f : Fail, f.Within cursor limit → (onFail f).Bounded start limit) :
    (p.bind next).Bounded start limit := by
  refine hp.bind hstart fun step hstep => ?_
  cases step with
  | ok m => exact hmatch m hstep.1 hstep.2
  | error f =>
    have hf : f.Within cursor limit := hstep
    rw [hnext]
    split
    · exact hf.widen hstart (.refl hf.behind.right)
    · exact hfail f hf

theorem Bounded.widen (hp : p.Bounded cursor limit) (hstart : start.Spans cursor)
    (hlimit : limit.bit < 8) : p.Bounded start limit := by
  induction p with
  | done step => exact Step.Within.widen hp hstart (.refl hlimit)
  | look rest ih => exact ih limit hp
  | apply window index origin rest ih =>
    obtain ⟨horigin, hwindow, hwindow', hrest⟩ := hp
    exact ⟨hstart.trans horigin, hwindow, hwindow', fun step hstep => ih step (hrest step hstep)⟩
  | call kind f origin m rest ih => exact ⟨hp.1, fun answer => ih answer (hp.2 answer)⟩

end Plan

/-! ## Reads -/

/-- A check inside a read either lets it go on or gives nothing. -/
theorem guard_eq_ite {p : Prop} [Decidable p] :
    (guard p : Option Unit) = if p then some () else none := rfl

namespace Input

variable {input : Input} {start limit : Cursor}

theorem bytesAt?_eq_some {count : Nat} {found : List UInt8} :
    input.bytesAt? start count limit = some found ↔
      start.byte + count < wordBound ∧ start.bit = 0 ∧ Cursor.atByte (start.byte + count) ≤ limit
        ∧ Cursor.atByte (start.byte + count) ≤ input.stop
        ∧ (input.bytes.extract start.byte (start.byte + count)).toList = found := by
  obtain ⟨byte, bit⟩ := start
  simp only [bytesAt?, Cursor.advanceBytes?, Cursor.isAligned, Cursor.atByte, bind, pure,
    ↓guard_eq_ite, Option.bind_eq_some_iff, Option.ite_none_right_eq_some, beq_iff_eq,
    Option.some.injEq]
  constructor
  · rintro ⟨_, ⟨hsize, rfl⟩, _, ⟨⟨rfl, hlimit, hstop⟩, -⟩, rfl⟩
    exact ⟨hsize, rfl, hlimit, hstop, rfl⟩
  · rintro ⟨hsize, rfl, hlimit, hstop, rfl⟩
    exact ⟨_, ⟨hsize, rfl⟩, (), ⟨⟨rfl, hlimit, hstop⟩, trivial⟩, rfl⟩

theorem byteAt?_eq_some {b : UInt8} :
    input.byteAt? start limit = some b ↔
      start.byte + 1 < wordBound ∧ start.bit = 0 ∧ Cursor.atByte (start.byte + 1) ≤ limit
        ∧ input.bytes[start.byte]? = some b := by
  obtain ⟨byte, bit⟩ := start
  simp only [byteAt?, Cursor.advanceBytes?, Cursor.isAligned, Cursor.atByte, bind, ↓guard_eq_ite,
    Option.bind_eq_some_iff, Option.ite_none_right_eq_some, beq_iff_eq, Option.some.injEq]
  constructor
  · rintro ⟨_, ⟨hsize, rfl⟩, _, ⟨⟨rfl, hlimit⟩, -⟩, hb⟩
    exact ⟨hsize, rfl, hlimit, hb⟩
  · rintro ⟨hsize, rfl, hlimit, hb⟩
    exact ⟨_, ⟨hsize, rfl⟩, (), ⟨⟨rfl, hlimit⟩, trivial⟩, hb⟩

/-- Where a read of bits stops. -/
theorem stop_of_readBits? {width raw : Nat} {stop : Cursor}
    (h : input.readBits? start width limit = some (raw, stop)) :
    stop = .ofBitPosition (start.bitPosition + width) ∧ stop ≤ limit := by
  simp only [readBits?, Cursor.advanceBits?, bind, pure, ↓guard_eq_ite, Option.bind_eq_some_iff,
    Option.ite_none_right_eq_some, Option.some.injEq, Prod.mk.injEq] at h
  obtain ⟨_, ⟨-, rfl⟩, _, ⟨⟨hlimit, -⟩, -⟩, -, rfl⟩ := h
  exact ⟨rfl, hlimit⟩

/-- From an aligned cursor to a byte boundary inside the window. -/
theorem spans_atByte {count : Nat} (h : start.Spans limit) (hbit : start.bit = 0)
    (hlimit : Cursor.atByte (start.byte + count) ≤ limit) :
    start.Spans (.atByte (start.byte + count))
      ∧ (Cursor.atByte (start.byte + count)).Spans limit := by
  have hbit' : (Cursor.atByte (start.byte + count)).bit < 8 := Nat.succ_pos 7
  refine ⟨.of_bitPosition_le h.left hbit' ?_, hlimit, hbit', h.right⟩
  rw [Cursor.bitPosition_atByte, Cursor.bitPosition, hbit]
  omega

theorem spans_of_readBits? {width raw : Nat} {stop : Cursor} (h : start.Spans limit)
    (hread : input.readBits? start width limit = some (raw, stop)) :
    start.Spans stop ∧ stop.Spans limit := by
  obtain ⟨rfl, hlimit⟩ := stop_of_readBits? hread
  have hbit : (Cursor.ofBitPosition (start.bitPosition + width)).bit < 8 :=
    Nat.mod_lt _ (by decide)
  refine ⟨.of_bitPosition_le h.left hbit ?_, hlimit, hbit, h.right⟩
  rw [Cursor.bitPosition_ofBitPosition]
  omega

end Input

/-! ## Rules -/

namespace Rule

open Plan

variable {start cursor limit : Cursor} {first second third : Rule υ σ}

/-- In every window that ends at `limit` the rule's plan is bounded. -/
abbrev Bounded (limit : Cursor) (rule : Rule υ σ) : Prop :=
  ∀ start : Cursor, start.Spans limit → (rule start).Bounded start limit

theorem bounded_child (limit : Cursor) (index : Nat) :
    (Rule.child index : Rule υ σ).Bounded limit := by
  intro start h
  exact ⟨h.self, h, .refl h.right, fun step hstep => hstep⟩

theorem bounded_childWithin {stop : Cursor} (index : Nat) (hstart : start.Spans stop)
    (hlimit : stop.Spans limit) :
    (Rule.childWithin index stop start : Plan υ σ (Step υ)).Bounded start limit :=
  ⟨hstart.self, hstart, hlimit, fun _ hstep => hstep.widen hstart.self hlimit⟩

/-! ### Leaves -/

theorem bounded_ofRead {found : Option (Match υ)} (h : start.Spans limit)
    (hfound : ∀ m ∈ found, start.Spans m.stop ∧ m.stop.Spans limit) :
    (ofRead start found : Plan υ σ (Step υ)).Bounded start limit := by
  cases found with
  | none => exact Fail.within_noMatch h
  | some m => exact hfound m rfl

theorem bounded_token (input : Input) (bytes : List UInt8) :
    (token input bytes : Rule υ σ).Bounded limit := by
  intro start h
  refine bounded_ofRead h fun m hm => ?_
  obtain ⟨found, hread, hfound⟩ := Option.bind_eq_some_iff.1 hm
  obtain ⟨-, hbit, hlimit, -⟩ := Input.bytesAt?_eq_some.1 hread
  obtain ⟨rfl, hm⟩ := (Option.ite_none_right_eq_some ..).1 hfound
  rw [← Option.some.inj hm]
  exact Input.spans_atByte h hbit hlimit

theorem bounded_byteIf (input : Input) (accepts : UInt8 → Bool) :
    (byteIf input accepts : Rule υ σ).Bounded limit := by
  intro start h
  refine bounded_ofRead h fun m hm => ?_
  obtain ⟨byte, hread, hfound⟩ := Option.bind_eq_some_iff.1 hm
  obtain ⟨-, hbit, hlimit, -⟩ := Input.byteAt?_eq_some.1 hread
  obtain ⟨-, hm⟩ := (Option.ite_none_right_eq_some ..).1 hfound
  rw [← Option.some.inj hm]
  exact Input.spans_atByte h hbit hlimit

theorem bounded_bits (input : Input) (width : Nat) (signed : Bool) :
    (bits input width signed : Rule υ σ).Bounded limit := by
  intro start h
  refine bounded_ofRead h fun m hm => ?_
  obtain ⟨⟨raw, stop⟩, hread, rfl⟩ := Option.map_eq_some_iff.1 hm
  exact Input.spans_of_readBits? h hread

theorem bounded_atEnd : (atEnd : Rule υ σ).Bounded limit := by
  intro start h
  change (if limit ≤ start then _ else _ : Plan υ σ (Step υ)).Bounded start limit
  split
  · exact ⟨h.self, h⟩
  · exact Fail.within_noMatch h

/-! ### In a row -/

theorem Bounded.andThen {origin : Cursor} {next : Match υ → Plan υ σ (Step υ)}
    (h : first.Bounded limit) (hstart : start.Spans origin) (horigin : origin.Spans cursor)
    (hcursor : cursor.Spans limit)
    (hnext : ∀ m : Match υ, cursor.Spans m.stop → m.stop.Spans limit →
      (next m).Bounded start limit) :
    (Rule.andThen origin first cursor next).Bounded start limit := by
  refine (h cursor hcursor).bind (hstart.trans horigin) fun step hstep => ?_
  cases step with
  | ok m => exact hnext m hstep.1 hstep.2
  | error f => exact (Fail.Within.reportedAt hstep horigin).widen hstart (.refl hcursor.right)

theorem Bounded.sequenceFrom {parts : List (Rule υ σ)} {values : Array (Value υ)}
    (h : ∀ r ∈ parts, r.Bounded limit) (hstart : start.Spans cursor)
    (hcursor : cursor.Spans limit) :
    (Rule.sequenceFrom start parts cursor values).Bounded start limit := by
  induction parts generalizing cursor values with
  | nil => exact ⟨hstart, hcursor⟩
  | cons part parts ih =>
    have hpart : part.Bounded limit := h part List.mem_cons_self
    have hparts : ∀ r ∈ parts, r.Bounded limit := fun r hr => h r (List.mem_cons_of_mem _ hr)
    refine hpart.andThen hstart.self hstart hcursor fun m hm hlimit => ?_
    exact ih hparts (hstart.trans hm) hlimit

theorem Bounded.left (ha : first.Bounded limit) (hb : second.Bounded limit) :
    (Rule.left first second).Bounded limit := by
  intro start h
  refine ha.andThen h.self h.self h fun ma hma hlimit => ?_
  exact hb.andThen h.self hma hlimit fun mb hmb hlimit => ⟨hma.trans hmb, hlimit⟩

theorem Bounded.right (ha : first.Bounded limit) (hb : second.Bounded limit) :
    (Rule.right first second).Bounded limit := by
  intro start h
  refine ha.andThen h.self h.self h fun ma hma hlimit => ?_
  exact hb.andThen h.self hma hlimit fun mb hmb hlimit => ⟨hma.trans hmb, hlimit⟩

theorem Bounded.middle (ha : first.Bounded limit) (hb : second.Bounded limit)
    (hc : third.Bounded limit) : (Rule.middle first second third).Bounded limit := by
  intro start h
  refine ha.andThen h.self h.self h fun ma hma hlimit => ?_
  refine hb.andThen h.self hma hlimit fun mb hmb hlimit => ?_
  have hmb' := hma.trans hmb
  exact hc.andThen h.self hmb' hlimit fun mc hmc hlimit => ⟨hmb'.trans hmc, hlimit⟩

theorem spans_skipBlanks (input : Input) (count : Nat) (h : cursor.Spans limit) :
    cursor.Spans (skipBlanks input limit count cursor)
      ∧ (skipBlanks input limit count cursor).Spans limit := by
  induction count generalizing cursor with
  | zero => exact ⟨h.self, h⟩
  | succ count ih =>
    rw [skipBlanks]
    split
    · next byte hread =>
      obtain ⟨-, hbit, hlimit, -⟩ := Input.byteAt?_eq_some.1 hread
      obtain ⟨hnext, hrest⟩ := Input.spans_atByte h hbit hlimit
      split
      · exact ⟨hnext.trans (ih hrest).1, (ih hrest).2⟩
      · exact ⟨h.self, h⟩
    · exact ⟨h.self, h⟩

theorem Bounded.whitespace (input : Input) (h : first.Bounded limit) :
    (Rule.whitespace input first).Bounded limit := by
  intro start hstart
  obtain ⟨hskip, hlimit⟩ := spans_skipBlanks input (input.bytes.size - start.byte) hstart
  exact h.andThen hstart.self hskip hlimit fun m hm hlimit => ⟨hskip.trans hm, hlimit⟩

theorem Bounded.intRange (low high : Int) (h : first.Bounded limit) :
    (Rule.intRange first low high).Bounded limit := by
  intro start hstart
  refine h.andThen hstart.self hstart.self hstart fun m hm hlimit => ?_
  have hrefused := (Fail.within_noMatch hstart).reached hlimit
  split
  · split
    · exact ⟨hm, hlimit⟩
    · exact hrefused
  · exact hrefused

/-! ### Alternatives -/

theorem Bounded.choiceFrom {alternatives : List (Rule υ σ)} {best : Option Fail}
    (hstart : start.Spans limit) (hbest : ∀ f ∈ best, f.Within start limit)
    (h : ∀ r ∈ alternatives, r.Bounded limit) :
    (Rule.choiceFrom start alternatives best).Bounded start limit := by
  induction alternatives generalizing best with
  | nil =>
    cases best with
    | none => exact Fail.within_noMatch hstart
    | some f => exact (hbest f rfl).reportedAt hstart.self
  | cons first alternatives ih =>
    have hfirst : first.Bounded limit := h first List.mem_cons_self
    refine (hfirst start hstart).absorb hstart.self (fun _ => rfl)
      (fun m hm hlimit => ⟨hm, hlimit⟩) fun f hf => ?_
    refine ih (fun f' hf' => ?_) fun r hr => h r (List.mem_cons_of_mem _ hr)
    obtain rfl := Option.some.inj hf'
    cases best with
    | none => exact hf
    | some b => exact (hbest b rfl).deeper hf

theorem Bounded.butnot (ha : first.Bounded limit) (hb : second.Bounded limit) :
    (Rule.butnot first second).Bounded limit := by
  intro start h
  refine (ha start h).pass h.self (fun _ => rfl) fun ma hma hlimit => ?_
  refine (hb start h).absorb h.self (fun _ => rfl) (fun mb hmb hlimit' => ?_)
    fun f hf => ⟨hma, hlimit⟩
  dsimp only
  split
  · exact (Fail.within_noMatch h).reached hlimit
  · exact ⟨hma, hlimit⟩

theorem Bounded.difference (ha : first.Bounded limit) (hb : second.Bounded limit) :
    (Rule.difference first second).Bounded limit := by
  intro start h
  refine (ha start h).pass h.self (fun _ => rfl) fun ma hma hlimit => ?_
  refine (hb start h).absorb h.self (fun _ => rfl) (fun mb hmb hlimit' => ?_)
    fun f hf => ⟨hma, hlimit⟩
  exact (Fail.within_noMatch h).reached hlimit

theorem Bounded.xor (ha : first.Bounded limit) (hb : second.Bounded limit) :
    (Rule.xor first second).Bounded limit := by
  intro start h
  refine (ha start h).absorb h.self (fun _ => rfl) (fun ma hma hlimit => ?_) fun f hf => ?_
  · refine (hb start h).absorb h.self (fun _ => rfl) (fun mb hmb hlimit' => ?_)
      fun g hg => ⟨hma, hlimit⟩
    exact (Fail.within_noMatch h).reached (hlimit.max_left hlimit')
  · refine (hb start h).absorb h.self (fun _ => rfl) (fun mb hmb hlimit => ⟨hmb, hlimit⟩)
      fun g hg => ?_
    exact (hf.deeper hg).reportedAt h.self

/-! ### Repetition -/

theorem Bounded.continueFrom (h : first.Bounded limit) {room : Nat} {values : Array (Value υ)}
    (hstart : start.Spans cursor) (hcursor : cursor.Spans limit) :
    (Rule.continueFrom first room cursor values).Bounded start limit := by
  induction room using Nat.strongRecOn generalizing cursor values with
  | ind room ih =>
    rw [Rule.continueFrom_eq]
    refine (h cursor hcursor).absorb hstart (fun _ => rfl) (fun m hm hlimit => ?_)
      fun f hf => ⟨hstart, hcursor⟩
    have hm := hstart.trans hm
    dsimp only
    split
    · cases room with
      -- This does not come up inside a window, but nothing here depends on it.
      | zero => exact ⟨hm, hlimit⟩
      | succ rest => exact ih rest (Nat.lt_succ_self rest) hm hlimit
    · exact ⟨hm, hlimit⟩

theorem Bounded.repeated (needed : Bool) (hf : first.Bounded limit) (hn : second.Bounded limit) :
    (Rule.repeated first second needed).Bounded limit := by
  intro start h
  refine (hf start h).absorb h.self (fun _ => rfl) (fun m hm hlimit => ?_) fun f hf => ?_
  · dsimp only
    split
    · exact hn.continueFrom hm hlimit
    · exact ⟨hm, hlimit⟩
  · split
    · exact hf.reportedAt h.self
    · exact ⟨h.self, h⟩

theorem Bounded.separated (hi : first.Bounded limit) (hs : second.Bounded limit) :
    (Rule.separated first second).Bounded limit := by
  intro start h
  refine (hs start h).pass h.self (fun _ => rfl) fun m hm hlimit => ?_
  exact (hi m.stop hlimit).widen hm h.right

theorem Bounded.repeatFrom (h : first.Bounded limit) {count : Nat} {values : Array (Value υ)}
    (hstart : start.Spans cursor) (hcursor : cursor.Spans limit) :
    (Rule.repeatFrom first count cursor values).Bounded start limit := by
  induction count generalizing cursor values with
  | zero => exact ⟨hstart, hcursor⟩
  | succ count ih =>
    refine h.andThen hstart hcursor.self hcursor fun m hm hlimit => ?_
    exact ih (hstart.trans hm) hlimit

theorem Bounded.optional (h : first.Bounded limit) : (Rule.optional first).Bounded limit := by
  intro start hstart
  exact (h start hstart).absorb hstart.self (fun _ => rfl) (fun m hm hlimit => ⟨hm, hlimit⟩)
    fun f hf => ⟨hstart.self, hstart⟩

/-! ### Lookahead and values -/

/-- What changes matches only, and lets them stop inside the window, keeps a rule bounded. -/
theorem Bounded.map {f : Cursor → Match υ → Match υ} (h : first.Bounded limit)
    (hf : ∀ start m, start.Spans m.stop → m.stop.Spans limit →
      start.Spans (f start m).stop ∧ (f start m).stop.Spans limit) :
    Bounded limit fun start => (first start).bind fun step => .done (step.map (f start)) := by
  intro start hstart
  refine (h start hstart).bind hstart.self fun step hstep => ?_
  cases step with
  | ok m => exact hf start m hstep.1 hstep.2
  | error g => exact hstep

theorem Bounded.not (h : first.Bounded limit) : (Rule.not first).Bounded limit := by
  intro start hstart
  refine (h start hstart).absorb hstart.self (fun _ => rfl) (fun m hm hlimit => ?_)
    fun f hf => ⟨hstart.self, hstart⟩
  exact (Fail.within_noMatch hstart).reached hlimit

/-! ### Windows and callbacks -/

/-- A window that a byte count opens starts behind the count and ends in the outer one. -/
theorem spans_windowEnd? {ml : Match υ} {stop : Cursor} (h : ml.stop.Spans limit)
    (hstop : windowEnd? ml limit = some stop) : ml.stop.Spans stop ∧ stop.Spans limit := by
  simp only [windowEnd?, Cursor.advanceBytes?, bind, ↓guard_eq_ite, Option.bind_eq_some_iff,
    Option.ite_none_right_eq_some, Option.some.injEq] at hstop
  obtain ⟨count, -, _, ⟨-, rfl⟩, _, ⟨hlimit, -⟩, hstop⟩ := hstop
  obtain rfl := Option.some.inj hstop
  refine ⟨.of_bitPosition_le h.left h.left ?_, hlimit, h.left, h.right⟩
  simp only [Cursor.bitPosition]
  omega

theorem Bounded.lengthValue {value : Cursor → Rule υ σ} (hl : first.Bounded limit)
    (hv : ∀ stop start, start.Spans stop → stop.Spans limit →
      (value stop start).Bounded start limit) :
    (Rule.lengthValue first value).Bounded limit := by
  intro start h
  refine hl.andThen h.self h.self h fun ml hml hlimit => ?_
  simp only [Plan.bind_eq_bind, Plan.bind_limit, Plan.Bounded]
  split
  · exact (Fail.within_noMatch h).reached hlimit
  · next stop hstop =>
    obtain ⟨hwindow, hstop⟩ := spans_windowEnd? hlimit hstop
    refine (hv stop ml.stop hwindow hstop).bind hml fun step hstep => ?_
    cases step with
    | error f => exact Fail.Within.reportedAt hstep hml
    | ok mv =>
      dsimp only
      split
      · exact ⟨hml.trans hstep.1, hstep.2⟩
      · exact (Fail.within_noMatch h).reached hstep.2

theorem bounded_refused {m : Match υ} {e : CallbackError} (h : start.Spans limit)
    (hm : m.stop.Spans limit) : Step.Within start limit (refused start m e) :=
  (Fail.within_here _ h).reached hm

theorem Bounded.action {act : Action υ σ} (h : first.Bounded limit) :
    (Rule.action first act).Bounded limit := by
  intro start hstart
  refine (h start hstart).pass hstart.self (fun _ => rfl) fun m hm hlimit => ?_
  refine ⟨hstart, fun answer => ?_⟩
  cases answer with
  | ok v => exact ⟨hm, hlimit⟩
  | error e => exact bounded_refused hstart hlimit

theorem Bounded.satisfying {accepts : Predicate υ σ} (h : first.Bounded limit) :
    (Rule.satisfying first accepts).Bounded limit := by
  intro start hstart
  refine (h start hstart).pass hstart.self (fun _ => rfl) fun m hm hlimit => ?_
  refine ⟨hstart, fun answer => ?_⟩
  cases answer with
  | ok b =>
    cases b with
    | true => exact ⟨hm, hlimit⟩
    | false => exact (Fail.within_noMatch hstart).reached hlimit
  | error e => exact bounded_refused hstart hlimit

end Rule

/-! ## Nodes -/

/-- **Every combinator is bounded**, in every window. -/
theorem Node.bounded_rule (input : Input) (limit : Cursor) (node : Node Nat υ σ) :
    (node.rule input).Bounded limit := by
  have hc : ∀ c, (Rule.child c : Rule υ σ).Bounded limit := Rule.bounded_child limit
  have hcs : ∀ ps : List Nat, ∀ r ∈ ps.map (Rule.child (υ := υ) (σ := σ)), r.Bounded limit := by
    intro ps r hr
    obtain ⟨c, -, rfl⟩ := List.mem_map.1 hr
    exact hc c
  cases node with
  | token bytes => exact Rule.bounded_token input bytes
  | byte b => exact Rule.bounded_byteIf input _
  | byteRange low high => exact Rule.bounded_byteIf input _
  | byteIn set => exact Rule.bounded_byteIf input _
  | bits width signed => exact Rule.bounded_bits input width signed
  | atEnd => exact Rule.bounded_atEnd
  | never => exact fun start h => Fail.within_noMatch h
  | empty => exact fun start h => ⟨h.self, h⟩
  | intRange base low high => exact (hc base).intRange low high
  | whitespace p => exact (hc p).whitespace input
  | left a b => exact (hc a).left (hc b)
  | right a b => exact (hc a).right (hc b)
  | middle a b c => exact (hc a).middle (hc b) (hc c)
  | sequence ps => exact fun start h => Rule.Bounded.sequenceFrom (hcs ps) h.self h
  | choice ps => exact fun start h => Rule.Bounded.choiceFrom h (by simp) (hcs ps)
  | butnot a b => exact (hc a).butnot (hc b)
  | difference a b => exact (hc a).difference (hc b)
  | xor a b => exact (hc a).xor (hc b)
  | many p => exact (hc p).repeated false (hc p)
  | many1 p => exact (hc p).repeated true (hc p)
  | repeatN p count => exact fun start h => (hc p).repeatFrom h.self h
  | optional p => exact (hc p).optional
  | ignore p => exact (hc p).map fun start m hm hlimit => ⟨hm, hlimit⟩
  | sepBy item sep => exact (hc item).repeated false ((hc item).separated (hc sep))
  | sepBy1 item sep => exact (hc item).repeated true ((hc item).separated (hc sep))
  | lengthValue length value =>
    exact (hc length).lengthValue fun stop start => Rule.bounded_childWithin value
  | and p => exact (hc p).map fun start m hm hlimit => ⟨hm.self, hm.trans hlimit⟩
  | not p => exact (hc p).not
  | action p act => exact (hc p).action
  | satisfying p accepts => exact (hc p).satisfying

end Packrat
