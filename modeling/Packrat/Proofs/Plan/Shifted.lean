import Packrat.Proofs.Input.Shift
import Packrat.Proofs.Plan.Strict

/-!
# Proofs/Plan/Shifted — the same plan, so many bytes further on

`Plan.Shifted k limit p p'` says that `p'` does `k` bytes further on what `p` does in a window that
ends at `limit`: the same children and callbacks, at shifted cursors, and it goes on alike behind
shifted outcomes.

Main statement: the rule of a combinator on an input is the shifted rule on the input without its
first `k` bytes (`Node.shifts_rule`).
-/

namespace Packrat

variable {υ σ : Type} {k : Nat}

/-! ## Outcomes -/

/-- The failure so many bytes further on. -/
def Fail.shift (k : Nat) (f : Fail) : Fail := ⟨f.position.shift k, f.deepest.shift k, f.kind⟩

namespace Fail

variable {f g : Fail} {c : Cursor}

theorem shift_reportedAt : (f.reportedAt c).shift k = (f.shift k).reportedAt (c.shift k) := by
  ext1
  · rfl
  · exact Cursor.max_shift.symm
  · rfl

theorem shift_reached : (f.reached c).shift k = (f.shift k).reached (c.shift k) := by
  ext1
  · rfl
  · exact Cursor.max_shift.symm
  · rfl

theorem shift_deeper : (f.deeper g).shift k = (f.shift k).deeper (g.shift k) := by
  rw [deeper, deeper, apply_ite (Fail.shift k)]
  exact ite_congr (propext Cursor.shift_lt_shift.symm) (fun _ => rfl) fun _ => rfl

end Fail

/-- The match so many bytes further on, of the same value. -/
def Match.shift (k : Nat) (m : Match υ) : Match υ := ⟨m.stop.shift k, m.value⟩

@[simp] theorem Match.stop_shift {m : Match υ} : (m.shift k).stop = m.stop.shift k := rfl
@[simp] theorem Match.value_shift {m : Match υ} : (m.shift k).value = m.value := rfl

/-- The outcome so many bytes further on. -/
def Step.shift (k : Nat) : Step υ → Step υ
  | .ok m => .ok (m.shift k)
  | .error f => .error (f.shift k)

theorem Step.fatal?_shift {step : Step υ} : Step.fatal? (step.shift k) = Step.fatal? step := by
  cases step <;> rfl

/-! ## Plans -/

namespace Plan

variable {limit : Cursor} {p p' : Plan υ σ (Step υ)}

/-- The second plan does the same as the first one, `k` bytes further on. -/
inductive Shifted (k : Nat) (limit : Cursor) : Plan υ σ (Step υ) → Plan υ σ (Step υ) → Prop
  | done (step : Step υ) : Shifted k limit (done step) (done (step.shift k))
  | look {next next'} (h : Shifted k limit (next limit) (next' (limit.shift k))) :
      Shifted k limit (look next) (look next')
  | apply {window index start next next'} (hwindow : ∀ stop ∈ window, stop ≤ limit)
      (h : ∀ step, Shifted k limit (next step) (next' (step.shift k))) :
      Shifted k limit (apply window index start next)
        (apply (window.map (Cursor.shift k)) index (start.shift k) next')
  | call {β kind start m next next'} {f : Callback υ σ β}
      (h : ∀ answer, Shifted k limit (next answer) (next' answer)) :
      Shifted k limit (call kind f start m next) (call kind f (start.shift k) (m.shift k) next')

theorem Shifted.eq_done {step : Step υ} (h : Shifted k limit (.done step) p) :
    p = .done (step.shift k) := by
  cases h
  rfl

theorem Shifted.bind {next next' : Step υ → Plan υ σ (Step υ)} (h : Shifted k limit p p')
    (hnext : ∀ step, Shifted k limit (next step) (next' (step.shift k))) :
    Shifted k limit (p.bind next) (p'.bind next') := by
  induction h with
  | done step => exact hnext step
  | look _ ih => exact .look ih
  | apply hwindow _ ih => exact .apply hwindow ih
  | call _ ih => exact .call ih

/-- Matches and failures are gone on with each in its way. -/
theorem Shifted.cases {next next' : Step υ → Plan υ σ (Step υ)} (h : Shifted k limit p p')
    (hfail : ∀ f, Shifted k limit (next (.error f)) (next' (.error (f.shift k))))
    (hmatch : ∀ m, Shifted k limit (next (.ok m)) (next' (.ok (m.shift k)))) :
    Shifted k limit (p.bind next) (p'.bind next') := by
  refine h.bind fun step => ?_
  cases step with
  | error f => exact hfail f
  | ok m => exact hmatch m

/-- What is decided by where cursors stand is decided alike. -/
theorem Shifted.ite {P Q : Prop} [Decidable P] [Decidable Q] {q q' : Plan υ σ (Step υ)}
    (hiff : Q ↔ P) (h : Shifted k limit p p') (h' : Shifted k limit q q') :
    Shifted k limit (if P then p else q) (if Q then p' else q') := by
  by_cases hp : P
  · rw [if_pos hp, if_pos (hiff.2 hp)]
    exact h
  · rw [if_neg hp, if_neg fun hq => hp (hiff.1 hq)]
    exact h'

theorem Shifted.fail {f f' : Fail} (h : f.shift k = f') : Shifted k limit
    (Plan.done (.error f) : Plan υ σ (Step υ)) (Plan.done (.error f')) := h ▸ .done (.error f)

end Plan

/-! ## Rules -/

namespace Rule

open Plan

variable {limit start cursor : Cursor} {first first' second second' third third' : Rule υ σ}

/-- The second rule does the same as the first one, `k` bytes further on. -/
def Shifts (k : Nat) (limit : Cursor) (first first' : Rule υ σ) : Prop :=
  ∀ start, Shifted k limit (first start) (first' (start.shift k))

theorem shifts_child (index : Nat) :
    Shifts k limit (Rule.child index : Rule υ σ) (Rule.child index) :=
  fun _ => .apply (fun _ h => nomatch h) .done

theorem shifted_reached (c : Cursor) : Shifted k limit
    (done (.error ((Fail.noMatch start).reached c)) : Plan υ σ (Step υ))
    (done (.error ((Fail.noMatch (start.shift k)).reached (c.shift k)))) :=
  .fail Fail.shift_reached

/-! ### Leaves -/

theorem shifted_ofRead {found found' : Option (Match υ)} (h : found' = found.map (Match.shift k)) :
    Shifted k limit (ofRead start found : Plan υ σ (Step υ)) (ofRead (start.shift k) found') := by
  subst h
  cases found <;> exact .done _

section Reads

variable {input : Input} (hk : k ≤ input.bytes.size)

theorem shifts_byteIf (hsize : input.bytes.size < wordBound) (accepts : UInt8 → Bool) :
    Shifts k limit (byteIf (input.drop k) accepts : Rule υ σ) (byteIf input accepts) := by
  refine fun start => .look (shifted_ofRead ?_)
  rw [Input.byteAt?_shift hsize]
  cases (input.drop k).byteAt? start limit with
  | none => rfl
  | some b =>
    simp only [Option.bind_some, Cursor.byte_shift, Nat.add_right_comm _ k 1]
    split <;> rfl

include hk

theorem shifts_token (hsize : input.bytes.size < wordBound) (bytes : List UInt8) :
    Shifts k limit (token (input.drop k) bytes : Rule υ σ) (token input bytes) := by
  refine fun start => .look (shifted_ofRead ?_)
  rw [Input.bytesAt?_shift hk hsize]
  cases (input.drop k).bytesAt? start bytes.length limit with
  | none => rfl
  | some found =>
    simp only [Option.bind_some, Cursor.byte_shift, Nat.add_right_comm _ k bytes.length]
    split <;> rfl

theorem shifts_bits (hsize : 8 * input.bytes.size < wordBound) (width : Nat) (signed : Bool) :
    Shifts k limit (bits (input.drop k) width signed : Rule υ σ) (bits input width signed) := by
  refine fun start => .look (shifted_ofRead ?_)
  rw [Input.readBits?_shift hk hsize]
  cases (input.drop k).readBits? start width limit <;> rfl

omit hk in
theorem skipBlanks_shift (hsize : input.bytes.size < wordBound) (count : Nat) :
    skipBlanks input (limit.shift k) count (cursor.shift k)
      = (skipBlanks (input.drop k) limit count cursor).shift k := by
  induction count generalizing cursor with
  | zero => rfl
  | succ count ih =>
    rw [skipBlanks, skipBlanks, Input.byteAt?_shift hsize]
    cases (input.drop k).byteAt? cursor limit with
    | none => rfl
    | some b =>
      dsimp only
      split
      · rw [← ih, Cursor.shift_atByte, Cursor.byte_shift, Nat.add_right_comm]
      · rfl

end Reads

theorem shifts_atEnd : Shifts k limit (atEnd : Rule υ σ) atEnd :=
  fun _ => .look (.ite Cursor.shift_le_shift (.done _) (.done _))

/-! ### In a row -/

theorem Shifts.andThen {next next' : Match υ → Plan υ σ (Step υ)} (h : Shifts k limit first first')
    (hnext : ∀ m, Shifted k limit (next m) (next' (m.shift k))) :
    Shifted k limit (andThen start first cursor next)
      (andThen (start.shift k) first' (cursor.shift k) next') :=
  (h cursor).cases (fun _ => .fail Fail.shift_reportedAt) hnext

theorem shifted_sequenceFrom {parts parts' : List (Rule υ σ)} {values : Array (Value υ)}
    (h : List.Forall₂ (Shifts k limit) parts parts') : Shifted k limit
      (sequenceFrom start parts cursor values)
      (sequenceFrom (start.shift k) parts' (cursor.shift k) values) := by
  induction h generalizing cursor values with
  | nil => exact .done _
  | cons h _ ih => exact h.andThen fun m => ih

theorem Shifts.left (ha : Shifts k limit first first') (hb : Shifts k limit second second') :
    Shifts k limit (left first second) (left first' second') :=
  fun _ => ha.andThen fun _ => hb.andThen fun _ => .done _

theorem Shifts.right (ha : Shifts k limit first first') (hb : Shifts k limit second second') :
    Shifts k limit (right first second) (right first' second') :=
  fun _ => ha.andThen fun _ => hb.andThen fun _ => .done _

theorem Shifts.middle (ha : Shifts k limit first first') (hb : Shifts k limit second second')
    (hc : Shifts k limit third third') :
    Shifts k limit (middle first second third) (middle first' second' third') :=
  fun _ => ha.andThen fun _ => hb.andThen fun _ => hc.andThen fun _ => .done _

theorem Shifts.whitespace {input : Input} (hsize : input.bytes.size < wordBound)
    (h : Shifts k limit first first') :
    Shifts k limit (whitespace (input.drop k) first) (whitespace input first') := by
  intro start
  refine .look ?_
  have hroom : input.bytes.size - (start.shift k).byte
      = (input.drop k).bytes.size - start.byte := by
    rw [Input.size_drop, Cursor.byte_shift]
    omega
  simp only [bind_done, hroom, skipBlanks_shift hsize]
  exact h.andThen fun _ => .done _

theorem Shifts.ignore (h : Shifts k limit first first') :
    Shifts k limit (ignore first) (ignore first') :=
  fun start => (h start).cases (fun _ => .done _) fun _ => .done _

theorem Shifts.intRange (low high : Int) (h : Shifts k limit first first') :
    Shifts k limit (intRange first low high) (intRange first' low high) := by
  refine fun start => h.andThen fun m => ?_
  rw [Match.value_shift]
  split
  · exact .ite .rfl (.done _) (shifted_reached _)
  · exact shifted_reached _

/-! ### Alternatives -/

theorem shifted_choiceFrom {alternatives alternatives' : List (Rule υ σ)} {best : Option Fail}
    (h : List.Forall₂ (Shifts k limit) alternatives alternatives') :
    Shifted k limit (choiceFrom start alternatives best)
      (choiceFrom (start.shift k) alternatives' (best.map (Fail.shift k))) := by
  induction h generalizing best with
  | nil =>
    cases best with
    | none => exact .done _
    | some f => exact .fail Fail.shift_reportedAt
  | cons h _ ih =>
    refine (h start).cases (fun f => .ite .rfl (.done _) ?_) fun m => .done _
    convert ih
    cases best with
    | none => rfl
    | some b => exact congrArg some Fail.shift_deeper.symm

theorem Shifts.butnot (ha : Shifts k limit first first') (hb : Shifts k limit second second') :
    Shifts k limit (butnot first second) (butnot first' second') := by
  refine fun start => (ha start).cases (fun _ => .done _) fun ma => ?_
  refine (hb start).cases (fun _ => .ite .rfl (.done _) (.done _)) fun mb => ?_
  exact .ite Cursor.shift_le_shift (shifted_reached _) (.done _)

theorem Shifts.difference (ha : Shifts k limit first first') (hb : Shifts k limit second second') :
    Shifts k limit (difference first second) (difference first' second') := by
  refine fun start => (ha start).cases (fun _ => .done _) fun ma => ?_
  exact (hb start).cases (fun f => .ite .rfl (.done _) (.done _)) fun mb => shifted_reached _

theorem Shifts.xor (ha : Shifts k limit first first') (hb : Shifts k limit second second') :
    Shifts k limit (xor first second) (xor first' second') := by
  refine fun start => (ha start).cases (fun f => .ite .rfl (.done _) ?_) fun ma => ?_
  · refine (hb start).cases (fun g => .ite .rfl (.done _) (.fail ?_)) fun mb => .done _
    rw [Fail.shift_reportedAt, Fail.shift_deeper]
  · refine (hb start).cases (fun g => .ite .rfl (.done _) (.done _)) fun mb => ?_
    dsimp only
    rw [Match.stop_shift, Match.stop_shift, Cursor.max_shift]
    exact shifted_reached _

/-! ### Repetition -/

theorem Shifts.continueFrom (h : Shifts k limit first first') {room : Nat}
    {values : Array (Value υ)} : Shifted k limit (continueFrom first room cursor values)
      (continueFrom first' room (cursor.shift k) values) := by
  induction room using Nat.strongRecOn generalizing cursor values with
  | ind room ih =>
    rw [continueFrom_eq, continueFrom_eq]
    refine (h cursor).cases (fun f => .ite .rfl (.done _) (.done _)) fun m => ?_
    refine .ite Cursor.shift_lt_shift ?_ (.done _)
    cases room with
    | zero => exact .done _
    | succ rest => exact ih rest (Nat.lt_succ_self rest)

theorem Shifts.repeated (needed : Bool) (h : Shifts k limit first first')
    (hnext : Shifts k limit second second') :
    Shifts k limit (repeated first second needed) (repeated first' second' needed) := by
  refine fun start => (h start).cases (fun f => .ite .rfl (.done _) (.ite .rfl ?_ (.done _)))
    fun m => .ite Cursor.shift_lt_shift (.look ?_) (.done _)
  · exact .fail Fail.shift_reportedAt
  · have hroom : (limit.shift k).bitPosition - (m.shift k).stop.bitPosition
        = limit.bitPosition - m.stop.bitPosition := by
      rw [Match.stop_shift, Cursor.bitPosition_shift, Cursor.bitPosition_shift,
        Nat.add_sub_add_right]
    simp only [bind_done, hroom]
    exact hnext.continueFrom

theorem Shifts.separated (hi : Shifts k limit first first') (hs : Shifts k limit second second') :
    Shifts k limit (separated first second) (separated first' second') :=
  fun start => (hs start).cases (fun _ => .done _) fun m => hi m.stop

theorem Shifts.repeatFrom (h : Shifts k limit first first') {count : Nat}
    {values : Array (Value υ)} : Shifted k limit (repeatFrom first count cursor values)
      (repeatFrom first' count (cursor.shift k) values) := by
  induction count generalizing cursor values with
  | zero => exact .done _
  | succ count ih => exact h.andThen fun m => ih

theorem Shifts.optional (h : Shifts k limit first first') :
    Shifts k limit (optional first) (optional first') :=
  fun start => (h start).cases (fun _ => .ite .rfl (.done _) (.done _)) fun _ => .done _

/-! ### Lookahead, windows and callbacks -/

theorem Shifts.and (h : Shifts k limit first first') : Shifts k limit (and first) (and first') :=
  fun start => (h start).cases (fun _ => .done _) fun _ => .done _

theorem Shifts.not (h : Shifts k limit first first') : Shifts k limit (not first) (not first') :=
  fun start => (h start).cases (fun _ => .ite .rfl (.done _) (.done _)) fun _ => shifted_reached _

/-- The window that a count opens ends so many bytes further on. -/
theorem windowEnd?_shift {m : Match υ} (hlimit : limit.byte + k < wordBound) :
    windowEnd? (m.shift k) (limit.shift k) = (windowEnd? m limit).map (Cursor.shift k) := by
  rw [windowEnd?, windowEnd?, Match.value_shift, Match.stop_shift]
  cases m.value.bind Value.word? with
  | none => rfl
  | some count =>
    simp only [bind, pure, guard_eq_ite, Option.bind_some, Cursor.advanceBytes?, Cursor.byte_shift,
      Cursor.bit_shift, Nat.add_right_comm _ k count]
    have hshift : (⟨m.stop.byte + count + k, m.stop.bit⟩ : Cursor) ≤ limit.shift k ↔
        (⟨m.stop.byte + count, m.stop.bit⟩ : Cursor) ≤ limit :=
      Cursor.shift_le_shift (a := ⟨m.stop.byte + count, m.stop.bit⟩)
    by_cases hstop : (⟨m.stop.byte + count, m.stop.bit⟩ : Cursor) ≤ limit
    · have hle : m.stop.byte + count ≤ limit.byte := by
        rw [Cursor.le_def] at hstop
        dsimp only at hstop
        omega
      rw [if_pos (by omega), if_pos (by omega), Option.bind_some, Option.bind_some,
        if_pos hstop, if_pos (hshift.2 hstop)]
      rfl
    · by_cases hword : m.stop.byte + count < wordBound <;>
        by_cases hword' : m.stop.byte + count + k < wordBound <;>
        simp [hword, hword', hstop, hshift]

theorem Shifts.lengthValue {index : Nat} (hlimit : limit.byte + k < wordBound)
    (h : Shifts k limit first first') : Shifts k limit (lengthValue first (childWithin index))
      (lengthValue first' (childWithin index)) := by
  refine fun start => h.andThen fun ml => .look ?_
  simp only [bind_done, windowEnd?_shift hlimit]
  cases hstop : windowEnd? ml limit with
  | none => exact shifted_reached _
  | some stop =>
    have hle : stop ≤ limit := by
      simp only [windowEnd?, bind, ↓guard_eq_ite, Option.bind_eq_some_iff,
        Option.ite_none_right_eq_some] at hstop
      obtain ⟨_, -, _, -, _, ⟨hle, -⟩, hstop⟩ := hstop
      exact Option.some.inj hstop ▸ hle
    have hchild : Shifted k limit (childWithin index stop ml.stop : Plan υ σ (Step υ))
        (childWithin index (stop.shift k) (ml.stop.shift k)) :=
      .apply (fun _ hs => Option.some.inj hs ▸ hle) .done
    refine hchild.cases
      (fun f => .fail Fail.shift_reportedAt) fun mv => ?_
    exact .ite Cursor.shift_inj (.done _) (shifted_reached _)

theorem shifted_refused (m : Match υ) (e : CallbackError) : Shifted k limit
    (done (refused start m e) : Plan υ σ (Step υ))
    (done (refused (start.shift k) (m.shift k) e)) :=
  .fail Fail.shift_reached

theorem Shifts.action (act : Action υ σ) (h : Shifts k limit first first') :
    Shifts k limit (action first act) (action first' act) := by
  refine fun start => (h start).cases (fun _ => .done _) fun m => .call fun answer => ?_
  cases answer with
  | ok v => exact .done _
  | error e => exact shifted_refused m e

theorem Shifts.satisfying (accepts : Predicate υ σ) (h : Shifts k limit first first') :
    Shifts k limit (satisfying first accepts) (satisfying first' accepts) := by
  refine fun start => (h start).cases (fun _ => .done _) fun m => .call fun answer => ?_
  cases answer with
  | ok b =>
    cases b with
    | true => exact .done _
    | false => exact shifted_reached _
  | error e => exact shifted_refused m e

theorem shifts_children (ps : List Nat) : List.Forall₂ (Shifts k limit)
    (ps.map (Rule.child (υ := υ) (σ := σ))) (ps.map Rule.child) := by
  induction ps with
  | nil => exact .nil
  | cons p _ ih => exact .cons (shifts_child p) ih

end Rule

/-! ## Nodes -/

/-- **A combinator does the same, so many bytes further on.** -/
theorem Node.shifts_rule {input : Input} {limit : Cursor} (hk : k ≤ input.bytes.size)
    (hsize : 8 * input.bytes.size < wordBound) (hlimit : limit.byte + k < wordBound)
    (node : Node Nat υ σ) :
    Rule.Shifts k limit (node.rule (input.drop k)) (node.rule input) := by
  have hbytes : input.bytes.size < wordBound := by omega
  have hc : ∀ c, Rule.Shifts k limit (Rule.child c : Rule υ σ) (Rule.child c) := Rule.shifts_child
  cases node with
  | token bytes => exact Rule.shifts_token hk hbytes bytes
  | byte b => exact Rule.shifts_byteIf hbytes _
  | byteRange low high => exact Rule.shifts_byteIf hbytes _
  | byteIn set => exact Rule.shifts_byteIf hbytes _
  | bits width signed => exact Rule.shifts_bits hk hsize width signed
  | atEnd => exact Rule.shifts_atEnd
  | never => exact fun start => .done _
  | empty => exact fun start => .done _
  | intRange base low high => exact (hc base).intRange low high
  | whitespace p => exact (hc p).whitespace hbytes
  | left a b => exact (hc a).left (hc b)
  | right a b => exact (hc a).right (hc b)
  | middle a b c => exact (hc a).middle (hc b) (hc c)
  | sequence ps => exact fun start => Rule.shifted_sequenceFrom (Rule.shifts_children ps)
  | choice ps => exact fun start => Rule.shifted_choiceFrom (Rule.shifts_children ps)
  | butnot a b => exact (hc a).butnot (hc b)
  | difference a b => exact (hc a).difference (hc b)
  | xor a b => exact (hc a).xor (hc b)
  | many p => exact (hc p).repeated false (hc p)
  | many1 p => exact (hc p).repeated true (hc p)
  | repeatN p count => exact fun start => (hc p).repeatFrom
  | optional p => exact (hc p).optional
  | ignore p => exact (hc p).ignore
  | sepBy item sep => exact (hc item).repeated false ((hc item).separated (hc sep))
  | sepBy1 item sep => exact (hc item).repeated true ((hc item).separated (hc sep))
  | lengthValue length value => exact (hc length).lengthValue hlimit
  | and p => exact (hc p).and
  | not p => exact (hc p).not
  | action p act => exact (hc p).action act
  | satisfying p accepts => exact (hc p).satisfying accepts

end Packrat
