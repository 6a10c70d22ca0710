import Packrat.Proofs.Plan.Yields

/-!
# Proofs/Plan/Outcomes — what combinators end in

One equivalence for each combinator: its outcomes in terms of the outcomes of its parts. Parts are
*calm* here, they have no fatal outcome; so the equivalences speak of matches and of failures that
can be gone on with, and later proofs need not open a rule again.
-/

namespace Packrat

variable {υ σ : Type}

/-- An outcome is a failure or a match. -/
theorem Step.exists_iff {P : Step υ → Prop} :
    (∃ s, P s) ↔ (∃ f, P (.error f)) ∨ ∃ m, P (.ok m) := by
  constructor
  · rintro ⟨f | m, h⟩
    · exact .inl ⟨f, h⟩
    · exact .inr ⟨m, h⟩
  · rintro (⟨f, h⟩ | ⟨m, h⟩)
    · exact ⟨_, h⟩
    · exact ⟨_, h⟩

theorem value_bind_integer? {v : Option (Value υ)} {n : Integer} :
    v.bind Value.integer? = some n ↔ v = some (.integer n) := by
  rcases v with _ | _ | _ | _ | _ | _ | _ <;> simp [Value.integer?]

namespace Plan

variable {R : Outcomes υ} {limit : Cursor} {p : Plan υ σ (Step υ)} {step : Step υ}

/-- No outcome of the plan is fatal. -/
def Calm (R : Outcomes υ) (limit : Cursor) (p : Plan υ σ (Step υ)) : Prop :=
  ∀ f, p.Yields R limit (.error f) → ¬f.isFatal

theorem yields_bind_iff {next : Step υ → Plan υ σ (Step υ)} :
    (p.bind next).Yields R limit step ↔
      (∃ f, p.Yields R limit (.error f) ∧ (next (.error f)).Yields R limit step) ∨
        ∃ m, p.Yields R limit (.ok m) ∧ (next (.ok m)).Yields R limit step := by
  rw [yields_bind, Step.exists_iff]

/-- A plan that goes on with failures that are not fatal, all of them being so. -/
theorem Calm.yields_bind_iff (hp : p.Calm R limit) {next : Step υ → Plan υ σ (Step υ)}
    (onFail : Fail → Plan υ σ (Step υ))
    (hnext : ∀ f : Fail, next (.error f) = if f.isFatal then done (.error f) else onFail f) :
    (p.bind next).Yields R limit step ↔
      (∃ f, p.Yields R limit (.error f) ∧ (onFail f).Yields R limit step) ∨
        ∃ m, p.Yields R limit (.ok m) ∧ (next (.ok m)).Yields R limit step := by
  rw [Plan.yields_bind_iff]
  refine or_congr_left (exists_congr fun f => and_congr_right fun hf => ?_)
  rw [hnext, if_neg (hp f hf)]

end Plan

namespace Rule

open Plan

variable {R : Outcomes υ} {limit start cursor : Cursor} {first second third : Rule υ σ}
  {step : Step υ}

/-- The rule has no fatal outcome in a window that ends at `limit`. -/
def Calm (R : Outcomes υ) (limit : Cursor) (rule : Rule υ σ) : Prop :=
  ∀ start, (rule start).Calm R limit

/-- A strict rule over calm children is calm. -/
theorem Strict.calm {child : Nat → Prop} {callback : ∀ γ : Type, Callback υ σ γ → Prop}
    (h : first.Strict child callback) (hR : R.Calm) : first.Calm R limit := by
  intro start f hf hfatal
  have hcalm := hf.fatal?_eq_none (h start) hR
  rw [Step.fatal?_error_eq_none] at hcalm
  exact nomatch hcalm.symm.trans hfatal

theorem calm_child (hR : R.Calm) (index : Nat) : (Rule.child index : Rule υ σ).Calm R limit :=
  Strict.calm (strict_child trivial : (Rule.child index).Strict (fun _ => True) fun _ _ => True) hR

@[simp]
theorem yields_child {index : Nat} :
    (Rule.child index start : Plan υ σ (Step υ)).Yields R limit step ↔
      R index start limit step := by
  simp [Rule.child, Yields]

theorem yields_childWithin {index : Nat} {stop : Cursor} :
    (Rule.childWithin index stop start : Plan υ σ (Step υ)).Yields R limit step ↔
      R index start stop step := by
  simp [Rule.childWithin, Yields]

theorem yields_ofRead {found : Option (Match υ)} :
    (ofRead start found : Plan υ σ (Step υ)).Yields R limit step ↔
      (found = none ∧ .error (.noMatch start) = step) ∨ ∃ m, found = some m ∧ .ok m = step := by
  cases found <;> simp [ofRead, Yields]

/-! ## Leaves -/

theorem yields_token {input : Input} {bytes : List UInt8} :
    (token input bytes start : Plan υ σ (Step υ)).Yields R limit step ↔
      (input.bytesAt? start bytes.length limit ≠ some bytes ∧ .error (.noMatch start) = step) ∨
        input.bytesAt? start bytes.length limit = some bytes ∧
          .ok (.of (.atByte (start.byte + bytes.length)) (.bytes bytes)) = step := by
  refine (yields_look.trans yields_ofRead).trans ?_
  cases input.bytesAt? start bytes.length limit with
  | none => simp
  | some found =>
    by_cases h : found = bytes
    · simp [h]
    · simp [h]

theorem yields_byteIf {input : Input} {accepts : UInt8 → Bool} :
    (byteIf input accepts start : Plan υ σ (Step υ)).Yields R limit step ↔
      ((∀ b, input.byteAt? start limit = some b → ¬accepts b) ∧ .error (.noMatch start) = step) ∨
        ∃ b, input.byteAt? start limit = some b ∧ accepts b ∧
          .ok (.of (.atByte (start.byte + 1)) (.word b.toNat 8)) = step := by
  refine (yields_look.trans yields_ofRead).trans ?_
  cases input.byteAt? start limit with
  | none => simp
  | some found =>
    by_cases h : accepts found
    · simp [h]
    · simp [h]

theorem yields_bits {input : Input} {width : Nat} {signed : Bool} :
    (bits input width signed start : Plan υ σ (Step υ)).Yields R limit step ↔
      (input.readBits? start width limit = none ∧ .error (.noMatch start) = step) ∨
        ∃ raw stop, input.readBits? start width limit = some (raw, stop) ∧
          .ok (.of stop (.integer (if signed then .signed (twosComplement raw width) width
            else .unsigned raw width))) = step := by
  refine (yields_look.trans yields_ofRead).trans ?_
  rcases input.readBits? start width limit with _ | ⟨raw, stop⟩
  · simp
  · simp only [Option.map_some, reduceCtorEq, false_and, false_or, Option.some.injEq, Prod.mk.injEq]
    constructor
    · rintro ⟨m, rfl, rfl⟩
      exact ⟨raw, stop, ⟨rfl, rfl⟩, rfl⟩
    · rintro ⟨_, _, ⟨rfl, rfl⟩, rfl⟩
      exact ⟨_, rfl, rfl⟩

theorem yields_atEnd : (atEnd start : Plan υ σ (Step υ)).Yields R limit step ↔
    (limit ≤ start ∧ .ok (.absent start) = step) ∨
      ¬limit ≤ start ∧ .error (.noMatch start) = step := by
  refine yields_look.trans ?_
  by_cases h : limit ≤ start <;> simp [h, yields_done]

/-! ## In a row -/

theorem yields_andThen {next : Match υ → Plan υ σ (Step υ)} :
    (andThen start first cursor next).Yields R limit step ↔
      (∃ f, (first cursor).Yields R limit (.error f) ∧ .error (f.reportedAt start) = step) ∨
        ∃ m, (first cursor).Yields R limit (.ok m) ∧ (next m).Yields R limit step :=
  yields_bind_iff

theorem yields_sequenceFrom_cons {parts : List (Rule υ σ)} {values : Array (Value υ)} :
    (sequenceFrom start (first :: parts) cursor values).Yields R limit step ↔
      (∃ f, (first cursor).Yields R limit (.error f) ∧ .error (f.reportedAt start) = step) ∨
        ∃ m, (first cursor).Yields R limit (.ok m)
          ∧ (sequenceFrom start parts m.stop (m.collect values)).Yields R limit step :=
  yields_andThen

theorem yields_left : (left first second start).Yields R limit step ↔
    (∃ f, (first start).Yields R limit (.error f) ∧ .error (f.reportedAt start) = step) ∨
      ∃ ma, (first start).Yields R limit (.ok ma) ∧
        ((∃ f, (second ma.stop).Yields R limit (.error f) ∧ .error (f.reportedAt start) = step) ∨
          ∃ mb, (second ma.stop).Yields R limit (.ok mb) ∧ .ok ⟨mb.stop, ma.value⟩ = step) := by
  simp only [left, yields_andThen, pure_eq_done, yields_done]

theorem yields_right : (right first second start).Yields R limit step ↔
    (∃ f, (first start).Yields R limit (.error f) ∧ .error (f.reportedAt start) = step) ∨
      ∃ ma, (first start).Yields R limit (.ok ma) ∧
        ((∃ f, (second ma.stop).Yields R limit (.error f) ∧ .error (f.reportedAt start) = step) ∨
          ∃ mb, (second ma.stop).Yields R limit (.ok mb) ∧ .ok mb = step) := by
  simp only [right, yields_andThen, pure_eq_done, yields_done]

theorem yields_middle : (middle first second third start).Yields R limit step ↔
    (∃ f, (first start).Yields R limit (.error f) ∧ .error (f.reportedAt start) = step) ∨
      ∃ ma, (first start).Yields R limit (.ok ma) ∧
        ((∃ f, (second ma.stop).Yields R limit (.error f) ∧ .error (f.reportedAt start) = step) ∨
          ∃ mb, (second ma.stop).Yields R limit (.ok mb) ∧
            ((∃ f, (third mb.stop).Yields R limit (.error f) ∧
                .error (f.reportedAt start) = step) ∨
              ∃ mc, (third mb.stop).Yields R limit (.ok mc) ∧
                .ok ⟨mc.stop, mb.value⟩ = step)) := by
  simp only [middle, yields_andThen, pure_eq_done, yields_done]

theorem yields_whitespace {input : Input} :
    (whitespace input first start).Yields R limit step ↔
      (∃ f, (first (skipBlanks input limit (input.bytes.size - start.byte) start)).Yields R limit
          (.error f) ∧ .error (f.reportedAt start) = step) ∨
        ∃ m, (first (skipBlanks input limit (input.bytes.size - start.byte) start)).Yields R limit
          (.ok m) ∧ .ok m = step := by
  simp only [whitespace, bind_eq_bind, bind_limit, yields_look, yields_andThen, pure_eq_done,
    yields_done]

theorem yields_ignore : (ignore first start).Yields R limit step ↔
    (∃ f, (first start).Yields R limit (.error f) ∧ .error f = step) ∨
      ∃ m, (first start).Yields R limit (.ok m) ∧ .ok (.absent m.stop) = step :=
  yields_bind_iff

/-- Whether a match carries an integer of the range. -/
def InRange (low high : Int) (m : Match υ) : Prop :=
  ∃ n, m.value.bind Value.integer? = some n ∧ low ≤ n.toInt ∧ n.toInt ≤ high

theorem yields_intRange {low high : Int} : (intRange first low high start).Yields R limit step ↔
    (∃ f, (first start).Yields R limit (.error f) ∧ .error (f.reportedAt start) = step) ∨
      ∃ m, (first start).Yields R limit (.ok m) ∧
        ((InRange low high m ∧ .ok m = step) ∨
          ¬InRange low high m ∧ .error ((Fail.noMatch start).reached m.stop) = step) := by
  rw [intRange, yields_andThen]
  refine or_congr_right (exists_congr fun m => and_congr_right fun _ => ?_)
  cases hn : m.value.bind Value.integer? with
  | none => simp [InRange, hn, yields_done]
  | some n =>
    simp only [InRange, hn, Option.some.injEq, exists_eq_left']
    split
    · next h => simp [h, yields_done]
    · next h => simp [h, yields_done]

/-! ## Alternatives -/

theorem yields_choiceFrom_cons {alternatives : List (Rule υ σ)} {best : Option Fail}
    (hcalm : first.Calm R limit) :
    (choiceFrom start (first :: alternatives) best).Yields R limit step ↔
      (∃ f, (first start).Yields R limit (.error f) ∧
        (choiceFrom start alternatives (some ((best.map (·.deeper f)).getD f))).Yields R limit
          step) ∨
      ∃ m, (first start).Yields R limit (.ok m) ∧ .ok m = step :=
  (hcalm start).yields_bind_iff _ fun _ => rfl

theorem yields_butnot (hb : second.Calm R limit) :
    (butnot first second start).Yields R limit step ↔
      (∃ f, (first start).Yields R limit (.error f) ∧ .error f = step) ∨
        ∃ ma, (first start).Yields R limit (.ok ma) ∧
          ((∃ f, (second start).Yields R limit (.error f) ∧ .ok ma = step) ∨
            ∃ mb, (second start).Yields R limit (.ok mb) ∧
              ((ma.stop ≤ mb.stop ∧ .error ((Fail.noMatch start).reached ma.stop) = step) ∨
                ¬ma.stop ≤ mb.stop ∧ .ok ma = step)) := by
  refine yields_bind_iff.trans (or_congr_right (exists_congr fun ma => and_congr_right fun _ => ?_))
  refine ((hb start).yields_bind_iff (fun _ => .done (.ok ma)) fun _ => rfl).trans ?_
  refine or_congr_right (exists_congr fun mb => and_congr_right fun _ => ?_)
  dsimp only
  split
  · next h => simp [h, yields_done]
  · next h => simp [h, yields_done]

theorem yields_difference (hb : second.Calm R limit) :
    (difference first second start).Yields R limit step ↔
      (∃ f, (first start).Yields R limit (.error f) ∧ .error f = step) ∨
        ∃ ma, (first start).Yields R limit (.ok ma) ∧
          ((∃ f, (second start).Yields R limit (.error f) ∧ .ok ma = step) ∨
            ∃ mb, (second start).Yields R limit (.ok mb) ∧
              .error ((Fail.noMatch start).reached ma.stop) = step) := by
  refine yields_bind_iff.trans (or_congr_right (exists_congr fun ma => and_congr_right fun _ => ?_))
  exact (hb start).yields_bind_iff (fun _ => .done (.ok ma)) fun _ => rfl

theorem yields_xor (ha : first.Calm R limit) (hb : second.Calm R limit) :
    (xor first second start).Yields R limit step ↔
      (∃ f, (first start).Yields R limit (.error f) ∧
        ((∃ g, (second start).Yields R limit (.error g) ∧
            .error ((f.deeper g).reportedAt start) = step) ∨
          ∃ mb, (second start).Yields R limit (.ok mb) ∧ .ok mb = step)) ∨
      ∃ ma, (first start).Yields R limit (.ok ma) ∧
        ((∃ g, (second start).Yields R limit (.error g) ∧ .ok ma = step) ∨
          ∃ mb, (second start).Yields R limit (.ok mb) ∧
            .error ((Fail.noMatch start).reached (max ma.stop mb.stop)) = step) := by
  refine ((ha start).yields_bind_iff _ fun _ => rfl).trans (or_congr ?_ ?_)
  · refine exists_congr fun f => and_congr_right fun _ => ?_
    exact (hb start).yields_bind_iff (fun g => .done (.error ((f.deeper g).reportedAt start)))
      fun _ => rfl
  · refine exists_congr fun ma => and_congr_right fun _ => ?_
    exact (hb start).yields_bind_iff (fun _ => .done (.ok ma)) fun _ => rfl

/-! ## Repetition -/

theorem yields_continueFrom (hcalm : first.Calm R limit) {room : Nat} {values : Array (Value υ)} :
    (continueFrom first room cursor values).Yields R limit step ↔
      (∃ f, (first cursor).Yields R limit (.error f) ∧
        .ok (.of cursor (.sequence values.toList)) = step) ∨
      ∃ m, (first cursor).Yields R limit (.ok m) ∧
        ((¬cursor < m.stop ∧ .ok (.of m.stop (.sequence (m.collect values).toList)) = step) ∨
          cursor < m.stop ∧
            ((room = 0 ∧ .ok (.of m.stop (.sequence (m.collect values).toList)) = step) ∨
              ∃ rest, room = rest + 1 ∧
                (continueFrom first rest m.stop (m.collect values)).Yields R limit step)) := by
  rw [continueFrom_eq]
  refine ((hcalm cursor).yields_bind_iff
    (fun _ => .done (.ok (.of cursor (.sequence values.toList)))) fun _ => rfl).trans ?_
  refine or_congr_right (exists_congr fun m => and_congr_right fun _ => ?_)
  dsimp only
  split
  · next h => cases room <;> simp [h, yields_done]
  · next h => simp [h, yields_done]

theorem yields_repeated (hcalm : first.Calm R limit) {needed : Bool} :
    (repeated first second needed start).Yields R limit step ↔
      (∃ f, (first start).Yields R limit (.error f) ∧
        ((needed = true ∧ .error (f.reportedAt start) = step) ∨
          needed = false ∧ .ok (.of start (.sequence [])) = step)) ∨
      ∃ m, (first start).Yields R limit (.ok m) ∧
        ((¬start < m.stop ∧ .ok (.of m.stop (.sequence (m.collect #[]).toList)) = step) ∨
          start < m.stop ∧ (continueFrom second (limit.bitPosition - m.stop.bitPosition) m.stop
            (m.collect #[])).Yields R limit step) := by
  refine ((hcalm start).yields_bind_iff _ fun _ => rfl).trans (or_congr ?_ ?_)
  · refine exists_congr fun f => and_congr_right fun _ => ?_
    cases needed <;> simp [yields_done]
  · refine exists_congr fun m => and_congr_right fun _ => ?_
    dsimp only
    split
    · next h => simp [h, yields_look]
    · next h => simp [h, yields_done]

theorem yields_separated : (separated first second start).Yields R limit step ↔
    (∃ f, (second start).Yields R limit (.error f) ∧ .error f = step) ∨
      ∃ m, (second start).Yields R limit (.ok m) ∧ (first m.stop).Yields R limit step :=
  yields_bind_iff

theorem yields_repeatFrom_succ {count : Nat} {values : Array (Value υ)} :
    (repeatFrom first (count + 1) cursor values).Yields R limit step ↔
      (∃ f, (first cursor).Yields R limit (.error f) ∧ .error (f.reportedAt cursor) = step) ∨
        ∃ m, (first cursor).Yields R limit (.ok m)
          ∧ (repeatFrom first count m.stop (m.collect values)).Yields R limit step :=
  yields_andThen

theorem yields_optional (hcalm : first.Calm R limit) :
    (optional first start).Yields R limit step ↔
      (∃ f, (first start).Yields R limit (.error f) ∧ .ok (.of start .none) = step) ∨
        ∃ m, (first start).Yields R limit (.ok m) ∧ .ok m = step :=
  (hcalm start).yields_bind_iff (fun _ => .done (.ok (.of start .none))) fun _ => rfl

/-! ## Lookahead -/

theorem yields_and : (and first start).Yields R limit step ↔
    (∃ f, (first start).Yields R limit (.error f) ∧ .error f = step) ∨
      ∃ m, (first start).Yields R limit (.ok m) ∧ .ok (.absent start) = step :=
  yields_bind_iff

theorem yields_not (hcalm : first.Calm R limit) : (not first start).Yields R limit step ↔
    (∃ f, (first start).Yields R limit (.error f) ∧ .ok (.absent start) = step) ∨
      ∃ m, (first start).Yields R limit (.ok m) ∧
        .error ((Fail.noMatch start).reached m.stop) = step :=
  (hcalm start).yields_bind_iff (fun _ => .done (.ok (.absent start))) fun _ => rfl

/-! ## Windows and callbacks -/

theorem yields_lengthValue {value : Cursor → Rule υ σ} :
    (lengthValue first value start).Yields R limit step ↔
      (∃ f, (first start).Yields R limit (.error f) ∧ .error (f.reportedAt start) = step) ∨
        ∃ ml, (first start).Yields R limit (.ok ml) ∧
          ((windowEnd? ml limit = none ∧
              .error ((Fail.noMatch start).reached ml.stop) = step) ∨
            ∃ stop, windowEnd? ml limit = some stop ∧
              ((∃ f, (value stop ml.stop).Yields R limit (.error f) ∧
                  .error (f.reportedAt start) = step) ∨
                ∃ mv, (value stop ml.stop).Yields R limit (.ok mv) ∧
                  ((mv.stop = stop ∧ .ok mv = step) ∨
                    mv.stop ≠ stop ∧
                      .error ((Fail.noMatch start).reached mv.stop) = step))) := by
  rw [lengthValue, yields_andThen]
  refine or_congr_right (exists_congr fun ml => and_congr_right fun _ => ?_)
  simp only [bind_eq_bind, bind_limit, yields_look]
  cases windowEnd? ml limit with
  | none => simp [yields_done]
  | some stop =>
    simp only [reduceCtorEq, false_and, false_or, Option.some.injEq, exists_eq_left',
      yields_andThen]
    refine or_congr_right (exists_congr fun mv => and_congr_right fun _ => ?_)
    split
    · next h => simp [h, yields_done]
    · next h => simp [h, yields_done]

theorem yields_action {act : Action υ σ} : (action first act start).Yields R limit step ↔
    (∃ f, (first start).Yields R limit (.error f) ∧ .error f = step) ∨
      ∃ m, (first start).Yields R limit (.ok m) ∧
        ((∃ e, act.Answers m.shown (.error e) ∧ refused start m e = step) ∨
          ∃ v, act.Answers m.shown (.ok v) ∧ .ok (.of m.stop v) = step) := by
  refine yields_bind_iff.trans (or_congr_right (exists_congr fun m => and_congr_right fun _ => ?_))
  constructor
  · rintro ⟨e | v, ha, h⟩
    · exact .inl ⟨e, ha, h⟩
    · exact .inr ⟨v, ha, h⟩
  · rintro (⟨e, ha, h⟩ | ⟨v, ha, h⟩)
    · exact ⟨.error e, ha, h⟩
    · exact ⟨.ok v, ha, h⟩

theorem yields_satisfying {accepts : Predicate υ σ} :
    (satisfying first accepts start).Yields R limit step ↔
      (∃ f, (first start).Yields R limit (.error f) ∧ .error f = step) ∨
        ∃ m, (first start).Yields R limit (.ok m) ∧
          ((∃ e, accepts.Answers m.shown (.error e) ∧ refused start m e = step) ∨
            (accepts.Answers m.shown (.ok true) ∧ .ok m = step) ∨
              accepts.Answers m.shown (.ok false) ∧
                .error ((Fail.noMatch start).reached m.stop) = step) := by
  refine yields_bind_iff.trans (or_congr_right (exists_congr fun m => and_congr_right fun _ => ?_))
  constructor
  · rintro ⟨e | _ | _, ha, h⟩
    · exact .inl ⟨e, ha, h⟩
    · exact .inr (.inr ⟨ha, h⟩)
    · exact .inr (.inl ⟨ha, h⟩)
  · rintro (⟨e, ha, h⟩ | ⟨ha, h⟩ | ⟨ha, h⟩)
    · exact ⟨.error e, ha, h⟩
    · exact ⟨.ok true, ha, h⟩
    · exact ⟨.ok false, ha, h⟩

end Rule

end Packrat
