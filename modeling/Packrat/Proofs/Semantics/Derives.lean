import Packrat.Rule.Combinator
import Packrat.Grammar
import Packrat.Proofs.Plan.Yields

/-!
# Proofs/Semantics/Derives — the rules of the grammar language

What a grammar means, as rules of inference: `Grammar.Derives g input limit goal step` derives an
outcome from the outcomes of children, in a window that ends at `limit`. A placeholder has the
outcomes of its target. There is no memo here, no set of targets being followed, no bound on slots,
and no number that bounds a loop: what would go on for ever has no derivation.

Besides entries at a cursor (`Goal.entry`) there are goals for what is left of a row, of
alternatives and of a repetition.
-/

namespace Packrat

/-! ## What the rules look at -/

/-- The cursor `rest` stands behind the blanks from a cursor on. -/
inductive Input.Blanks (input : Input) (limit : Cursor) : Cursor → Cursor → Prop
  /-- No blank follows. -/
  | stop {cursor} (h : ∀ b, input.byteAt? cursor limit = some b → ¬Charset.whitespace.contains b) :
      Blanks input limit cursor cursor
  /-- A blank is skipped. -/
  | skip {cursor rest b} (h : input.byteAt? cursor limit = some b)
      (hb : Charset.whitespace.contains b)
      (hrest : Blanks input limit (.atByte (cursor.byte + 1)) rest) : Blanks input limit cursor rest

namespace Node

variable {ρ υ σ : Type}

/-- Which bytes a combinator of a single byte accepts. -/
def accepts? : Node ρ υ σ → Option (UInt8 → Bool)
  | byte b => some (· == b)
  | byteRange low high => some fun b => low ≤ b && b ≤ high
  | byteIn set => some set.contains
  | _ => none

/-- The item of a repetition, its separator, and whether an item is needed. -/
def repetition? : Node ρ υ σ → Option (ρ × Option ρ × Bool)
  | many p => some (p, none, false)
  | many1 p => some (p, none, true)
  | sepBy item sep => some (item, some sep, false)
  | sepBy1 item sep => some (item, some sep, true)
  | _ => none

end Node

/-- What can be derived, at a cursor. -/
inductive Goal (υ : Type) where
  /-- An entry. -/
  | entry (index : Nat) (start : Cursor)
  /-- What is left of a row that began at `start`, behind these values. -/
  | row (start : Cursor) (parts : List Nat) (cursor : Cursor) (values : Array (Value υ))
  /-- What is left of alternatives, `best` being the failure to report so far. -/
  | firstOf (start : Cursor) (alternatives : List Nat) (best : Option Fail)
  /-- One more item of a repetition, with the separator in front of it. -/
  | element (item : Nat) (sep : Option Nat) (cursor : Cursor)
  /-- What is left of a repetition, behind these values. -/
  | more (item : Nat) (sep : Option Nat) (cursor : Cursor) (values : Array (Value υ))
  /-- A number of items, behind these values. -/
  | times (item count : Nat) (cursor : Cursor) (values : Array (Value υ))

namespace Grammar

variable {υ σ : Type}

/-- The entry is this combinator. -/
abbrev IsNode (g : Grammar υ σ) (i : Nat) (n : Node Nat υ σ) : Prop :=
  g.entries[i]? = some (.node n)

section

variable (g : Grammar υ σ) (input : Input)

/-- **The rules of inference.** -/
inductive Derives : Cursor → Goal υ → Step υ → Prop
  /-- A placeholder has the outcome of its target. -/
  | indirect {limit i start slot target step} (he : g.entries[i]? = some (.indirect slot))
      (ht : g.targets[slot.index]? = some target) (h : Derives limit (.entry target start) step) :
      Derives limit (.entry i start) step
  -- Bytes and bits.
  | token_ok {limit i start bytes} (he : g.IsNode i (.token bytes))
      (hr : input.bytesAt? start bytes.length limit = some bytes) :
      Derives limit (.entry i start)
        (.ok (.of (.atByte (start.byte + bytes.length)) (.bytes bytes)))
  | token_fail {limit i start bytes} (he : g.IsNode i (.token bytes))
      (hr : input.bytesAt? start bytes.length limit ≠ some bytes) :
      Derives limit (.entry i start) (.error (.noMatch start))
  | byte_ok {limit i start n accepts b} (he : g.IsNode i n) (ha : n.accepts? = some accepts)
      (hr : input.byteAt? start limit = some b) (hb : accepts b) :
      Derives limit (.entry i start) (.ok (.of (.atByte (start.byte + 1)) (.word b.toNat 8)))
  | byte_fail {limit i start n accepts} (he : g.IsNode i n) (ha : n.accepts? = some accepts)
      (hr : ∀ b, input.byteAt? start limit = some b → ¬accepts b) :
      Derives limit (.entry i start) (.error (.noMatch start))
  | signed {limit i start width raw stop} (he : g.IsNode i (.bits width true))
      (hr : input.readBits? start width limit = some (raw, stop)) :
      Derives limit (.entry i start)
        (.ok (.of stop (.integer (.signed (twosComplement raw width) width))))
  | unsigned {limit i start width raw stop} (he : g.IsNode i (.bits width false))
      (hr : input.readBits? start width limit = some (raw, stop)) :
      Derives limit (.entry i start) (.ok (.of stop (.integer (.unsigned raw width))))
  | bits_fail {limit i start width signed} (he : g.IsNode i (.bits width signed))
      (hr : input.readBits? start width limit = none) :
      Derives limit (.entry i start) (.error (.noMatch start))
  | atEnd_ok {limit i start} (he : g.IsNode i .atEnd) (h : limit ≤ start) :
      Derives limit (.entry i start) (.ok (.absent start))
  | atEnd_fail {limit i start} (he : g.IsNode i .atEnd) (h : ¬limit ≤ start) :
      Derives limit (.entry i start) (.error (.noMatch start))
  | never {limit i start} (he : g.IsNode i .never) :
      Derives limit (.entry i start) (.error (.noMatch start))
  | empty {limit i start} (he : g.IsNode i .empty) :
      Derives limit (.entry i start) (.ok (.absent start))
  -- Parts in a row; the failure of a part is reported where the row began.
  | left_first {limit i start a b f} (he : g.IsNode i (.left a b))
      (ha : Derives limit (.entry a start) (.error f)) :
      Derives limit (.entry i start) (.error (f.reportedAt start))
  | left_second {limit i start a b ma f} (he : g.IsNode i (.left a b))
      (ha : Derives limit (.entry a start) (.ok ma))
      (hb : Derives limit (.entry b ma.stop) (.error f)) :
      Derives limit (.entry i start) (.error (f.reportedAt start))
  | left_ok {limit i start a b ma mb} (he : g.IsNode i (.left a b))
      (ha : Derives limit (.entry a start) (.ok ma))
      (hb : Derives limit (.entry b ma.stop) (.ok mb)) :
      Derives limit (.entry i start) (.ok ⟨mb.stop, ma.value⟩)
  | right_first {limit i start a b f} (he : g.IsNode i (.right a b))
      (ha : Derives limit (.entry a start) (.error f)) :
      Derives limit (.entry i start) (.error (f.reportedAt start))
  | right_second {limit i start a b ma f} (he : g.IsNode i (.right a b))
      (ha : Derives limit (.entry a start) (.ok ma))
      (hb : Derives limit (.entry b ma.stop) (.error f)) :
      Derives limit (.entry i start) (.error (f.reportedAt start))
  | right_ok {limit i start a b ma mb} (he : g.IsNode i (.right a b))
      (ha : Derives limit (.entry a start) (.ok ma))
      (hb : Derives limit (.entry b ma.stop) (.ok mb)) : Derives limit (.entry i start) (.ok mb)
  | middle_first {limit i start a b c f} (he : g.IsNode i (.middle a b c))
      (ha : Derives limit (.entry a start) (.error f)) :
      Derives limit (.entry i start) (.error (f.reportedAt start))
  | middle_second {limit i start a b c ma f} (he : g.IsNode i (.middle a b c))
      (ha : Derives limit (.entry a start) (.ok ma))
      (hb : Derives limit (.entry b ma.stop) (.error f)) :
      Derives limit (.entry i start) (.error (f.reportedAt start))
  | middle_third {limit i start a b c ma mb f} (he : g.IsNode i (.middle a b c))
      (ha : Derives limit (.entry a start) (.ok ma))
      (hb : Derives limit (.entry b ma.stop) (.ok mb))
      (hc : Derives limit (.entry c mb.stop) (.error f)) :
      Derives limit (.entry i start) (.error (f.reportedAt start))
  | middle_ok {limit i start a b c ma mb mc} (he : g.IsNode i (.middle a b c))
      (ha : Derives limit (.entry a start) (.ok ma))
      (hb : Derives limit (.entry b ma.stop) (.ok mb))
      (hc : Derives limit (.entry c mb.stop) (.ok mc)) :
      Derives limit (.entry i start) (.ok ⟨mc.stop, mb.value⟩)
  | sequence {limit i start ps step} (he : g.IsNode i (.sequence ps))
      (h : Derives limit (.row start ps start #[]) step) : Derives limit (.entry i start) step
  | row_nil {limit start cursor values} : Derives limit (.row start [] cursor values)
      (.ok (.of cursor (.sequence values.toList)))
  | row_fail {limit start p ps cursor values f} (h : Derives limit (.entry p cursor) (.error f)) :
      Derives limit (.row start (p :: ps) cursor values) (.error (f.reportedAt start))
  | row_cons {limit start p ps cursor values m step} (h : Derives limit (.entry p cursor) (.ok m))
      (hrest : Derives limit (.row start ps m.stop (m.collect values)) step) :
      Derives limit (.row start (p :: ps) cursor values) step
  | whitespace_fail {limit i start cursor p f} (he : g.IsNode i (.whitespace p))
      (hskip : input.Blanks limit start cursor)
      (h : Derives limit (.entry p cursor) (.error f)) :
      Derives limit (.entry i start) (.error (f.reportedAt start))
  | whitespace_ok {limit i start cursor p m} (he : g.IsNode i (.whitespace p))
      (hskip : input.Blanks limit start cursor) (h : Derives limit (.entry p cursor) (.ok m)) :
      Derives limit (.entry i start) (.ok m)
  | ignore_fail {limit i start p f} (he : g.IsNode i (.ignore p))
      (h : Derives limit (.entry p start) (.error f)) : Derives limit (.entry i start) (.error f)
  | ignore_ok {limit i start p m} (he : g.IsNode i (.ignore p))
      (h : Derives limit (.entry p start) (.ok m)) :
      Derives limit (.entry i start) (.ok (.absent m.stop))
  | intRange_fail {limit i start p low high f} (he : g.IsNode i (.intRange p low high))
      (h : Derives limit (.entry p start) (.error f)) :
      Derives limit (.entry i start) (.error (f.reportedAt start))
  | intRange_ok {limit i start p low high m n} (he : g.IsNode i (.intRange p low high))
      (h : Derives limit (.entry p start) (.ok m)) (hn : m.value = some (.integer n))
      (hlow : low ≤ n.toInt) (hhigh : n.toInt ≤ high) : Derives limit (.entry i start) (.ok m)
  | intRange_outside {limit i start p low high m} (he : g.IsNode i (.intRange p low high))
      (h : Derives limit (.entry p start) (.ok m))
      (hn : ∀ n, m.value = some (.integer n) → ¬(low ≤ n.toInt ∧ n.toInt ≤ high)) :
      Derives limit (.entry i start) (.error ((Fail.noMatch start).reached m.stop))
  -- Alternatives, in order and committed.
  | choice {limit i start ps step} (he : g.IsNode i (.choice ps))
      (h : Derives limit (.firstOf start ps none) step) : Derives limit (.entry i start) step
  | firstOf_none {limit start} : Derives limit (.firstOf start [] none) (.error (.noMatch start))
  | firstOf_some {limit start f} :
      Derives limit (.firstOf start [] (some f)) (.error (f.reportedAt start))
  | firstOf_ok {limit start p ps best m} (h : Derives limit (.entry p start) (.ok m)) :
      Derives limit (.firstOf start (p :: ps) best) (.ok m)
  | firstOf_next {limit start p ps best f step} (h : Derives limit (.entry p start) (.error f))
      (hrest : Derives limit (.firstOf start ps (some ((best.map (·.deeper f)).getD f))) step) :
      Derives limit (.firstOf start (p :: ps) best) step
  | butnot_fail {limit i start a b f} (he : g.IsNode i (.butnot a b))
      (ha : Derives limit (.entry a start) (.error f)) : Derives limit (.entry i start) (.error f)
  | butnot_ok {limit i start a b ma f} (he : g.IsNode i (.butnot a b))
      (ha : Derives limit (.entry a start) (.ok ma))
      (hb : Derives limit (.entry b start) (.error f)) : Derives limit (.entry i start) (.ok ma)
  | butnot_shorter {limit i start a b ma mb} (he : g.IsNode i (.butnot a b))
      (ha : Derives limit (.entry a start) (.ok ma))
      (hb : Derives limit (.entry b start) (.ok mb)) (h : ¬ma.stop ≤ mb.stop) :
      Derives limit (.entry i start) (.ok ma)
  | butnot_refused {limit i start a b ma mb} (he : g.IsNode i (.butnot a b))
      (ha : Derives limit (.entry a start) (.ok ma))
      (hb : Derives limit (.entry b start) (.ok mb)) (h : ma.stop ≤ mb.stop) :
      Derives limit (.entry i start) (.error ((Fail.noMatch start).reached ma.stop))
  | difference_fail {limit i start a b f} (he : g.IsNode i (.difference a b))
      (ha : Derives limit (.entry a start) (.error f)) : Derives limit (.entry i start) (.error f)
  | difference_ok {limit i start a b ma f} (he : g.IsNode i (.difference a b))
      (ha : Derives limit (.entry a start) (.ok ma))
      (hb : Derives limit (.entry b start) (.error f)) : Derives limit (.entry i start) (.ok ma)
  | difference_refused {limit i start a b ma mb} (he : g.IsNode i (.difference a b))
      (ha : Derives limit (.entry a start) (.ok ma))
      (hb : Derives limit (.entry b start) (.ok mb)) :
      Derives limit (.entry i start) (.error ((Fail.noMatch start).reached ma.stop))
  | xor_first {limit i start a b ma f} (he : g.IsNode i (.xor a b))
      (ha : Derives limit (.entry a start) (.ok ma))
      (hb : Derives limit (.entry b start) (.error f)) : Derives limit (.entry i start) (.ok ma)
  | xor_second {limit i start a b f mb} (he : g.IsNode i (.xor a b))
      (ha : Derives limit (.entry a start) (.error f))
      (hb : Derives limit (.entry b start) (.ok mb)) : Derives limit (.entry i start) (.ok mb)
  | xor_both {limit i start a b ma mb} (he : g.IsNode i (.xor a b))
      (ha : Derives limit (.entry a start) (.ok ma))
      (hb : Derives limit (.entry b start) (.ok mb)) :
      Derives limit (.entry i start)
        (.error ((Fail.noMatch start).reached (max ma.stop mb.stop)))
  | xor_neither {limit i start a b fa fb} (he : g.IsNode i (.xor a b))
      (ha : Derives limit (.entry a start) (.error fa))
      (hb : Derives limit (.entry b start) (.error fb)) :
      Derives limit (.entry i start) (.error ((fa.deeper fb).reportedAt start))
  -- Repetition, greedy; it ends at an item that fails or consumes nothing.
  | repeat_none {limit i start n item sep f} (he : g.IsNode i n)
      (hn : n.repetition? = some (item, sep, false))
      (h : Derives limit (.entry item start) (.error f)) :
      Derives limit (.entry i start) (.ok (.of start (.sequence [])))
  | repeat_missing {limit i start n item sep f} (he : g.IsNode i n)
      (hn : n.repetition? = some (item, sep, true))
      (h : Derives limit (.entry item start) (.error f)) :
      Derives limit (.entry i start) (.error (f.reportedAt start))
  | repeat_still {limit i start n item sep needed m} (he : g.IsNode i n)
      (hn : n.repetition? = some (item, sep, needed))
      (h : Derives limit (.entry item start) (.ok m)) (hstill : ¬start < m.stop) :
      Derives limit (.entry i start) (.ok (.of m.stop (.sequence (m.collect #[]).toList)))
  | repeat_more {limit i start n item sep needed m step} (he : g.IsNode i n)
      (hn : n.repetition? = some (item, sep, needed))
      (h : Derives limit (.entry item start) (.ok m)) (hgo : start < m.stop)
      (hmore : Derives limit (.more item sep m.stop (m.collect #[])) step) :
      Derives limit (.entry i start) step
  | element_plain {limit item cursor step} (h : Derives limit (.entry item cursor) step) :
      Derives limit (.element item none cursor) step
  | element_unseparated {limit item sep cursor f}
      (h : Derives limit (.entry sep cursor) (.error f)) :
      Derives limit (.element item (some sep) cursor) (.error f)
  | element_separated {limit item sep cursor m step}
      (hs : Derives limit (.entry sep cursor) (.ok m))
      (h : Derives limit (.entry item m.stop) step) :
      Derives limit (.element item (some sep) cursor) step
  | more_stop {limit item sep cursor values f}
      (h : Derives limit (.element item sep cursor) (.error f)) :
      Derives limit (.more item sep cursor values) (.ok (.of cursor (.sequence values.toList)))
  | more_still {limit item sep cursor values m}
      (h : Derives limit (.element item sep cursor) (.ok m))
      (hstill : ¬cursor < m.stop) :
      Derives limit (.more item sep cursor values)
        (.ok (.of m.stop (.sequence (m.collect values).toList)))
  | more_go {limit item sep cursor values m step}
      (h : Derives limit (.element item sep cursor) (.ok m)) (hgo : cursor < m.stop)
      (hmore : Derives limit (.more item sep m.stop (m.collect values)) step) :
      Derives limit (.more item sep cursor values) step
  | repeatN {limit i start p count step} (he : g.IsNode i (.repeatN p count))
      (h : Derives limit (.times p count start #[]) step) : Derives limit (.entry i start) step
  | times_zero {limit item cursor values} : Derives limit (.times item 0 cursor values)
      (.ok (.of cursor (.sequence values.toList)))
  | times_fail {limit item count cursor values f}
      (h : Derives limit (.entry item cursor) (.error f)) :
      Derives limit (.times item (count + 1) cursor values) (.error (f.reportedAt cursor))
  | times_succ {limit item count cursor values m step}
      (h : Derives limit (.entry item cursor) (.ok m))
      (hrest : Derives limit (.times item count m.stop (m.collect values)) step) :
      Derives limit (.times item (count + 1) cursor values) step
  | optional_none {limit i start p f} (he : g.IsNode i (.optional p))
      (h : Derives limit (.entry p start) (.error f)) :
      Derives limit (.entry i start) (.ok (.of start .none))
  | optional_some {limit i start p m} (he : g.IsNode i (.optional p))
      (h : Derives limit (.entry p start) (.ok m)) : Derives limit (.entry i start) (.ok m)
  -- Lookahead.
  | and_fail {limit i start p f} (he : g.IsNode i (.and p))
      (h : Derives limit (.entry p start) (.error f)) : Derives limit (.entry i start) (.error f)
  | and_ok {limit i start p m} (he : g.IsNode i (.and p))
      (h : Derives limit (.entry p start) (.ok m)) :
      Derives limit (.entry i start) (.ok (.absent start))
  | not_ok {limit i start p f} (he : g.IsNode i (.not p))
      (h : Derives limit (.entry p start) (.error f)) :
      Derives limit (.entry i start) (.ok (.absent start))
  | not_fail {limit i start p m} (he : g.IsNode i (.not p))
      (h : Derives limit (.entry p start) (.ok m)) :
      Derives limit (.entry i start) (.error ((Fail.noMatch start).reached m.stop))
  -- Windows: the value is matched where the input ends behind the counted bytes.
  | lengthValue_length {limit i start a b f} (he : g.IsNode i (.lengthValue a b))
      (ha : Derives limit (.entry a start) (.error f)) :
      Derives limit (.entry i start) (.error (f.reportedAt start))
  | lengthValue_window {limit i start a b ml} (he : g.IsNode i (.lengthValue a b))
      (ha : Derives limit (.entry a start) (.ok ml)) (hw : Rule.windowEnd? ml limit = none) :
      Derives limit (.entry i start) (.error ((Fail.noMatch start).reached ml.stop))
  | lengthValue_value {limit i start a b ml stop f} (he : g.IsNode i (.lengthValue a b))
      (ha : Derives limit (.entry a start) (.ok ml)) (hw : Rule.windowEnd? ml limit = some stop)
      (hb : Derives stop (.entry b ml.stop) (.error f)) :
      Derives limit (.entry i start) (.error (f.reportedAt start))
  | lengthValue_short {limit i start a b ml stop mv} (he : g.IsNode i (.lengthValue a b))
      (ha : Derives limit (.entry a start) (.ok ml)) (hw : Rule.windowEnd? ml limit = some stop)
      (hb : Derives stop (.entry b ml.stop) (.ok mv)) (h : mv.stop ≠ stop) :
      Derives limit (.entry i start) (.error ((Fail.noMatch start).reached mv.stop))
  | lengthValue_ok {limit i start a b ml stop mv} (he : g.IsNode i (.lengthValue a b))
      (ha : Derives limit (.entry a start) (.ok ml)) (hw : Rule.windowEnd? ml limit = some stop)
      (hb : Derives stop (.entry b ml.stop) (.ok mv)) (h : mv.stop = stop) :
      Derives limit (.entry i start) (.ok mv)
  -- Callbacks.
  | action_fail {limit i start p act f} (he : g.IsNode i (.action p act))
      (h : Derives limit (.entry p start) (.error f)) : Derives limit (.entry i start) (.error f)
  | action_ok {limit i start p act m v} (he : g.IsNode i (.action p act))
      (h : Derives limit (.entry p start) (.ok m)) (ha : act.Answers m.shown (.ok v)) :
      Derives limit (.entry i start) (.ok (.of m.stop v))
  | action_refused {limit i start p act m e} (he : g.IsNode i (.action p act))
      (h : Derives limit (.entry p start) (.ok m)) (ha : act.Answers m.shown (.error e)) :
      Derives limit (.entry i start) (Rule.refused start m e)
  | satisfying_fail {limit i start p accepts f} (he : g.IsNode i (.satisfying p accepts))
      (h : Derives limit (.entry p start) (.error f)) : Derives limit (.entry i start) (.error f)
  | satisfying_ok {limit i start p accepts m} (he : g.IsNode i (.satisfying p accepts))
      (h : Derives limit (.entry p start) (.ok m)) (ha : accepts.Answers m.shown (.ok true)) :
      Derives limit (.entry i start) (.ok m)
  | satisfying_not {limit i start p accepts m} (he : g.IsNode i (.satisfying p accepts))
      (h : Derives limit (.entry p start) (.ok m)) (ha : accepts.Answers m.shown (.ok false)) :
      Derives limit (.entry i start) (.error ((Fail.noMatch start).reached m.stop))
  | satisfying_refused {limit i start p accepts m e} (he : g.IsNode i (.satisfying p accepts))
      (h : Derives limit (.entry p start) (.ok m)) (ha : accepts.Answers m.shown (.error e)) :
      Derives limit (.entry i start) (Rule.refused start m e)

end

end Grammar

end Packrat
