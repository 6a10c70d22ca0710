import Packrat.Rule.Leaf

/-!
# Rule/Combinator — rules made of rules

The rules of the combinators, over any rules whatever. Fatal failures pass through all of them;
alternatives, repetition and lookahead absorb the others only. Alternatives are ordered and
committed, repetition is greedy, and a repetition stops after an item that consumed nothing.
-/

namespace Packrat.Rule

variable {υ σ : Type}

/-! ## In a row -/

/-- Follows a rule at a cursor and goes on with its match; its failure is reported at `start`. -/
@[inline]
def andThen (start : Cursor) (part : Rule υ σ) (cursor : Cursor)
    (next : Match υ → Plan υ σ (Step υ)) : Plan υ σ (Step υ) := do
  match ← part cursor with
  | .ok m => next m
  | .error f => return .error (f.reportedAt start)

/-- The parts in a row, from `cursor` on, with the values so far. -/
def sequenceFrom (start : Cursor) :
    List (Rule υ σ) → Cursor → Array (Value υ) → Plan υ σ (Step υ)
  | [], cursor, values => return .ok (.of cursor (.sequence values.toList))
  | part :: parts, cursor, values =>
    andThen start part cursor fun m => sequenceFrom start parts m.stop (m.collect values)

/-- The parts in a row; absent values are left out of the sequence. -/
def sequence (parts : List (Rule υ σ)) : Rule υ σ := fun start =>
  sequenceFrom start parts start #[]

/-- Two parts in a row, of the first's value. -/
def left (a b : Rule υ σ) : Rule υ σ := fun start =>
  andThen start a start fun ma => andThen start b ma.stop fun mb =>
    return .ok ⟨mb.stop, ma.value⟩

/-- Two parts in a row, of the second's value. -/
def right (a b : Rule υ σ) : Rule υ σ := fun start =>
  andThen start a start fun ma => andThen start b ma.stop fun mb =>
    return .ok mb

/-- Three parts in a row, of the second's value. -/
def middle (a b c : Rule υ σ) : Rule υ σ := fun start =>
  andThen start a start fun ma => andThen start b ma.stop fun mb =>
    andThen start c mb.stop fun mc => return .ok ⟨mc.stop, mb.value⟩

/-- Skips blanks on byte boundaries, then follows a rule. -/
def whitespace (input : Input) (inner : Rule υ σ) : Rule υ σ := fun start => do
  let cursor := skipBlanks input (← Plan.limit) (input.bytes.size - start.byte) start
  andThen start inner cursor fun m => return .ok m

/-- Drops the value of a match. -/
def ignore (inner : Rule υ σ) : Rule υ σ := fun start => do
  return (← inner start).map fun m => .absent m.stop

/-- Accepts a match whose value is an integer of a range. -/
def intRange (base : Rule υ σ) (low high : Int) : Rule υ σ := fun start =>
  andThen start base start fun m => do
    match m.value.bind Value.integer? with
    | some n =>
      if low ≤ n.toInt ∧ n.toInt ≤ high then return .ok m
      else return .error ((Fail.noMatch start).reached m.stop)
    | none => return .error ((Fail.noMatch start).reached m.stop)

/-! ## Alternatives -/

/-- The first of the alternatives that matches; `best` is the failure to report so far. -/
def choiceFrom (start : Cursor) : List (Rule υ σ) → Option Fail → Plan υ σ (Step υ)
  | [], best => return .error ((best.map (·.reportedAt start)).getD (.noMatch start))
  | alternative :: alternatives, best => do
    match ← alternative start with
    | .ok m => return .ok m
    | .error f =>
      if f.isFatal then return .error f
      else choiceFrom start alternatives (some ((best.map (·.deeper f)).getD f))

/-- The first of the alternatives that matches; if none does, the failure that got furthest. -/
def choice (alternatives : List (Rule υ σ)) : Rule υ σ := fun start =>
  choiceFrom start alternatives none

/-- `a`, unless `b` matches at least as far. -/
def butnot (a b : Rule υ σ) : Rule υ σ := fun start => do
  match ← a start with
  | .error f => return .error f
  | .ok ma =>
    match ← b start with
    | .ok mb =>
      if ma.stop ≤ mb.stop then return .error ((Fail.noMatch start).reached ma.stop)
      else return .ok ma
    | .error f => if f.isFatal then return .error f else return .ok ma

/-- `a`, unless `b` matches. -/
def difference (a b : Rule υ σ) : Rule υ σ := fun start => do
  match ← a start with
  | .error f => return .error f
  | .ok ma =>
    match ← b start with
    | .ok _ => return .error ((Fail.noMatch start).reached ma.stop)
    | .error f => if f.isFatal then return .error f else return .ok ma

/-- The one that matches, if exactly one does. -/
def xor (a b : Rule υ σ) : Rule υ σ := fun start => do
  match ← a start with
  | .ok ma =>
    match ← b start with
    | .ok mb => return .error ((Fail.noMatch start).reached (max ma.stop mb.stop))
    | .error g => if g.isFatal then return .error g else return .ok ma
  | .error f =>
    if f.isFatal then return .error f
    else match ← b start with
      | .ok mb => return .ok mb
      | .error g =>
        if g.isFatal then return .error g else return .error ((f.deeper g).reportedAt start)

/-! ## Repetition -/

/-- Goes on with `next` as long as it matches and consumes something; `room` is the number of bits
left, so it bounds the number of times. -/
def continueFrom (next : Rule υ σ) (room : Nat) (cursor : Cursor) (values : Array (Value υ)) :
    Plan υ σ (Step υ) := do
  match ← next cursor with
  | .error f =>
    if f.isFatal then return .error f else return .ok (.of cursor (.sequence values.toList))
  | .ok m =>
    let values := m.collect values
    if cursor < m.stop then
      match room with
      | 0 => return .ok (.of m.stop (.sequence values.toList))
      | room + 1 => continueFrom next room m.stop values
    else return .ok (.of m.stop (.sequence values.toList))

/-- One more turn of a repetition: it stops, or goes on as long as there is room. -/
theorem continueFrom_eq (next : Rule υ σ) (room : Nat) (cursor : Cursor)
    (values : Array (Value υ)) :
    continueFrom next room cursor values = (next cursor).bind fun
      | .error f =>
        if f.isFatal then .done (.error f) else .done (.ok (.of cursor (.sequence values.toList)))
      | .ok m =>
        if cursor < m.stop then
          match room with
          | 0 => .done (.ok (.of m.stop (.sequence (m.collect values).toList)))
          | room + 1 => continueFrom next room m.stop (m.collect values)
        else .done (.ok (.of m.stop (.sequence (m.collect values).toList))) := by
  cases room <;> rw [continueFrom] <;> rfl

/-- `first` and then `next` as often as it matches. Without a `first` the list is empty, or the
match fails when one is needed. -/
def repeated (first next : Rule υ σ) (needed : Bool) : Rule υ σ := fun start => do
  match ← first start with
  | .error f =>
    if f.isFatal then return .error f
    else if needed then return .error (f.reportedAt start)
    else return .ok (.of start (.sequence []))
  | .ok m =>
    let values := m.collect #[]
    if start < m.stop then
      let room := (← Plan.limit).bitPosition - m.stop.bitPosition
      continueFrom next room m.stop values
    else return .ok (.of m.stop (.sequence values.toList))

/-- A separator and an item; a failure of either is left as it is. -/
def separated (item sep : Rule υ σ) : Rule υ σ := fun start => do
  match ← sep start with
  | .ok m => item m.stop
  | .error f => return .error f

/-- The item as often as it matches. -/
def many (item : Rule υ σ) : Rule υ σ := repeated item item false

/-- The item as often as it matches, at least once. -/
def many1 (item : Rule υ σ) : Rule υ σ := repeated item item true

/-- Items with separators between them; a separator without an item behind it is not consumed. -/
def sepBy (item sep : Rule υ σ) : Rule υ σ := repeated item (separated item sep) false

/-- Items with separators between them, at least one. -/
def sepBy1 (item sep : Rule υ σ) : Rule υ σ := repeated item (separated item sep) true

/-- `count` more items; the failure of an item is reported where it should start. -/
def repeatFrom (item : Rule υ σ) :
    (count : Nat) → Cursor → Array (Value υ) → Plan υ σ (Step υ)
  | 0, cursor, values => return .ok (.of cursor (.sequence values.toList))
  | count + 1, cursor, values =>
    andThen cursor item cursor fun m => repeatFrom item count m.stop (m.collect values)

/-- The item exactly `count` times. -/
def repeatN (item : Rule υ σ) (count : Nat) : Rule υ σ := fun start =>
  repeatFrom item count start #[]

/-- The item, or the empty match with an empty value. -/
def optional (inner : Rule υ σ) : Rule υ σ := fun start => do
  match ← inner start with
  | .ok m => return .ok m
  | .error f => if f.isFatal then return .error f else return .ok (.of start .none)

/-! ## Lookahead -/

/-- Matches without consuming anything where `inner` matches. -/
def and (inner : Rule υ σ) : Rule υ σ := fun start => do
  return (← inner start).map fun _ => .absent start

/-- Matches without consuming anything where `inner` does not match. -/
def not (inner : Rule υ σ) : Rule υ σ := fun start => do
  match ← inner start with
  | .ok m => return .error ((Fail.noMatch start).reached m.stop)
  | .error f => if f.isFatal then return .error f else return .ok (.absent start)

/-! ## Windows -/

/-- The end of the window that a matched byte count opens, if it lies within `limit`. -/
def windowEnd? (length : Match υ) (limit : Cursor) : Option Cursor := do
  let count ← length.value.bind Value.word?
  let stop ← length.stop.advanceBytes? count
  guard (stop ≤ limit)
  return stop

/-- A byte count and a value that fills exactly so many bytes; the value's rule depends on where its
window ends. -/
def lengthValue (length : Rule υ σ) (value : Cursor → Rule υ σ) : Rule υ σ := fun start =>
  andThen start length start fun ml => do
    match windowEnd? ml (← Plan.limit) with
    | none => return .error ((Fail.noMatch start).reached ml.stop)
    | some stop =>
      andThen start (value stop) ml.stop fun mv =>
        if mv.stop = stop then return .ok mv
        else return .error ((Fail.noMatch start).reached mv.stop)

/-! ## Callbacks -/

/-- The failure of a match that a callback refused. -/
def refused (start : Cursor) (m : Match υ) (e : CallbackError) : Step υ :=
  .error ((Fail.here (.callback e.message) start).reached m.stop)

/-- Replaces the value of a match by what an action makes of it. -/
def action (inner : Rule υ σ) (act : Action υ σ) : Rule υ σ := fun start => do
  match ← inner start with
  | .error f => return .error f
  | .ok m => .call .action act start m fun
    | .ok v => return .ok (.of m.stop v)
    | .error e => return refused start m e

/-- Keeps a match whose value a predicate accepts. -/
def satisfying (inner : Rule υ σ) (accepts : Predicate υ σ) : Rule υ σ := fun start => do
  match ← inner start with
  | .error f => return .error f
  | .ok m => .call .predicate accepts start m fun
    | .ok true => return .ok m
    | .ok false => return .error ((Fail.noMatch start).reached m.stop)
    | .error e => return refused start m e

end Packrat.Rule
