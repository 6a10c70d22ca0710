import Packrat.Rule.Combinator
import Packrat.Grammar

/-!
# Engine — running a grammar on an input

`Node.rule` gives every combinator its rule, and `Plan.run` carries a plan out with matchers for the
children. `Grammar.matcher` gives every entry of a grammar its matcher. Two numbers bound it, and
both go down: `height` as it passes from a node to its children, which stand at smaller positions,
and `budget` as it follows a slot. A combinator goes through `Matcher.remembered`, which counts,
traces and remembers; a placeholder goes through `Matcher.follow`, which turns into a fatal
failure both the slot that is entered again where it stands and the slot that is entered too deep.
-/

namespace Packrat

namespace Node

variable {υ σ : Type}

/-- The rule of a combinator. -/
def rule (input : Input) : Node Nat υ σ → Rule υ σ
  | token bytes => .token input bytes
  | byte b => .byteIf input (· == b)
  | byteRange low high => .byteIf input fun b => low ≤ b && b ≤ high
  | byteIn set => .byteIf input set.contains
  | bits width signed => .bits input width signed
  | atEnd => .atEnd
  | never => .never
  | empty => .empty
  | intRange base low high => .intRange (.child base) low high
  | whitespace p => .whitespace input (.child p)
  | left a b => .left (.child a) (.child b)
  | right a b => .right (.child a) (.child b)
  | middle a b c => .middle (.child a) (.child b) (.child c)
  | sequence ps => .sequence (ps.map .child)
  | choice ps => .choice (ps.map .child)
  | butnot a b => .butnot (.child a) (.child b)
  | difference a b => .difference (.child a) (.child b)
  | xor a b => .xor (.child a) (.child b)
  | many p => .many (.child p)
  | many1 p => .many1 (.child p)
  | repeatN p count => .repeatN (.child p) count
  | optional p => .optional (.child p)
  | ignore p => .ignore (.child p)
  | sepBy item sep => .sepBy (.child item) (.child sep)
  | sepBy1 item sep => .sepBy1 (.child item) (.child sep)
  | lengthValue length value => .lengthValue (.child length) (.childWithin value)
  | and p => .and (.child p)
  | not p => .not (.child p)
  | action p act => .action (.child p) act
  | satisfying p accepts => .satisfying (.child p) accepts

end Node

namespace Matcher

variable {υ σ : Type}

/-- Never matches. -/
def never : Matcher υ σ := fun start => pure (.error (.noMatch start))

/-! ## Carrying out plans -/

/-- Runs a matcher with the window narrowed to end at `stop`. -/
def within (stop : Cursor) (inner : Matcher υ σ) : Matcher υ σ := fun start => do
  let outer := (← get).limit
  modify (·.withLimit stop)
  let step ← inner start
  modify (·.withLimit outer)
  return step

/-- Runs a matcher in the window, or in the narrower one that is given. -/
def inWindow : Option Cursor → Matcher υ σ → Matcher υ σ
  | none, inner => inner
  | some stop, inner => within stop inner

/-- Calls a callback of a node on the value of a match, and notes whether it refuses. -/
def call {α : Type} (node : Nat) (kind : CallbackKind) (callback : Callback υ σ α) (start : Cursor)
    (m : Match υ) : RunM υ σ (Except CallbackError α) := do
  modify fun run => run.note (.called ⟨node, start, run.limit⟩)
  let answer ← modifyGet fun run =>
    let (answer, host) := callback m.shown run.host
    (answer, { run with host })
  if let .error e := answer then modify (·.note (.rejected kind start e.message))
  return answer

end Matcher

namespace Plan

variable {υ σ α : Type}

/-- Carries out a plan of the node at `self`, with matchers for its children. -/
def run (self : Nat) (child : Nat → Matcher υ σ) : Plan υ σ α → RunM υ σ α
  | done answer => pure answer
  | look next => do (next (← get).limit).run self child
  | apply window index start next => do
    (next (← Matcher.inWindow window (child index) start)).run self child
  | call kind callback start m next => do
    (next (← Matcher.call self kind callback start m)).run self child

end Plan

namespace Matcher

variable {υ σ : Type}

/-! ## Remembering -/

/-- Matches a node afresh. -/
def evaluated (node : Nat) (inner : Matcher υ σ) : Matcher υ σ := fun start => do
  let site : Site := ⟨node, start, (← get).limit⟩
  modify (·.note (.evaluated site))
  let step ← inner start
  modify (·.note (.settled site step))
  return step

/-- Matches a node, once for each place if `memoize` is set. -/
def remembered (memoize : Bool) (node : Nat) (inner : Matcher υ σ) : Matcher υ σ := fun start => do
  if memoize then
    let site : Site := ⟨node, start, (← get).limit⟩
    match (← get).memo[site]? with
    | some step =>
      modify (·.note (.recalled site step))
      return step
    | none =>
      let step ← evaluated node inner start
      modify (·.remember site step)
      return step
  else evaluated node inner start

/-! ## Following slots -/

/-- Enters the target of a slot and leaves it again. -/
def entered (slot : Slot) (target : Nat) (inner : Matcher υ σ) : Matcher υ σ := fun start => do
  let site : Site := ⟨target, start, (← get).limit⟩
  modify (·.enter slot site)
  let step ← inner start
  modify (·.leave site)
  return step

/-- Follows a slot to its target. It fails for good when the target is being followed at this very
place, or else when no matcher is given because `bound` slots are entered already. -/
def follow (bound : Nat) (slot : Slot) (target : Nat) (inner : Option (Matcher υ σ)) :
    Matcher υ σ := fun start => do
  let run ← get
  let site : Site := ⟨target, start, run.limit⟩
  if site ∈ run.active then
    modify (·.note (.leftRecursion slot site))
    return .error (.here (.leftRecursion slot) start)
  else match inner with
    | some inner => entered slot target inner start
    | none =>
      modify (·.note (.depthExceeded bound site))
      return .error (.here (.recursionLimit bound) start)

end Matcher

namespace Grammar

variable {υ σ : Type}

/-- The matcher of the entry at `index`, for entries below `height`; `slotMatcher` follows slots. -/
def matcherBelow (g : Grammar υ σ) (memoize : Bool) (input : Input)
    (slotMatcher : Slot → Matcher υ σ) : (height : Nat) → (index : Nat) → Matcher υ σ
  | 0, _ => .never
  | height + 1, index =>
    match g.entries[index]? with
    | some (.node node) =>
      .remembered memoize index fun start =>
        (node.rule input start).run index (g.matcherBelow memoize input slotMatcher height)
    | some (.indirect slot) => slotMatcher slot
    | none => .never

/-- Follows a slot of the grammar; `matcher` gives targets their matchers, unless `bound` slots are
entered already. -/
def followSlot (g : Grammar υ σ) (bound : Nat) (matcher : Option (Nat → Matcher υ σ))
    (slot : Slot) : Matcher υ σ :=
  match g.targets[slot.index]? with
  | some target => .follow bound slot target (matcher.map (· target))
  | none => .never

/-- The matcher of the entry at `index`, with `budget` more slots to enter. -/
def matcher (g : Grammar υ σ) (config : Config) (input : Input) :
    (budget : Nat) → (index : Nat) → Matcher υ σ
  | 0 =>
    g.matcherBelow config.memoize input (g.followSlot config.maxRecursionDepth none) g.entries.size
  | budget + 1 =>
    g.matcherBelow config.memoize input
      (g.followSlot config.maxRecursionDepth (some (g.matcher config input budget))) g.entries.size

end Grammar

/-! ## Runs -/

/-- What is known after a run. -/
structure Report (υ σ : Type) where
  /-- The entry that was matched. -/
  root : Handle
  /-- Size of the input. -/
  inputSize : Nat
  result : Result υ
  stats : Stats
  /-- All that happened. -/
  trace : Array (Event υ)
  /-- The callbacks' state afterwards. -/
  host : σ

namespace Grammar

variable {υ σ : Type}

/-- Matches an entry at the start of an input, the window being the whole of it. -/
def run (g : Grammar υ σ) (config : Config) (root : Handle) (input : Input) (host : σ) :
    Except GrammarError (Report υ σ) :=
  if g.Owns root then
    let (step, run) :=
      (g.matcher config input config.maxRecursionDepth root.index .start).run
        { limit := input.stop, host }
    .ok {
      root
      inputSize := input.bytes.size
      result := .ofStep step
      stats := { run.stats with cacheEntries := run.memo.size }
      trace := run.trace
      host := run.host }
  else .error (.foreignParser root)

end Grammar

end Packrat
