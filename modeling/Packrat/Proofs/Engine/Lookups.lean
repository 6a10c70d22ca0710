import Packrat.Proofs.Engine.Recursion

/-!
# Proofs/Engine/Lookups — no look-up misses

A run looks up entries by position and targets by slot. `Grammar.matcherOr trap` is the engine in
which a look-up that misses goes on with `trap`, whatever that does to the run; the engine proper
has one trap built in, the matcher that never matches. In a grammar the trap is of no account
(`matcherOr_eq`): from an entry of the grammar only entries are looked up, and only slots that have
a target.
-/

namespace Packrat.Grammar

variable {υ σ : Type}

/-! ## The engine with a trap -/

/-- The matcher of the entry at `index`, for entries below `height`, with `trap` for all others. -/
def matcherBelowOr (trap : Matcher υ σ) (g : Grammar υ σ) (memoize : Bool) (input : Input)
    (slotMatcher : Slot → Matcher υ σ) : (height : Nat) → (index : Nat) → Matcher υ σ
  | 0, _ => trap
  | height + 1, index =>
    match g.entries[index]? with
    | some (.node node) =>
      .remembered memoize index fun start =>
        (node.rule input start).run index
          (matcherBelowOr trap g memoize input slotMatcher height)
    | some (.indirect slot) => slotMatcher slot
    | none => trap

/-- Follows a slot of the grammar, with `trap` for a slot that has no target. -/
def followSlotOr (trap : Matcher υ σ) (g : Grammar υ σ) (bound : Nat)
    (matcher : Option (Nat → Matcher υ σ)) (slot : Slot) : Matcher υ σ :=
  match g.targets[slot.index]? with
  | some target => .follow bound slot target (matcher.map (· target))
  | none => trap

/-- The matcher of the entry at `index`, with `budget` more slots to enter and `trap` for every
look-up that misses. -/
def matcherOr (trap : Matcher υ σ) (g : Grammar υ σ) (config : Config) (input : Input) :
    (budget : Nat) → (index : Nat) → Matcher υ σ
  | 0 =>
    matcherBelowOr trap g config.memoize input
      (followSlotOr trap g config.maxRecursionDepth none) g.entries.size
  | budget + 1 =>
    matcherBelowOr trap g config.memoize input
      (followSlotOr trap g config.maxRecursionDepth
        (some (matcherOr trap g config input budget))) g.entries.size

/-- Matches an entry at the start of an input, with `trap` for every look-up that misses. -/
def runOr (trap : Matcher υ σ) (g : Grammar υ σ) (config : Config) (root : Handle) (input : Input)
    (host : σ) : Except GrammarError (Report υ σ) :=
  if g.Owns root then
    let (step, run) :=
      (matcherOr trap g config input config.maxRecursionDepth root.index .start).run
        { limit := input.stop, host }
    .ok {
      root
      inputSize := input.bytes.size
      result := .ofStep step
      stats := { run.stats with cacheEntries := run.memo.size }
      trace := run.trace
      host := run.host }
  else .error (.foreignParser root)

/-! ## The trap is of no account -/

variable {g : Grammar υ σ} {trap : Matcher υ σ} {config : Config} {input : Input} {i : Nat}

theorem matcherBelowOr_eq {memoize : Bool} {slotMatcher slotMatcher' : Slot → Matcher υ σ}
    (hslot : ∀ slot target, g.targets[slot.index]? = some target →
      slotMatcher slot = slotMatcher' slot)
    {height : Nat} (hi : i < g.entries.size) (h : i < height) :
    matcherBelowOr trap g memoize input slotMatcher height i
      = g.matcherBelow memoize input slotMatcher' height i := by
  induction i using Nat.strongRecOn generalizing height with
  | ind i ih =>
    cases height with
    | zero => exact absurd h (Nat.not_lt_zero i)
    | succ height =>
      rw [matcherBelowOr, matcherBelow]
      obtain ⟨n, he⟩ | ⟨slot, target, he, ht⟩ := entry_cases hi
      · have hlt := child_lt_of_entry he
        rw [he]
        dsimp only
        congr 1
        funext start
        exact (n.strict_children input hlt start).run_congr fun c hc =>
          ih c hc (Nat.lt_trans hc hi) (by omega)
      · rw [he]
        exact hslot slot target ht

/-- **No look-up misses**: what a miss would do does not matter. -/
theorem matcherOr_eq (budget : Nat) (hi : i < g.entries.size) :
    matcherOr trap g config input budget i = g.matcher config input budget i := by
  induction budget generalizing i with
  | zero =>
    refine matcherBelowOr_eq (fun slot target ht => ?_) hi hi
    simp only [followSlotOr, followSlot, ht, Option.map_none]
  | succ budget ih =>
    refine matcherBelowOr_eq (fun slot target ht => ?_) hi hi
    simp only [followSlotOr, followSlot, ht, Option.map_some, ih (target_lt_size ht)]

/-- A run of a root that the grammar owns never misses. -/
theorem runOr_eq (trap : Matcher υ σ) (config : Config) {root : Handle} (hroot : g.Owns root)
    (input : Input) (host : σ) :
    runOr trap g config root input host = g.run config root input host := by
  rw [runOr, if_pos hroot, matcherOr_eq config.maxRecursionDepth hroot.2]
  exact (if_pos hroot).symm

end Packrat.Grammar
