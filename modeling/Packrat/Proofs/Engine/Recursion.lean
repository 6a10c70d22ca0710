import Packrat.Proofs.Plan.Strict

/-!
# Proofs/Engine/Recursion — the engine as one recursion

`Grammar.matcher` recurs on a height and a budget, so that it is structural. Here it gets the
equations that one wants to use: the matcher of a combinator carries out its rule with the matchers
of its children (`matcher_node`), the matcher of a placeholder follows its slot
(`matcher_indirect`), and both hold for every entry. `entry_induction` is the induction that belongs
to them: a combinator may use its children, a placeholder its target with one slot less to enter.
-/

namespace Packrat.Grammar

variable {υ σ : Type} (g : Grammar υ σ)

/-! ## Looking at entries -/

variable {g} {i target : Nat} {n : Node Nat υ σ} {slot : Slot}

theorem lt_size_of_entry {e : Entry υ σ} (h : g.entries[i]? = some e) : i < g.entries.size :=
  (Array.getElem?_eq_some_iff.1 h).1

theorem child_lt_of_entry (h : g.entries[i]? = some (.node n)) : ∀ c ∈ n.children, c < i := by
  obtain ⟨hi, he⟩ := Array.getElem?_eq_some_iff.1 h
  intro c hc
  exact g.child_lt i hi c (by rw [he]; exact hc)

theorem child_lt_size (h : g.entries[i]? = some (.node n)) : ∀ c ∈ n.children, c < g.entries.size :=
  fun c hc => Nat.lt_trans (child_lt_of_entry h c hc) (lt_size_of_entry h)

theorem target_lt_size (h : g.targets[slot.index]? = some target) : target < g.entries.size :=
  g.target_lt target (Array.mem_of_getElem? h)

/-- A placeholder has a target. -/
theorem exists_target (h : g.entries[i]? = some (.indirect slot)) :
    ∃ target, g.targets[slot.index]? = some target := by
  obtain ⟨hi, he⟩ := Array.getElem?_eq_some_iff.1 h
  exact ⟨_, Array.getElem?_eq_getElem (g.slot_lt i hi slot he)⟩

/-- An entry below the size is a combinator, or a placeholder with a target. -/
theorem entry_cases (hi : i < g.entries.size) :
    (∃ n, g.entries[i]? = some (.node n)) ∨
      ∃ slot target, g.entries[i]? = some (.indirect slot) ∧
        g.targets[slot.index]? = some target := by
  obtain ⟨e, he⟩ : ∃ e, g.entries[i]? = some e := ⟨_, Array.getElem?_eq_getElem hi⟩
  cases e with
  | node n => exact .inl ⟨n, he⟩
  | indirect slot =>
    obtain ⟨target, ht⟩ := exists_target he
    exact .inr ⟨slot, target, he, ht⟩

/-! ## The equations of the engine -/

/-- Any height above an entry gives it the same matcher. -/
theorem matcherBelow_eq (memoize : Bool) (input : Input) (slotMatcher : Slot → Matcher υ σ)
    {height height' : Nat} (h : i < height) (h' : i < height') :
    g.matcherBelow memoize input slotMatcher height i
      = g.matcherBelow memoize input slotMatcher height' i := by
  induction i using Nat.strongRecOn generalizing height height' with
  | ind i ih =>
    cases height with
    | zero => exact absurd h (Nat.not_lt_zero i)
    | succ height =>
      cases height' with
      | zero => exact absurd h' (Nat.not_lt_zero i)
      | succ height' =>
        rw [matcherBelow, matcherBelow]
        split
        · next n he =>
          congr 1
          funext start
          exact (n.strict_children input (child_lt_of_entry he) start).run_congr
            fun c hc => ih c hc (by omega) (by omega)
        · rfl
        · rfl

variable (g) in
/-- The matcher of an entry behind a slot, if a slot may be entered. -/
def matcherInside? (config : Config) (input : Input) : Nat → Nat → Option (Matcher υ σ)
  | 0, _ => none
  | budget + 1, i => some (g.matcher config input budget i)

variable (config : Config) (input : Input) (budget : Nat)

/-- A combinator carries out its rule with the matchers of its children. -/
theorem matcher_node (h : g.entries[i]? = some (.node n)) :
    g.matcher config input budget i = .remembered config.memoize i fun start =>
      (n.rule input start).run i (g.matcher config input budget) := by
  have hi := lt_size_of_entry h
  have key : ∀ slotMatcher : Slot → Matcher υ σ,
      g.matcherBelow config.memoize input slotMatcher g.entries.size i
        = .remembered config.memoize i fun start => (n.rule input start).run i
          (g.matcherBelow config.memoize input slotMatcher g.entries.size) := by
    intro slotMatcher
    rw [matcherBelow_eq config.memoize input slotMatcher hi (Nat.lt_succ_of_lt hi), matcherBelow, h]
  cases budget with
  | zero => exact key _
  | succ budget => exact key _

/-- A placeholder follows its slot. -/
theorem matcher_indirect (h : g.entries[i]? = some (.indirect slot))
    (ht : g.targets[slot.index]? = some target) :
    g.matcher config input budget i = .follow config.maxRecursionDepth slot target
      (g.matcherInside? config input budget target) := by
  have hi := lt_size_of_entry h
  have key : ∀ slotMatcher : Slot → Matcher υ σ,
      g.matcherBelow config.memoize input slotMatcher g.entries.size i = slotMatcher slot := by
    intro slotMatcher
    rw [matcherBelow_eq config.memoize input slotMatcher hi (Nat.lt_succ_of_lt hi), matcherBelow, h]
  cases budget with
  | zero =>
    rw [matcher, key, followSlot, ht]
    rfl
  | succ budget =>
    rw [matcher, key, followSlot, ht]
    rfl

/-! ## The induction of the engine -/

/-- **What passes from children to combinators, and through a slot to a placeholder, holds of all
entries**, whatever the number of slots that may be entered. -/
@[elab_as_elim]
theorem entry_induction {motive : Nat → Nat → Prop}
    (node : ∀ budget i n, g.entries[i]? = some (.node n) →
      (∀ c ∈ n.children, motive budget c) → motive budget i)
    (indirect : ∀ budget i slot target, g.entries[i]? = some (.indirect slot) →
      g.targets[slot.index]? = some target →
        (∀ b, budget = b + 1 → motive b target) → motive budget i)
    (budget : Nat) {i : Nat} (hi : i < g.entries.size) : motive budget i := by
  -- A slot costs budget but may lead to any entry; a child is below and costs nothing.
  induction budget using Nat.strongRecOn generalizing i with
  | ind budget ihBudget =>
    induction i using Nat.strongRecOn with
    | ind i ihIndex =>
      obtain ⟨n, he⟩ | ⟨slot, target, he, ht⟩ := entry_cases hi
      · refine node budget i n he fun c hc => ?_
        exact ihIndex c (child_lt_of_entry he c hc) (child_lt_size he c hc)
      · refine indirect budget i slot target he ht fun b hb => ?_
        exact ihBudget b (by omega) (target_lt_size ht)

end Packrat.Grammar
