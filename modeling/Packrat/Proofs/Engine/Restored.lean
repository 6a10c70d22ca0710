import Packrat.Proofs.Engine.Start

/-!
# Proofs/Engine/Restored — what every step puts back

Two things are changed around a part of a match: a byte count narrows the window, and a slot adds a
target to those being followed. A matcher *restores* a run (`Matcher.Restores`) if window, targets
and their number are afterwards as they were before, whatever it ends in. Narrowing a window around
such a matcher and following a slot to it give such matchers again, and all entries of a grammar
have them.

The targets being followed are kept as a list and mean a set: a target that is entered was not in
it, so that taking it out again takes out nothing else (`Run.Agrees.mem_active_iff`).

Main statement: `matcher_restores`.
-/

namespace Packrat

variable {υ σ : Type}

/-- What was followed before a target was entered is what is followed behind it, but for the target
itself. -/
theorem Run.Agrees.mem_active_iff {run run' : Run υ σ} {slot : Slot} {site other : Site}
    (h : (run.enter slot site).Agrees run') (hnew : site ∉ run.active) :
    other ∈ run.active ↔ other ∈ run'.active ∧ other ≠ site := by
  rw [h.active, Run.active_enter, List.mem_cons]
  constructor
  · exact fun hother => ⟨.inr hother, fun heq => hnew (heq ▸ hother)⟩
  · rintro ⟨hother | hother, hne⟩
    · exact absurd hother hne
    · exact hother

namespace Matcher

/-- The window, the targets being followed and their number are put back, whatever the outcome. -/
def Restores (m : Matcher υ σ) : Prop :=
  ∀ (start : Cursor) (run : Run υ σ), run.Agrees (m start run).2

variable {inner : Matcher υ σ}

/-- The outer window is put back, whatever was done in the narrower one. -/
theorem Restores.within (h : inner.Restores) (stop : Cursor) : (within stop inner).Restores :=
  fun start run =>
    let hinside := h start (run.withLimit stop)
    ⟨rfl, hinside.active, hinside.depth⟩

/-- The target is followed no more, whatever was done behind it. -/
theorem Restores.follow {inner? : Option (Matcher υ σ)} (h : ∀ m ∈ inner?, m.Restores)
    (bound : Nat) (slot : Slot) (target : Nat) : (follow bound slot target inner?).Restores := by
  intro start run
  by_cases ha : run.site target start ∈ run.active
  · rw [follow_of_mem ha]
    exact ⟨rfl, rfl, rfl⟩
  · cases inner? with
    | none =>
      rw [follow_none ha]
      exact ⟨rfl, rfl, rfl⟩
    | some m =>
      rw [follow_some ha]
      have hinside := h m rfl start (run.enter slot (run.site target start))
      refine ⟨hinside.limit, ?_, ?_⟩
      · rw [Run.active_leave, hinside.active, Run.active_enter, List.erase_cons_head]
      · rw [Run.depth_leave, hinside.depth, Run.depth_enter, Nat.add_sub_cancel]

end Matcher

namespace Grammar

theorem restores_matcher (g : Grammar υ σ) (config : Config) (input : Input) (budget : Nat)
    {i : Nat} (hi : i < g.entries.size) : (g.matcher config input budget i).Restores :=
  fun start run => (exec_matcher budget hi start run).agrees

/-- **Every step puts back what it changes.** In whatever state an entry is matched, and whatever
comes of it, be it a match, a failure of any kind or a callback that refuses or panics, the window,
the targets being followed and their number are the same afterwards. So are they when the window is
narrowed around the entry, which sees the narrower one to its end, and when a slot is followed to
the entry, whether it may be entered or not. No other target is lost when the entry's own is taken
out of the set of those being followed. -/
theorem matcher_restores (g : Grammar υ σ) (config : Config) (input : Input) (budget : Nat)
    {i : Nat} (hi : i < g.entries.size) (start : Cursor) (run : Run υ σ) :
    run.Agrees (g.matcher config input budget i start run).2
      ∧ (∀ stop, (g.matcher config input budget i start (run.withLimit stop)).2.limit = stop
        ∧ run.Agrees (Matcher.within stop (g.matcher config input budget i) start run).2)
      ∧ ∀ bound slot, run.Agrees (Matcher.follow bound slot i none start run).2
        ∧ run.Agrees (Matcher.follow bound slot i (some (g.matcher config input budget i)) start
          run).2
        ∧ (run.site i start ∉ run.active → ∀ other, other ∈ run.active ↔
          other ∈ (g.matcher config input budget i start
            (run.enter slot (run.site i start))).2.active ∧ other ≠ run.site i start) := by
  have hrestores := restores_matcher g config input budget hi
  refine ⟨hrestores start run, fun stop => ⟨?_, hrestores.within stop start run⟩,
    fun bound slot => ⟨?_, ?_, fun hnew other => ?_⟩⟩
  · exact (hrestores start (run.withLimit stop)).limit
  · exact Matcher.Restores.follow (fun m hm => by cases hm) bound slot i start run
  · refine Matcher.Restores.follow (fun m hm => ?_) bound slot i start run
    obtain rfl := Option.some.inj hm
    exact hrestores
  · exact (hrestores start (run.enter slot (run.site i start))).mem_active_iff hnew

/-- A state in which the target of another slot is being followed. -/
def following : Run Unit Unit :=
  { limit := .atByte 2, active := [⟨3, .start, .atByte 2⟩], depth := 1, host := () }

theorem matcher_restores_parens :
    4 < parens.entries.size ∧ following.site 4 .start ∉ following.active
    ∧ following.Agrees (parens.matcher {} ⟨#[0x28, 0x29]⟩ 1 4 .start following).2
    ∧ ∀ other, other ∈ following.active ↔
      other ∈ (parens.matcher {} ⟨#[0x28, 0x29]⟩ 1 4 .start
        (following.enter ⟨0⟩ (following.site 4 .start))).2.active
        ∧ other ≠ following.site 4 .start := by
  have hsize : 4 < parens.entries.size := by decide
  have hnew : following.site 4 .start ∉ following.active := by decide
  obtain ⟨hagrees, -, hfollow⟩ :=
    matcher_restores parens {} ⟨#[0x28, 0x29]⟩ 1 hsize .start following
  exact ⟨hsize, hnew, hagrees, (hfollow 1 ⟨0⟩).2.2 hnew⟩

end Grammar

end Packrat
