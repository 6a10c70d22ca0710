import Packrat.Proofs.Builder.Calls

/-!
# Proofs/Builder/Integers — what the integer check computes

`Builder.integerFrom` walks along the ways on which an entry's value may come, and lets an entry pass
that it meets again on the way. What it lets pass are the entries that lie in a set whose values come
from the set only, or from entries on the way (`IntegralBut`). An entry on the way that passes may be
put into the set itself (`IntegralBut.insert`), so nothing is lost by letting it pass: what is found
to give integers without any way leading there takes its values from what is found to give integers
(`integral_producesInteger`), and it is the largest such set (`Integral.producesInteger`). As a
builder only grows, an entry that is in it stays in it, whatever is called
(`Extends.producesInteger`), and in the finished grammar.
-/

namespace Packrat

variable {υ σ : Type}

namespace Builder

/-- The values of these entries come from these entries only, or are integers that an entry reads
itself. -/
def Integral (b : Builder υ σ) (sound : Nat → Prop) : Prop :=
  ∀ i, sound i → ∃ e sources, b.entries[i]? = some e ∧ b.carriers e = some sources
    ∧ ∀ c ∈ sources, sound c

variable {b b' : Builder υ σ} {visiting : List Nat} {i : Nat} {sound : Nat → Prop}

theorem carriers_indirect {slot : Slot} {sources : List Nat} :
    b.carriers (.indirect slot) = some sources ↔
      ∃ t, b.targets[slot.index]? = some (some t) ∧ sources = [t] := by
  rw [carriers, Option.map_eq_some_iff]
  exact exists_congr fun t => and_congr getD_none_eq_some eq_comm

/-! ## One examination -/

theorem integerFrom_of_mem (h : i ∈ visiting) : b.integerFrom visiting i = true := by
  rw [integerFrom, dif_pos h]

/-- Off the way, an entry is as good as those that its value may come from. -/
theorem integerFrom_iff (h : i ∉ visiting) : b.integerFrom visiting i = true ↔
    ∃ e sources, b.entries[i]? = some e ∧ b.carriers e = some sources
      ∧ ∀ c ∈ sources, b.integerFrom (i :: visiting) c = true := by
  rw [integerFrom, dif_neg h]
  by_cases hi : i < b.entries.size
  · rw [dif_pos hi, Array.getElem?_eq_getElem hi]
    cases hc : b.carriers b.entries[i] <;> simp [hc]
  · rw [dif_neg hi, Array.getElem?_eq_none (Nat.le_of_not_lt hi)]
    simp

/-- Induction along the ways of the examination: there are only so many entries to go. -/
theorem way_induction (b : Builder υ σ) {P : List Nat → Nat → Prop}
    (further : ∀ visiting i,
      (i ∉ visiting → i < b.entries.size → ∀ c, P (i :: visiting) c) → P visiting i)
    (visiting : List Nat) (i : Nat) : P visiting i :=
  further visiting i fun _ _ c => way_induction b further (i :: visiting) c
termination_by ((List.range b.entries.size).filter (· ∉ visiting)).length
decreasing_by exact unvisited_cons_lt ‹i < b.entries.size› ‹i ∉ visiting›

/-! ## Sets that are closed but for the way -/

/-- The values of these entries come from these entries only, except that nothing is asked of the
entries on the way. -/
def IntegralBut (b : Builder υ σ) (visiting : List Nat) (sound : Nat → Prop) : Prop :=
  ∀ i, sound i → i ∈ visiting ∨ ∃ e sources, b.entries[i]? = some e
    ∧ b.carriers e = some sources ∧ ∀ c ∈ sources, sound c

theorem Integral.but (h : b.Integral sound) : b.IntegralBut visiting sound :=
  fun i hi => .inr (h i hi)

theorem IntegralBut.integral (h : b.IntegralBut [] sound) : b.Integral sound :=
  fun i hi => (h i hi).resolve_left List.not_mem_nil

theorem IntegralBut.mono (h : b.IntegralBut visiting sound) (i : Nat) :
    b.IntegralBut (i :: visiting) sound :=
  fun j hj => (h j hj).imp_left (List.mem_cons_of_mem i)

/-- An entry on the way may be put into the set if its values come from the set. -/
theorem IntegralBut.insert (h : b.IntegralBut (i :: visiting) sound) {e : Entry υ σ}
    {sources : List Nat} (he : b.entries[i]? = some e) (hsources : b.carriers e = some sources)
    (hsound : ∀ c ∈ sources, sound c) : b.IntegralBut visiting fun j => j = i ∨ sound j := by
  have hi : ∃ e sources, b.entries[i]? = some e ∧ b.carriers e = some sources
      ∧ ∀ c ∈ sources, c = i ∨ sound c :=
    ⟨e, sources, he, hsources, fun c hc => .inr (hsound c hc)⟩
  rintro j (rfl | hj)
  · exact .inr hi
  · obtain hmem | ⟨e', sources', he', hsources', hsound'⟩ := h j hj
    · obtain rfl | hmem := List.mem_cons.1 hmem
      · exact .inr hi
      · exact .inl hmem
    · exact .inr ⟨e', sources', he', hsources', fun c hc => .inr (hsound' c hc)⟩

/-- What comes from itself only, but for the way, passes. -/
theorem IntegralBut.integerFrom (h : b.IntegralBut visiting sound) (hi : sound i) :
    b.integerFrom visiting i = true := by
  induction visiting, i using way_induction b with
  | further visiting i ih =>
    by_cases hmem : i ∈ visiting
    · exact integerFrom_of_mem hmem
    · obtain ⟨e, sources, he, hsources, hsound⟩ := (h i hi).resolve_left hmem
      have hlt : i < b.entries.size := (Array.getElem?_eq_some_iff.1 he).1
      exact (integerFrom_iff hmem).2
        ⟨e, sources, he, hsources, fun c hc => ih hmem hlt c (h.mono i) (hsound c hc)⟩

/-- What passes lies in a set that is closed but for the way. -/
theorem exists_integralBut (h : b.integerFrom visiting i = true) :
    ∃ sound, b.IntegralBut visiting sound ∧ sound i := by
  induction visiting, i using way_induction b with
  | further visiting i ih =>
    by_cases hmem : i ∈ visiting
    · exact ⟨(· ∈ visiting), fun _ hj => .inl hj, hmem⟩
    · obtain ⟨e, sources, he, hsources, hpass⟩ := (integerFrom_iff hmem).1 h
      have hlt : i < b.entries.size := (Array.getElem?_eq_some_iff.1 he).1
      -- The sets of all sources together are closed but for the way to them.
      have hunion : b.IntegralBut (i :: visiting)
          fun j => ∃ sound, b.IntegralBut (i :: visiting) sound ∧ sound j := by
        rintro j ⟨sound, hsound, hj⟩
        refine (hsound j hj).imp_right fun ⟨e, sources, he, hsources, hrest⟩ => ?_
        exact ⟨e, sources, he, hsources, fun c hc => ⟨sound, hsound, hrest c hc⟩⟩
      exact ⟨_, hunion.insert he hsources fun c hc => ih hmem hlt c (hpass c hc), .inl rfl⟩

/-! ## The verdict -/

/-- Whatever takes its values from itself only is found to give integers. -/
theorem Integral.producesInteger (h : b.Integral sound) (hi : sound i) :
    b.producesInteger i = true :=
  h.but.integerFrom hi

/-- **What is found to give integers takes its values from what is found to give integers.** -/
theorem integral_producesInteger (b : Builder υ σ) :
    b.Integral fun i => b.producesInteger i = true := by
  intro i hi
  obtain ⟨sound, hsound, hi⟩ := exists_integralBut hi
  obtain ⟨e, sources, he, hsources, hrest⟩ := hsound.integral i hi
  exact ⟨e, sources, he, hsources, fun c hc => hsound.integral.producesInteger (hrest c hc)⟩

/-- The entries stay such when the builder grows: a bound slot keeps its target. -/
theorem Integral.extends (h : b.Integral sound) (hext : b.Extends b') : b'.Integral sound := by
  intro i hi
  obtain ⟨e, sources, he, hsources, hsound⟩ := h i hi
  refine ⟨e, sources, hext.entry he, ?_, hsound⟩
  cases e with
  | node node => exact hsources
  | indirect slot =>
    obtain ⟨t, ht, rfl⟩ := carriers_indirect.1 hsources
    exact carriers_indirect.2 ⟨t, hext.target ht, rfl⟩

/-- **A verdict that an entry gives integers stays**, whatever is called. -/
theorem Extends.producesInteger (hext : b.Extends b') (h : b.producesInteger i = true) :
    b'.producesInteger i = true :=
  (b.integral_producesInteger.extends hext).producesInteger h

end Builder

end Packrat
