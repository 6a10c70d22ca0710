import Mathlib.Data.List.Perm.Subperm
import Mathlib.Logic.Relation
import Packrat.Proofs.Builder.Integers

/-!
# Proofs/Builder/Sources — the integer check looks at all that a value may come from

`Node.Carries` says which children a combinator hands the value of on, and `Builder.Carries` follows
a bound slot to its target besides. An entry *spoils* (`Builder.Spoils`) if no value that it hands on
is known to be an integer: an unbound placeholder, or a combinator of another kind than
`Node.integerKinds`. Main statement: `producesInteger_iff_reaches`. An entry is found to give
integers just if no entry spoils that its value may come from, over however many steps and in spite
of all cycles.
-/

namespace Packrat

variable {ρ υ σ : Type}

/-! ## Where a value comes from -/

/-- The value of a combinator may be that of the child. -/
inductive Node.Carries : Node ρ υ σ → ρ → Prop where
  | whitespace (p : ρ) : Carries (.whitespace p) p
  | satisfying (p : ρ) (accepts : Predicate υ σ) : Carries (.satisfying p accepts) p
  | left (a b : ρ) : Carries (.left a b) a
  | right (a b : ρ) : Carries (.right a b) b
  | middle (a b c : ρ) : Carries (.middle a b c) b
  | butnot (a b : ρ) : Carries (.butnot a b) a
  | difference (a b : ρ) : Carries (.difference a b) a
  | xorFirst (a b : ρ) : Carries (.xor a b) a
  | xorSecond (a b : ρ) : Carries (.xor a b) b
  | choice {ps : List ρ} {p : ρ} (h : p ∈ ps) : Carries (.choice ps) p
  | lengthValue (length value : ρ) : Carries (.lengthValue length value) value

/-- The kinds of combinators that read an integer or hand one on. -/
def Node.integerKinds : List String :=
  ["bits", "ch", "ch_range", "charset_in", "int_range", "whitespace", "attr_bool", "left", "right",
    "middle", "butnot", "difference", "xor", "choice", "length_value"]

/-- The combinators of these kinds have carriers, and no others. -/
theorem Node.isSome_carriers {node : Node ρ υ σ} :
    node.carriers.isSome ↔ node.kind ∈ integerKinds := by
  cases node <;> simp [carriers, kind, integerKinds]

/-- The carriers are those that the value may come from. -/
theorem Node.mem_carriers {node : Node ρ υ σ} {sources : List ρ} {p : ρ}
    (h : node.carriers = some sources) : p ∈ sources ↔ node.Carries p := by
  constructor
  · intro hp
    cases node with
    | choice ps =>
      cases h
      exact .choice hp
    | xor a b =>
      cases h
      obtain rfl | hp := List.mem_cons.1 hp
      · exact .xorFirst ..
      · obtain rfl := List.mem_singleton.1 hp
        exact .xorSecond ..
    | _ =>
      cases h <;> simp only [List.mem_singleton, List.not_mem_nil] at hp
      all_goals
        subst hp
        constructor
  · intro hp
    cases hp with
    | choice hp =>
      cases h
      exact hp
    | _ =>
      cases h
      simp

theorem Node.Carries.mem_children {node : Node ρ υ σ} {p : ρ} (h : node.Carries p) :
    p ∈ node.children := by
  cases h with
  | choice hp => exact hp
  | _ => simp [children]

namespace Builder

/-- The value of an entry may be that of another one. -/
inductive Carries (b : Builder υ σ) : Nat → Nat → Prop where
  | child {i c : Nat} {node} (h : b.entries[i]? = some (.node node)) (hcarries : node.Carries c) :
      Carries b i c
  | target {i c : Nat} {slot} (h : b.entries[i]? = some (.indirect slot))
      (hbound : b.slotTarget? slot = some (b.handle c)) : Carries b i c

/-- No value that the entry hands on is known to be an integer. -/
inductive Spoils (b : Builder υ σ) : Nat → Prop where
  | kind {i : Nat} {node} (h : b.entries[i]? = some (.node node))
      (hkind : node.kind ∉ Node.integerKinds) : Spoils b i
  | unbound {i : Nat} {slot} (h : b.entries[i]? = some (.indirect slot))
      (hfree : b.slotTarget? slot = none) : Spoils b i

variable {b : Builder υ σ} {i c : Nat} {e : Entry υ σ} {sources : List Nat}

theorem slotTarget?_eq_some {slot : Slot} :
    b.slotTarget? slot = some (b.handle c) ↔ b.targets[slot.index]? = some (some c) := by
  rw [slotTarget?, Option.map_eq_some_iff]
  simp [getD_none_eq_some, handle]

theorem slotTarget?_eq_none {slot : Slot} :
    b.slotTarget? slot = none ↔ b.carriers (.indirect slot) = none := by
  rw [slotTarget?, carriers, Option.map_eq_none_iff, Option.map_eq_none_iff]

theorem spoils_iff (he : b.entries[i]? = some e) : b.Spoils i ↔ b.carriers e = none := by
  constructor
  · rintro (⟨h, hkind⟩ | ⟨h, hfree⟩)
    · obtain rfl := Option.some.inj (he.symm.trans h)
      exact Option.not_isSome_iff_eq_none.1 (mt Node.isSome_carriers.1 hkind)
    · obtain rfl := Option.some.inj (he.symm.trans h)
      exact slotTarget?_eq_none.1 hfree
  · intro hnone
    cases e with
    | node node =>
      exact .kind he (mt Node.isSome_carriers.2 (Option.not_isSome_iff_eq_none.2 hnone))
    | indirect slot => exact .unbound he (slotTarget?_eq_none.2 hnone)

theorem mem_carriers (he : b.entries[i]? = some e) (hsources : b.carriers e = some sources) :
    c ∈ sources ↔ b.Carries i c := by
  constructor
  · intro hc
    cases e with
    | node node => exact .child he ((Node.mem_carriers hsources).1 hc)
    | indirect slot =>
      obtain ⟨t, ht, rfl⟩ := carriers_indirect.1 hsources
      obtain rfl := List.mem_singleton.1 hc
      exact .target he (slotTarget?_eq_some.2 ht)
  · rintro (⟨h, hcarries⟩ | ⟨h, hbound⟩)
    · obtain rfl := Option.some.inj (he.symm.trans h)
      exact (Node.mem_carriers hsources).2 hcarries
    · obtain rfl := Option.some.inj (he.symm.trans h)
      obtain ⟨t, ht, rfl⟩ := carriers_indirect.1 hsources
      obtain rfl := Option.some.inj (Option.some.inj (ht.symm.trans (slotTarget?_eq_some.1 hbound)))
      exact List.mem_singleton_self _

/-- Values come from entries. -/
theorem Carries.lt_size (h : b.Carries i c) : c < b.entries.size := by
  cases h with
  | child h hcarries =>
    have hc := child_lt_of_getElem? h c hcarries.mem_children
    exact Nat.lt_trans hc (Array.getElem?_eq_some_iff.1 h).1
  | target _ hbound =>
    exact b.target_lt c (Array.mem_of_getElem? (slotTarget?_eq_some.1 hbound))

theorem Carries.entry_lt_size (h : b.Carries i c) : i < b.entries.size := by
  cases h with
  | child h _ => exact (Array.getElem?_eq_some_iff.1 h).1
  | target h _ => exact (Array.getElem?_eq_some_iff.1 h).1

/-! ## All ways -/

/-- **The integer check is exact.** Letting pass what is met again on the way hides nothing: what
spoils and may be reached at all may be reached on a way without cycles. -/
theorem producesInteger_iff (hi : i < b.entries.size) : b.producesInteger i = true ↔
    ∀ j, Relation.ReflTransGen b.Carries i j → ¬b.Spoils j := by
  constructor
  · intro h j hreach
    have hj : b.producesInteger j = true := by
      induction hreach with
      | refl => exact h
      | tail _ hcarries ih =>
        obtain ⟨e, sources, he, hsources, hrest⟩ := b.integral_producesInteger _ ih
        exact hrest _ ((mem_carriers he hsources).2 hcarries)
    obtain ⟨e, sources, he, hsources, -⟩ := b.integral_producesInteger j hj
    rw [spoils_iff he, hsources]
    exact Option.some_ne_none sources
  · intro h
    have hintegral : b.Integral fun i => i < b.entries.size
        ∧ ∀ j, Relation.ReflTransGen b.Carries i j → ¬b.Spoils j := by
      rintro i ⟨hi, h⟩
      have he := Array.getElem?_eq_getElem hi
      have hfine := h i .refl
      rw [spoils_iff he, ← ne_eq, Option.ne_none_iff_exists'] at hfine
      obtain ⟨sources, hsources⟩ := hfine
      refine ⟨_, sources, he, hsources, fun c hc => ?_⟩
      have hcarries := (mem_carriers he hsources).1 hc
      exact ⟨hcarries.lt_size, fun j hj => h j (.head hcarries hj)⟩
    exact hintegral.producesInteger ⟨hi, h⟩

/-- One examination asks for another: that of an entry off the way whose value may be wanted, with
the entry that asks on the way. -/
inductive Asks (b : Builder υ σ) : List Nat × Nat → List Nat × Nat → Prop where
  | of {visiting : List Nat} {i c : Nat} (hnew : i ∉ visiting) (hcarries : b.Carries i c) :
      Asks b (visiting, i) (i :: visiting, c)

/-- **Examinations are nested no deeper than there are entries.** Those on the way are different
entries. -/
theorem length_le_of_asks {visiting : List Nat} {asked : List (List Nat × Nat)}
    (hnodup : visiting.Nodup) (hlt : ∀ j ∈ visiting, j < b.entries.size)
    (h : ((visiting, i) :: asked).IsChain b.Asks) :
    visiting.length + asked.length ≤ b.entries.size := by
  induction asked generalizing visiting i with
  | nil =>
    have hsub : visiting ⊆ List.range b.entries.size := fun j hj => List.mem_range.2 (hlt j hj)
    simpa using (List.subperm_of_subset hnodup hsub).length_le
  | cons next asked ih =>
    obtain ⟨hask, hrest⟩ := List.isChain_cons_cons.1 h
    cases hask with
    | of hnew hcarries =>
      have hmore := ih (List.nodup_cons.2 ⟨hnew, hnodup⟩)
        (List.forall_mem_cons.2 ⟨hcarries.entry_lt_size, hlt⟩) hrest
      rw [List.length_cons] at hmore ⊢
      omega

/-- **The integer check decides what a value may come from.** Whatever was called on the builder
before, cycles and unbound slots included: examinations are nested no deeper than there are entries,
an entry is found to give integers just if nothing spoils that its value may come from, and a verdict
that it does stays, whatever is called afterwards. -/
theorem producesInteger_iff_reaches (b : Builder υ σ) {handle : Handle} (howns : b.Owns handle) :
    (∀ asked, (([], handle.index) :: asked).IsChain b.Asks → asked.length ≤ b.size)
      ∧ (b.producesInteger handle.index = true ↔
          ∀ i, Relation.ReflTransGen b.Carries handle.index i → ¬b.Spoils i)
      ∧ (b.producesInteger handle.index = true →
          ∀ calls, (b.performAll calls).2.producesInteger handle.index = true) := by
  refine ⟨fun asked h => ?_, producesInteger_iff howns.2,
    fun h calls => (b.extends_performAll calls).producesInteger h⟩
  simpa [size] using length_le_of_asks List.nodup_nil (fun _ hj => absurd hj List.not_mem_nil) h

/-- Calls on builder 0. Entries 0, 1 and 2 stand for slots. The first is bound to entry 4, a byte or
the first slot again; the second to itself; the third to nothing. Entry 6 hands on the value of the
cycle, entry 7 that of the cycle or of the third slot. -/
def looped : List (Call Unit Unit) :=
  [.indirect, .indirect, .indirect, .add (.byte 97), .add (.choice [⟨0, 3⟩, ⟨0, 0⟩]),
    .bind ⟨0, 0⟩ ⟨0, 4⟩, .bind ⟨0, 1⟩ ⟨0, 1⟩, .add .atEnd, .add (.left ⟨0, 0⟩ ⟨0, 5⟩),
    .add (.xor ⟨0, 6⟩ ⟨0, 2⟩)]

theorem producesInteger_iff_reaches_looped :
    let b := ((new 0).performAll looped).2
    b.Owns ⟨0, 6⟩ ∧ b.Owns ⟨0, 7⟩ ∧ b.Owns ⟨0, 1⟩
      ∧ (∀ asked, (([], 7) :: asked).IsChain b.Asks → asked.length ≤ 8)
      ∧ (∀ i, Relation.ReflTransGen b.Carries 6 i → ¬b.Spoils i)
      ∧ (∀ i, Relation.ReflTransGen b.Carries 1 i → ¬b.Spoils i)
      ∧ (∃ i, Relation.ReflTransGen b.Carries 7 i ∧ b.Spoils i)
      ∧ ∀ calls, (b.performAll calls).2.producesInteger 6 = true := by
  intro b
  have hcycle : b.Owns ⟨0, 6⟩ := by decide
  have hmixed : b.Owns ⟨0, 7⟩ := by decide
  have hself : b.Owns ⟨0, 1⟩ := by decide
  obtain ⟨-, hcycleIff, hstays⟩ := producesInteger_iff_reaches b hcycle
  obtain ⟨hnested, hmixedIff, -⟩ := producesInteger_iff_reaches b hmixed
  obtain ⟨-, hselfIff, -⟩ := producesInteger_iff_reaches b hself
  have hfine : b.producesInteger 6 = true := by decide
  have hspoilt : ¬b.producesInteger 7 = true := by decide
  have hsome := (not_congr hmixedIff).1 hspoilt
  simp only [not_forall, not_not, exists_prop] at hsome
  exact ⟨hcycle, hmixed, hself, hnested, hcycleIff.1 hfine, hselfIff.1 (by decide), hsome,
    hstays hfine⟩

end Builder

end Packrat
