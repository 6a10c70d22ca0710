import Mathlib.Logic.Basic
import Packrat.Proofs.Builder.Calls

/-!
# Proofs/Builder/Slots — the life of a slot

A slot is placed by a call that makes its placeholder (`Builder.Places`), and bound by a call that
gives it its target (`Builder.Binds`), once. Both can be read off the calls and their answers, and
so can all that a builder tells about its slots: their targets are those they were bound to
(`slotTarget?_performAll`), and there are as many as were placed (`lt_size_performAll`).

Main statement: `performAll_slots`, which compares the three views that there are of the slots: what
the builder says of them, what finishing says, and what the finished grammar says.
-/

namespace Packrat

variable {υ σ : Type}

/-! ## What was done -/

/-- A call and its answer. -/
abbrev Deed (υ σ : Type) := Call υ σ × Except GrammarError Call.Answer

namespace Builder

/-- The calls, each with its answer. -/
def history (b : Builder υ σ) (calls : List (Call υ σ)) : List (Deed υ σ) :=
  calls.zip (b.performAll calls).1

/-- One of the calls made a placeholder for the slot. -/
def Places (b : Builder υ σ) (calls : List (Call υ σ)) (slot : Slot) : Prop :=
  ∃ placeholder, (.indirect, .ok (.made placeholder)) ∈ b.history calls
    ∧ (b.performAll calls).2.slotOf? placeholder = some slot

/-- One of the calls gave the slot its target. -/
def Binds (b : Builder υ σ) (calls : List (Call υ σ)) (slot : Slot) (target : Handle) : Prop :=
  ∃ placeholder, (.bind placeholder target, .ok .bound) ∈ b.history calls
    ∧ (b.performAll calls).2.slotOf? placeholder = some slot

variable {b b' : Builder υ σ} {call : Call υ σ} {calls : List (Call υ σ)}
  {answer : Except GrammarError Call.Answer} {slot : Slot} {placeholder target : Handle}

theorem history_cons : b.history (call :: calls)
    = (call, (b.perform call).1) :: (b.perform call).2.history calls := rfl

/-! ## Targets -/

/-- A fresh slot has no target, and the others keep theirs. -/
theorem slotTarget?_appendPlaceholder :
    b.appendPlaceholder.slotTarget? slot = b.slotTarget? slot := by
  have htarget : ((b.targets.push none)[slot.index]?).getD none
      = (b.targets[slot.index]?).getD none := by
    rw [Array.getElem?_push]
    split
    · next h => rw [h, Array.getElem?_size]; rfl
    · rfl
  exact congrArg (Option.map b.handle) htarget

theorem slotTarget?_bind {bound : Slot} {i : Nat} (hi : i < b.entries.size)
    (hbound : bound.index < b.targets.size) :
    (b.bind bound i hi).slotTarget? slot
      = if slot = bound then some (b.handle i) else b.slotTarget? slot := by
  have htarget : ((b.targets.setIfInBounds bound.index (some i))[slot.index]?).getD none
      = if slot = bound then some i else (b.targets[slot.index]?).getD none := by
    rw [Array.getElem?_setIfInBounds]
    by_cases h : slot = bound
    · subst h
      rw [if_pos rfl, if_pos rfl, if_pos hbound, Option.getD_some]
    · have hne : bound.index ≠ slot.index := fun heq => h (congrArg Slot.mk heq.symm)
      rw [if_neg hne, if_neg h]
  exact (congrArg (Option.map b.handle) htarget).trans (apply_ite _ _ _ _)

theorem handle_index (h : b.Owns target) : b.handle target.index = target :=
  congrArg (Handle.mk · target.index) h.1.symm

/-- **What a call does to the targets of slots**: only one that binds does anything. -/
theorem Performs.slotTarget?_iff (h : b.Performs call answer b') :
    b'.slotTarget? slot = some target ↔ b.slotTarget? slot = some target
      ∨ ∃ placeholder, (.bind placeholder target, .ok .bound) = (call, answer)
        ∧ b'.slotOf? placeholder = some slot := by
  cases h with
  | placed => simp [slotTarget?_appendPlaceholder]
  | @bound placeholder' target' slot' howns hslot htarget hfree =>
    have hlt := slot_lt_of_getElem? (slotOf?_eq_some.1 hslot).2
    have hcall : (∃ placeholder, ((.bind placeholder target, .ok .bound) : Deed υ σ)
          = (.bind placeholder' target', .ok .bound)
        ∧ (b.bind slot' target'.index htarget.2).slotOf? placeholder = some slot)
          ↔ target' = target ∧ slot = slot' := by
      constructor
      · rintro ⟨placeholder, heq, hplaceholder⟩
        cases heq
        exact ⟨rfl, Option.some.inj (hplaceholder.symm.trans hslot)⟩
      · rintro ⟨rfl, rfl⟩
        exact ⟨placeholder', rfl, hslot⟩
    rw [hcall, slotTarget?_bind htarget.2 hlt, handle_index htarget]
    by_cases heq : slot = slot'
    · have hnone : b.slotTarget? slot = none := heq ▸ Option.not_isSome_iff_eq_none.1 hfree
      simp [heq, heq ▸ hnone]
    · simp [heq]
  | added | refused | strange | notIndirect | strangeTarget | alreadyBound =>
    simp [append, slotTarget?, handle]

/-! ## The number of slots -/

/-- **What a call does to the number of slots**: only one that makes a placeholder does anything. -/
theorem Performs.lt_size_iff (h : b.Performs call answer b') :
    slot.index < b'.targets.size ↔ slot.index < b.targets.size
      ∨ ∃ placeholder, (.indirect, .ok (.made placeholder)) = (call, answer)
        ∧ b'.slotOf? placeholder = some slot := by
  cases h with
  | placed =>
    have hnew : b.appendPlaceholder.slotOf? (b.handle b.size) = some ⟨b.targets.size⟩ :=
      slotOf?_eq_some.2 ⟨⟨rfl, by simp [appendPlaceholder, handle, size]⟩, Array.getElem?_push_size⟩
    have hindex : slot.index = b.targets.size ↔ ⟨b.targets.size⟩ = slot :=
      ⟨fun h => congrArg Slot.mk h.symm, fun h => congrArg Slot.index h.symm⟩
    have hsize : b.appendPlaceholder.targets.size = b.targets.size + 1 := Array.size_push ..
    rw [hsize, Nat.lt_succ_iff_lt_or_eq, hindex]
    simp [hnew]
  | bound => simp [bind]
  | added | refused | strange | notIndirect | strangeTarget | alreadyBound => simp [append]

/-! ## Whole lists of calls -/

/-- Who makes a placeholder, or binds one, has it. -/
theorem Performs.owns (h : b.Performs call answer b')
    (hcall : (.indirect, .ok (.made placeholder)) = (call, answer)
      ∨ ∃ target, (.bind placeholder target, .ok .bound) = (call, answer)) :
    b'.Owns placeholder := by
  obtain hcall | ⟨target, hcall⟩ := hcall
  · obtain ⟨rfl, rfl⟩ := Prod.mk.inj hcall
    cases h with
    | placed => exact ⟨rfl, by simp [appendPlaceholder, handle, size]⟩
  · obtain ⟨rfl, rfl⟩ := Prod.mk.inj hcall
    cases h with
    | bound howns => exact howns

/-- What was done to the placeholder of a slot was done by the first call or by one of the others. -/
theorem exists_history_cons {deed : Handle → Deed υ σ}
    (howns : ∀ placeholder, deed placeholder = (call, (b.perform call).1) →
      (b.perform call).2.Owns placeholder) :
    (∃ placeholder, deed placeholder ∈ b.history (call :: calls)
        ∧ (b.performAll (call :: calls)).2.slotOf? placeholder = some slot) ↔
      (∃ placeholder, deed placeholder = (call, (b.perform call).1)
        ∧ (b.perform call).2.slotOf? placeholder = some slot)
      ∨ ∃ placeholder, deed placeholder ∈ (b.perform call).2.history calls
        ∧ ((b.perform call).2.performAll calls).2.slotOf? placeholder = some slot := by
  simp only [history_cons, List.mem_cons, or_and_right, exists_or, performAll_cons]
  refine or_congr_left (exists_congr fun placeholder => and_congr_right fun h => ?_)
  rw [(extends_performAll _ calls).slotOf?_eq (howns placeholder h)]

theorem binds_cons : b.Binds (call :: calls) slot target ↔
    (∃ placeholder, (.bind placeholder target, .ok .bound) = (call, (b.perform call).1)
      ∧ (b.perform call).2.slotOf? placeholder = some slot)
    ∨ (b.perform call).2.Binds calls slot target :=
  exists_history_cons fun _ h => (b.performs call).owns (.inr ⟨target, h⟩)

theorem places_cons : b.Places (call :: calls) slot ↔
    (∃ placeholder, (.indirect, .ok (.made placeholder)) = (call, (b.perform call).1)
      ∧ (b.perform call).2.slotOf? placeholder = some slot)
    ∨ (b.perform call).2.Places calls slot :=
  exists_history_cons fun _ h => (b.performs call).owns (.inl h)

/-- **The targets are those that slots were bound to.** -/
theorem slotTarget?_performAll (b : Builder υ σ) (calls : List (Call υ σ)) :
    (b.performAll calls).2.slotTarget? slot = some target ↔
      b.slotTarget? slot = some target ∨ b.Binds calls slot target := by
  induction calls generalizing b with
  | nil => simp [performAll, Binds, history]
  | cons call calls ih =>
    rw [performAll_cons, ih, (b.performs call).slotTarget?_iff, binds_cons, or_assoc]

/-- **The slots are those that were placed.** -/
theorem lt_size_performAll (b : Builder υ σ) (calls : List (Call υ σ)) :
    slot.index < (b.performAll calls).2.targets.size ↔
      slot.index < b.targets.size ∨ b.Places calls slot := by
  induction calls generalizing b with
  | nil => simp [performAll, Places, history]
  | cons call calls ih =>
    rw [performAll_cons, ih, (b.performs call).lt_size_iff, places_cons, or_assoc]

/-- A slot that has a target is not given another one. -/
theorem perform_bind_of_isSome (hslot : b.slotOf? placeholder = some slot)
    (hbound : (b.slotTarget? slot).isSome) (htarget : b.Owns target) :
    b.perform (.bind placeholder target) = (.error (.alreadyBound slot), b) := by
  have howns := (slotOf?_eq_some.1 hslot).1
  have hperforms := b.performs (.bind placeholder target)
  refine Prod.ext_iff.2 ?_
  generalize (b.perform (.bind placeholder target)).1 = answer at hperforms ⊢
  generalize (b.perform (.bind placeholder target)).2 = b' at hperforms ⊢
  cases hperforms with
  | strange h => exact absurd howns h
  | notIndirect _ hnone => exact nomatch hslot.symm.trans hnone
  | strangeTarget _ _ h => exact absurd htarget h
  | alreadyBound _ hslot' =>
    obtain rfl := Option.some.inj (hslot.symm.trans hslot')
    exact ⟨rfl, rfl⟩
  | bound _ hslot' _ hfree =>
    obtain rfl := Option.some.inj (hslot.symm.trans hslot')
    exact absurd hbound hfree

/-! ## Slots without a target -/

theorem mem_unboundSlots :
    slot ∈ b.unboundSlots ↔ slot.index < b.targets.size ∧ b.slotTarget? slot = none := by
  rw [unboundSlots, List.mem_map]
  constructor
  · rintro ⟨i, hi, rfl⟩
    obtain ⟨hlt, hfree⟩ := List.mem_filter.1 hi
    rw [slotTarget?, beq_iff_eq.1 hfree]
    exact ⟨List.mem_range.1 hlt, rfl⟩
  · rintro ⟨hlt, hnone⟩
    have hfree : b.targets[slot.index]? = some none := by
      rw [slotTarget?, Option.map_eq_none_iff, Array.getElem?_eq_getElem hlt] at hnone
      rw [Array.getElem?_eq_getElem hlt]
      exact congrArg some hnone
    exact ⟨slot.index, List.mem_filter.2 ⟨List.mem_range.2 hlt, beq_iff_eq.2 hfree⟩, rfl⟩

theorem pairwise_unboundSlots (b : Builder υ σ) :
    b.unboundSlots.Pairwise fun slot slot' => slot.index < slot'.index :=
  List.pairwise_map.2 (List.pairwise_lt_range.filter _)

/-- The search that finishing makes finds the first of them. -/
theorem head?_unboundSlots (b : Builder υ σ) :
    b.unboundSlots.head? = (b.targets.findIdx? (·.isNone)).map Slot.mk := by
  have hfind : (List.range b.targets.size).find? (fun i => b.targets[i]? == some none)
      = b.targets.findIdx? (·.isNone) := by
    ext i
    have hfree : ∀ {j : Nat} (hj : j < b.targets.size),
        (b.targets[j]? == some none) = b.targets[j].isNone := by
      intro j hj
      rw [Array.getElem?_eq_getElem hj]
      cases b.targets[j] <;> rfl
    rw [List.find?_range_eq_some, Array.findIdx?_eq_some_iff_getElem, List.mem_range]
    constructor
    · rintro ⟨hi, hlt, hbefore⟩
      refine ⟨hlt, (hfree hlt).symm.trans hi, fun j hj => ?_⟩
      rw [← hfree (Nat.lt_trans hj hlt)]
      simpa using hbefore j hj
    · rintro ⟨hlt, hi, hbefore⟩
      refine ⟨(hfree hlt).trans hi, hlt, fun j hj => ?_⟩
      rw [hfree (Nat.lt_trans hj hlt), Bool.eq_false_iff.2 (hbefore j hj)]
      rfl
  rw [unboundSlots, List.head?_map, List.head?_filter, hfind]

/-- A builder without such a slot can be finished, and no other one. -/
theorem exists_finish_iff : (∃ g, b.finish = .ok g) ↔ b.unboundSlots = [] := by
  rw [← List.head?_eq_none_iff, head?_unboundSlots, Option.map_eq_none_iff, finish]
  split
  · next i hi => simp [hi]
  · next hnone => simp [hnone]

/-- The first of them is to blame otherwise. -/
theorem finish_of_unboundSlots {rest : List Slot} (h : b.unboundSlots = slot :: rest) :
    b.finish = .error (.unboundSlot slot) := by
  have hhead := b.head?_unboundSlots
  rw [h, List.head?_cons] at hhead
  rw [finish]
  split
  · next i hi =>
    rw [hi] at hhead
    cases hhead
    rfl
  · next hnone =>
    rw [hnone] at hhead
    cases hhead

/-- The finished grammar gives a slot the target that the builder gave it. -/
theorem resolve?_of_finish {g : Grammar υ σ} (h : b.finish = .ok g) (slot : Slot) :
    g.resolve? slot = b.slotTarget? slot := by
  obtain ⟨hid, -, htargets⟩ := finish_eq_ok h
  have hhandle : g.handle = b.handle := funext fun i => congrArg (Handle.mk · i) hid
  rw [Grammar.resolve?, slotTarget?, ← htargets, hhandle]
  cases g.targets[slot.index]? <;> rfl

/-! ## From the first call to the finished grammar -/

/-- **The life of a slot.** It is placed by a call that makes its placeholder, and bound by a call
that gives it a target. From then on this is its target, and every other attempt to bind it is
refused, whatever else is called. The slots that are still to be bound are those that were placed
and not bound, in their order. Finishing succeeds just if there are none, and blames the first of
them otherwise; and the finished grammar gives each slot its target. -/
theorem performAll_slots (owner : Nat) (calls : List (Call υ σ)) :
    let start : Builder υ σ := .new owner
    let b := (start.performAll calls).2
    (∀ slot target, b.slotTarget? slot = some target ↔ start.Binds calls slot target)
      ∧ (∀ slot target, start.Binds calls slot target → ∀ later,
          let b' := (start.performAll (calls ++ later)).2
          b'.slotTarget? slot = some target ∧ ∀ placeholder node,
            b'.slotOf? placeholder = some slot → b'.Owns node →
              b'.perform (.bind placeholder node) = (.error (.alreadyBound slot), b'))
      ∧ b.unboundSlots.Pairwise (fun slot slot' => slot.index < slot'.index)
      ∧ (∀ slot, slot ∈ b.unboundSlots ↔
          start.Places calls slot ∧ ∀ target, ¬start.Binds calls slot target)
      ∧ ((∃ g, b.finish = .ok g) ↔ b.unboundSlots = [])
      ∧ (∀ slot rest, b.unboundSlots = slot :: rest → b.finish = .error (.unboundSlot slot))
      ∧ ∀ g, b.finish = .ok g → ∀ slot, g.resolve? slot = b.slotTarget? slot
          ∧ (g.resolve? slot = none ↔ ¬start.Places calls slot) := by
  intro start b
  have htarget : ∀ {slot target}, b.slotTarget? slot = some target ↔
      start.Binds calls slot target := by
    intro slot target
    rw [slotTarget?_performAll]
    simp [start, new, slotTarget?]
  have hplaced : ∀ {slot : Slot}, slot.index < b.targets.size ↔ start.Places calls slot := by
    intro slot
    rw [lt_size_performAll]
    simp [start, new]
  refine ⟨fun _ _ => htarget, fun slot target hbinds later => ?_, pairwise_unboundSlots b,
    fun slot => ?_, exists_finish_iff, fun _ _ => finish_of_unboundSlots, fun g hg slot => ?_⟩
  · intro b'
    have hkept : b'.slotTarget? slot = some target := by
      rw [show b' = (b.performAll later).2 from performAll_append ..]
      exact (slotTarget?_performAll b later).2 (.inl (htarget.2 hbinds))
    exact ⟨hkept, fun placeholder node hslot hnode =>
      perform_bind_of_isSome hslot (hkept ▸ rfl) hnode⟩
  · rw [mem_unboundSlots, hplaced, Option.eq_none_iff_forall_ne_some]
    exact and_congr_right' (forall_congr' fun target => not_congr htarget)
  · have hall : b.unboundSlots = [] := exists_finish_iff.1 ⟨g, hg⟩
    rw [resolve?_of_finish hg, ← hplaced]
    refine ⟨rfl, fun hnone hlt => ?_, fun hlt => ?_⟩
    · exact List.not_mem_nil (hall ▸ mem_unboundSlots.2 ⟨hlt, hnone⟩)
    · rw [slotTarget?, Array.getElem?_eq_none (Nat.le_of_not_lt hlt)]
      rfl

/-- Calls on builder 0. Slot 0 is bound to the placeholder of slot 1, and slot 1 to its own; then
both are tried once more. A foreign handle, and an entry that is no placeholder, are refused. Slot 2
is not bound. -/
def chained : List (Call Unit Unit) :=
  [.indirect, .indirect, .add (.byte 97), .bind ⟨0, 0⟩ ⟨0, 1⟩, .bind ⟨0, 1⟩ ⟨0, 1⟩,
    .bind ⟨0, 0⟩ ⟨0, 2⟩, .bind ⟨0, 1⟩ ⟨1, 2⟩, .bind ⟨0, 2⟩ ⟨0, 0⟩, .indirect]

theorem performAll_slots_chained :
    let start : Builder Unit Unit := .new 0
    let b := (start.performAll chained).2
    (start.performAll chained).1 = [.ok (.made ⟨0, 0⟩), .ok (.made ⟨0, 1⟩), .ok (.made ⟨0, 2⟩),
        .ok .bound, .ok .bound, .error (.alreadyBound ⟨0⟩), .error (.foreignParser ⟨1, 2⟩),
        .error (.notIndirect ⟨0, 2⟩), .ok (.made ⟨0, 3⟩)]
      ∧ start.Binds chained ⟨1⟩ ⟨0, 1⟩
      ∧ (∀ later, (start.performAll (chained ++ later)).2.slotTarget? ⟨1⟩ = some ⟨0, 1⟩)
      ∧ b.unboundSlots = [⟨2⟩] ∧ start.Places chained ⟨2⟩
      ∧ (∀ target, ¬start.Binds chained ⟨2⟩ target)
      ∧ b.finish = .error (.unboundSlot ⟨2⟩)
      ∧ ∃ g, (start.performAll (chained ++ [.bind ⟨0, 3⟩ ⟨0, 2⟩])).2.finish = .ok g
        ∧ g.resolve? ⟨2⟩ = some ⟨0, 2⟩ := by
  intro start b
  obtain ⟨htarget, hkept, -, hunbound, -, hblame, -⟩ := performAll_slots 0 chained
  obtain ⟨-, -, -, -, hfinish, -, hresolve⟩ :=
    performAll_slots 0 (chained ++ [.bind ⟨0, 3⟩ ⟨0, 2⟩])
  have hbinds : start.Binds chained ⟨1⟩ ⟨0, 1⟩ := (htarget ⟨1⟩ ⟨0, 1⟩).1 rfl
  have hlist : b.unboundSlots = [⟨2⟩] := by decide +kernel
  obtain ⟨hplaces, hnot⟩ := (hunbound ⟨2⟩).1 (hlist ▸ List.mem_singleton_self _)
  obtain ⟨g, hg⟩ := hfinish.2 rfl
  exact ⟨rfl, hbinds, fun later => (hkept ⟨1⟩ ⟨0, 1⟩ hbinds later).1, hlist, hplaces, hnot,
    hblame ⟨2⟩ [] hlist, g, hg, (hresolve g hg ⟨2⟩).1.trans rfl⟩

end Builder

end Packrat
