import Packrat.Grammar

/-!
# Grammar/Builder — making a grammar

A `Builder` grows by one entry a call. `add` appends a combinator over handles of this builder,
`indirect` a placeholder with a fresh slot, and `bindIndirect` gives a slot its target, once.
`finish` freezes the builder when every slot has one.

Calls live in `Build`, whose state outlives an error: a call either succeeds or throws a
`GrammarError`, and the builder can be used on. Which of two faults is reported follows from the
order of the checks: the arguments first, then the children from left to right; `int_range` and
`length_value` look at the child that must give an integer before all else.
-/

namespace Packrat

/-- A grammar in the making. -/
structure Builder (υ σ : Type) where
  /-- Number of the builder, which its handles carry. -/
  id : Nat
  entries : Array (Entry υ σ) := #[]
  /-- The target of each slot that is bound. -/
  targets : Array (Option Nat) := #[]
  /-- Children stand before their parent. -/
  child_lt : ∀ i (h : i < entries.size), ∀ c ∈ entries[i].children, c < i := by
    intro i h; exact absurd h (Nat.not_lt_zero i)
  /-- Placeholders name slots of the table. -/
  slot_lt : ∀ i (h : i < entries.size) slot, entries[i] = .indirect slot →
      slot.index < targets.size := by
    intro i h; exact absurd h (Nat.not_lt_zero i)
  /-- Targets are entries. -/
  target_lt : ∀ t, some t ∈ targets → t < entries.size := by simp

/-- A call on a builder, which may fail and leaves a builder in any case. -/
abbrev Build (υ σ α : Type) := ExceptT GrammarError (StateM (Builder υ σ)) α

namespace Builder

variable {υ σ : Type}

/-- The builder with nothing in it. -/
def new (id : Nat) : Builder υ σ := { id }

/-- Number of entries. -/
def size (b : Builder υ σ) : Nat := b.entries.size

/-- The handle of an entry. -/
def handle (b : Builder υ σ) (index : Nat) : Handle := ⟨b.id, index⟩

/-- Whether a handle names an entry of this builder. -/
def Owns (b : Builder υ σ) (h : Handle) : Prop := h.owner = b.id ∧ h.index < b.entries.size

instance (b : Builder υ σ) (h : Handle) : Decidable (b.Owns h) :=
  inferInstanceAs (Decidable (_ ∧ _))

/-- The entry that a handle names. -/
def entry? (b : Builder υ σ) (h : Handle) : Option (Entry υ σ) :=
  if b.Owns h then b.entries[h.index]? else none

/-! ## Slots -/

/-- The slot that a placeholder stands for. -/
def slotOf? (b : Builder υ σ) (h : Handle) : Option Slot :=
  match b.entry? h with
  | some (.indirect slot) => some slot
  | _ => none

/-- The target of a bound slot. -/
def slotTarget? (b : Builder υ σ) (slot : Slot) : Option Handle :=
  (b.targets[slot.index]?.getD none).map b.handle

/-- The slots without a target, in order. -/
def unboundSlots (b : Builder υ σ) : List Slot :=
  ((List.range b.targets.size).filter fun i => b.targets[i]? == some none).map Slot.mk

/-! ## Growing -/

/-- The builder with a combinator behind its entries. -/
def append (b : Builder υ σ) (node : Node Nat υ σ) (h : ∀ c ∈ node.children, c < b.entries.size) :
    Builder υ σ where
  id := b.id
  entries := b.entries.push (.node node)
  targets := b.targets
  child_lt i hi c hc := by
    rw [Array.getElem_push] at hc
    split at hc
    next hi' => exact b.child_lt i hi' c hc
    next hi' =>
      have hc' := h c hc
      omega
  slot_lt i hi slot hs := by
    rw [Array.getElem_push] at hs
    split at hs
    next hi' => exact b.slot_lt i hi' slot hs
    next => exact absurd hs (by simp)
  target_lt t ht := by
    have := b.target_lt t ht
    simp only [Array.size_push]
    omega

/-- The builder with a placeholder for a fresh slot behind its entries. -/
def appendPlaceholder (b : Builder υ σ) : Builder υ σ where
  id := b.id
  entries := b.entries.push (.indirect ⟨b.targets.size⟩)
  targets := b.targets.push none
  child_lt i hi c hc := by
    rw [Array.getElem_push] at hc
    split at hc
    next hi' => exact b.child_lt i hi' c hc
    next => exact absurd hc (by simp [Entry.children])
  slot_lt i hi slot hs := by
    rw [Array.getElem_push] at hs
    rw [Array.size_push]
    split at hs
    next hi' => exact Nat.lt_succ_of_lt (b.slot_lt i hi' slot hs)
    next => cases hs; exact Nat.lt_succ_self _
  target_lt t ht := by
    have := b.target_lt t (by simpa using ht)
    simp only [Array.size_push]
    omega

/-- The builder with a target for a slot. -/
def bind (b : Builder υ σ) (slot : Slot) (target : Nat) (h : target < b.entries.size) :
    Builder υ σ where
  id := b.id
  entries := b.entries
  targets := b.targets.setIfInBounds slot.index (some target)
  child_lt := b.child_lt
  slot_lt i hi s hs := by simpa using b.slot_lt i hi s hs
  target_lt t ht := by
    rcases Array.mem_or_eq_of_mem_setIfInBounds ht with ht | ht
    · exact b.target_lt t ht
    · cases ht; exact h

/-! ## Integers only -/

/-- The entries that an entry's value may come from, if its value is an integer whenever theirs
are. -/
def carriers (b : Builder υ σ) : Entry υ σ → Option (List Nat)
  | .node node => node.carriers
  | .indirect slot => (b.targets[slot.index]?.getD none).map fun target => [target]

/-- An entry that is not being examined is one fewer to go once it is. -/
theorem unvisited_cons_lt {size index : Nat} {visiting : List Nat} (h : index < size)
    (hnew : index ∉ visiting) :
    ((List.range size).filter (· ∉ index :: visiting)).length
      < ((List.range size).filter (· ∉ visiting)).length := by
  have hfewer : (List.range size).filter (· ∉ index :: visiting)
      = ((List.range size).filter (· ∉ visiting)).filter (· ≠ index) := by
    simp [List.filter_filter]
  rw [hfewer, List.length_filter_lt_length_iff_exists]
  exact ⟨index, by simp [h, hnew], by simp⟩

/-- Whether an entry gives an integer whenever it matches; `visiting` are the entries whose
examination leads to this one. An entry that is reached again while it is examined is taken to give
an integer: the other paths through it decide. -/
@[semireducible]
def integerFrom (b : Builder υ σ) (visiting : List Nat) (index : Nat) : Bool :=
  if hnew : index ∈ visiting then true
  else if h : index < b.entries.size then
    match b.carriers b.entries[index] with
    | some sources => sources.all fun source => b.integerFrom (index :: visiting) source
    | none => false
  else false
termination_by ((List.range b.entries.size).filter (· ∉ visiting)).length
decreasing_by exact unvisited_cons_lt h hnew

/-- Whether an entry gives an integer whenever it matches. -/
def producesInteger (b : Builder υ σ) (index : Nat) : Bool := b.integerFrom [] index

/-! ## Finishing -/

/-- The grammar, if every slot is bound; otherwise the first slot that is not is to blame. -/
def finish (b : Builder υ σ) : Except GrammarError (Grammar υ σ) :=
  match h : b.targets.findIdx? (·.isNone) with
  | some i => .error (.unboundSlot ⟨i⟩)
  | none => .ok {
      id := b.id
      entries := b.entries
      targets := b.targets.map (·.getD 0)
      child_lt := b.child_lt
      slot_lt := fun i hi slot hs => by simpa using b.slot_lt i hi slot hs
      target_lt := fun t ht => by
        obtain ⟨o, ho, rfl⟩ := Array.mem_map.1 ht
        have hsome := Array.findIdx?_eq_none_iff.1 h o ho
        cases o with
        | none => simp at hsome
        | some t => exact b.target_lt t ho }

end Builder

/-! ## Calls -/

namespace Build

variable {υ σ : Type}

/-- Throws unless a handle belongs to the builder. -/
def own (h : Handle) : Build υ σ Unit := do
  unless (← get).Owns h do throw (.foreignParser h)

/-- Throws unless an entry of the builder gives integers only. -/
def integer (combinator : String) (h : Handle) : Build υ σ Unit := do
  unless (← get).producesInteger h.index do throw (.notIntegerProducing combinator h)

/-- Throws unless the arguments of a combinator are acceptable; children in general are not looked
at. -/
def accept (request : Node Handle υ σ) : Build υ σ Unit :=
  match request with
  | .byteRange low high => if high < low then throw (.invalidByteRange low high) else pure ()
  | .bits width _ =>
    if width = 0 then throw .zeroBitWidth
    else if 64 < width then throw (.bitWidthTooLarge width)
    else pure ()
  | .intRange base low high => do
    own base
    if high < low then throw (.invalidIntRange low high)
    integer request.kind base
  | .lengthValue length _ => do
    own length
    integer request.kind length
  | .sequence [] | .choice [] => throw (.emptyChildren request.kind)
  | _ => pure ()

/-- Appends a combinator. -/
def add (request : Node Handle υ σ) : Build υ σ Handle := do
  accept request
  let b ← get
  match h : request.children.find? fun c => ¬b.Owns c with
  | some stranger => throw (.foreignParser stranger)
  | none =>
    set (b.append (request.map Handle.index) (by
      intro i hi
      obtain ⟨c, hc, rfl⟩ := List.mem_map.1 (Node.children_map _ request ▸ hi)
      have := List.find?_eq_none.1 h c hc
      simp only [decide_not, Bool.not_eq_true', decide_eq_false_iff_not, Decidable.not_not] at this
      exact this.2))
    return b.handle b.size

/-- Appends a placeholder for a fresh slot. -/
def indirect : Build υ σ Handle := do
  let b ← get
  set b.appendPlaceholder
  return b.handle b.size

/-- Gives the slot of a placeholder its target; a slot is bound once. -/
def bindIndirect (placeholder target : Handle) : Build υ σ Unit := do
  own placeholder
  let b ← get
  match b.slotOf? placeholder with
  | none => throw (.notIndirect placeholder)
  | some slot =>
    if h : b.Owns target then
      if (b.slotTarget? slot).isSome then throw (.alreadyBound slot)
      set (b.bind slot target.index h.2)
    else throw (.foreignParser target)

end Build

end Packrat
