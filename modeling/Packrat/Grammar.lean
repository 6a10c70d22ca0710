import Packrat.Node
import Packrat.Grammar.Error

/-!
# Grammar — a finished grammar

A grammar is an arena of entries. An entry is a combinator, whose children stand before it, or a
placeholder for a slot; a table gives each slot its target. So every cycle goes through a slot. Both
facts are part of the type: whatever has a `Grammar` can follow children downwards and slots to a
target without looking twice.
-/

namespace Packrat

/-- A place of the arena: a combinator, or a placeholder for the target of a slot. -/
inductive Entry (υ σ : Type) where
  | node (node : Node Nat υ σ)
  | indirect (slot : Slot)

namespace Entry

variable {υ σ : Type}

/-- Name of the entry's kind, as logs show it. -/
def kind : Entry υ σ → String
  | node n => n.kind
  | indirect _ => "indirect"

/-- The children of a combinator; a placeholder has none. -/
def children : Entry υ σ → List Nat
  | node n => n.children
  | indirect _ => []

end Entry

/-- A grammar that runs can use. -/
structure Grammar (υ σ : Type) where
  /-- Number of the builder that made it. -/
  id : Nat
  entries : Array (Entry υ σ)
  /-- The target of each slot. -/
  targets : Array Nat
  /-- Children stand before their parent. -/
  child_lt : ∀ i (h : i < entries.size), ∀ c ∈ entries[i].children, c < i
  /-- Placeholders name slots of the table. -/
  slot_lt : ∀ i (h : i < entries.size) slot, entries[i] = .indirect slot → slot.index < targets.size
  /-- Targets are entries. -/
  target_lt : ∀ t ∈ targets, t < entries.size

namespace Grammar

variable {υ σ : Type}

/-- Number of entries. -/
def size (g : Grammar υ σ) : Nat := g.entries.size

/-- The handle of an entry. -/
def handle (g : Grammar υ σ) (index : Nat) : Handle := ⟨g.id, index⟩

/-- Whether a handle names an entry of this grammar. -/
def Owns (g : Grammar υ σ) (h : Handle) : Prop := h.owner = g.id ∧ h.index < g.entries.size

instance (g : Grammar υ σ) (h : Handle) : Decidable (g.Owns h) :=
  inferInstanceAs (Decidable (_ ∧ _))

/-- The entry that a handle names. -/
def entry? (g : Grammar υ σ) (h : Handle) : Option (Entry υ σ) :=
  if g.Owns h then g.entries[h.index]? else none

/-- The target of a slot. -/
def resolve? (g : Grammar υ σ) (slot : Slot) : Option Handle :=
  g.targets[slot.index]?.map g.handle

end Grammar

end Packrat
