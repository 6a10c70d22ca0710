import Std.Data.TreeMap
import Packrat.Outcome
import Packrat.Config

/-!
# Run — what a run keeps

A `Site` is a place where a node is matched: the node, the cursor and the end of the window. The
state of a run is a `Run`: the window end, the slots being followed, the memo from sites to
outcomes, the callbacks' own state, and a trace of everything that happened. `Stats` are counts
over the trace, kept as it grows.
-/

namespace Packrat

/-- A node at a place: the same node at the same cursor can see windows of different lengths. -/
@[ext]
structure Site where
  /-- Position of the node in the grammar. -/
  node : Nat
  /-- Where it is matched. -/
  start : Cursor
  /-- The end of the input that it sees. -/
  limit : Cursor
deriving DecidableEq, Repr, Inhabited

instance : Ord Site :=
  ⟨compareLex (compareOn Site.node) (compareLex (compareOn Site.start) (compareOn Site.limit))⟩

instance : Std.TransOrd Site := inferInstanceAs <| Std.TransCmp <|
  compareLex (compareOn Site.node) (compareLex (compareOn Site.start) (compareOn Site.limit))

instance : Std.LawfulEqOrd Site where
  eq_of_compare h := by
    obtain ⟨hnode, h⟩ := Ordering.then_eq_eq.1 h
    obtain ⟨hstart, hlimit⟩ := Ordering.then_eq_eq.1 h
    exact Site.ext (Std.LawfulEqOrd.eq_of_compare hnode) (Std.LawfulEqOrd.eq_of_compare hstart)
      (Std.LawfulEqOrd.eq_of_compare hlimit)

/-- The two kinds of callbacks. -/
inductive CallbackKind where
  | action
  | predicate
deriving DecidableEq, Repr

/-- Something that happens in a run. -/
inductive Event (υ : Type) where
  /-- A node starts to be matched afresh. -/
  | evaluated (site : Site)
  /-- A node that was matched afresh is done. -/
  | settled (site : Site) (step : Step υ)
  /-- A remembered outcome is used. -/
  | recalled (site : Site) (step : Step υ)
  /-- A slot is followed; `active` holds the targets being followed, innermost first. -/
  | entered (slot : Slot) (active : List Site) (depth : Nat)
  /-- A slot's target is already being followed at this place. -/
  | leftRecursion (slot : Slot) (site : Site)
  /-- A slot's target would be followed deeper than allowed. -/
  | depthExceeded (bound : Nat) (site : Site)
  /-- A node's callback is called. -/
  | called (site : Site)
  /-- A callback refused the match. -/
  | rejected (kind : CallbackKind) (start : Cursor) (message : String)

/-- Counts over a run. -/
structure Stats where
  /-- Nodes matched afresh. -/
  evaluations : Nat := 0
  /-- Remembered outcomes used. -/
  cacheHits : Nat := 0
  /-- Outcomes remembered at the end. -/
  cacheEntries : Nat := 0
  /-- Most slots inside one another. -/
  maxDepth : Nat := 0
deriving DecidableEq, Repr, Inhabited

/-- The counts after one more event. -/
def Stats.count {υ : Type} (stats : Stats) : Event υ → Stats
  | .evaluated _ => { stats with evaluations := stats.evaluations + 1 }
  | .recalled .. => { stats with cacheHits := stats.cacheHits + 1 }
  | .entered _ _ depth => { stats with maxDepth := max stats.maxDepth depth }
  | _ => stats

/-- The outcomes that a run remembers. -/
abbrev Memo (υ : Type) := Std.TreeMap Site (Step υ)

/-- The state of a run, with callbacks on objects `υ` and state `σ`. -/
structure Run (υ σ : Type) where
  /-- The end of the input that is seen; inside a length-prefixed window, the end of that. -/
  limit : Cursor
  /-- The targets being followed, innermost first. -/
  active : List Site := []
  /-- How many slots are being followed. -/
  depth : Nat := 0
  memo : Memo υ := {}
  stats : Stats := {}
  /-- All that happened so far. -/
  trace : Array (Event υ) := #[]
  /-- The callbacks' own state. -/
  host : σ

/-- A computation in a run. -/
abbrev RunM (υ σ α : Type) := StateM (Run υ σ) α

/-- A parser at work: it is given a cursor and ends in a step. -/
abbrev Matcher (υ σ : Type) := Cursor → RunM υ σ (Step υ)

namespace Run

variable {υ σ : Type}

/-- The state with one more event. -/
def note (event : Event υ) (run : Run υ σ) : Run υ σ :=
  { run with trace := run.trace.push event, stats := run.stats.count event }

/-- The state in a window that ends at `limit`. -/
def withLimit (limit : Cursor) (run : Run υ σ) : Run υ σ := { run with limit }

/-- The state with an outcome remembered. -/
def remember (site : Site) (step : Step υ) (run : Run υ σ) : Run υ σ :=
  { run with memo := run.memo.insert site step }

/-- The state in which a slot's target is being followed. -/
def enter (slot : Slot) (site : Site) (run : Run υ σ) : Run υ σ :=
  { run with active := site :: run.active, depth := run.depth + 1 }.note
    (.entered slot (site :: run.active) (run.depth + 1))

/-- The state in which a target is followed no more. -/
def leave (site : Site) (run : Run υ σ) : Run υ σ :=
  { run with active := run.active.erase site, depth := run.depth - 1 }

/-! ## What the changes leave alone -/

section Fields

variable (run : Run υ σ) (event : Event υ) (limit : Cursor) (site : Site) (step : Step υ)
  (slot : Slot)

@[simp] theorem limit_note : (run.note event).limit = run.limit := rfl
@[simp] theorem active_note : (run.note event).active = run.active := rfl
@[simp] theorem depth_note : (run.note event).depth = run.depth := rfl
@[simp] theorem memo_note : (run.note event).memo = run.memo := rfl
@[simp] theorem host_note : (run.note event).host = run.host := rfl
@[simp] theorem trace_note : (run.note event).trace = run.trace.push event := rfl

theorem mem_trace_note {e : Event υ} :
    e ∈ (run.note event).trace.toList ↔ e ∈ run.trace.toList ∨ e = event := by
  rw [trace_note, Array.toList_push, List.mem_append, List.mem_singleton]

@[simp] theorem limit_withLimit : (run.withLimit limit).limit = limit := rfl
@[simp] theorem active_withLimit : (run.withLimit limit).active = run.active := rfl
@[simp] theorem depth_withLimit : (run.withLimit limit).depth = run.depth := rfl
@[simp] theorem memo_withLimit : (run.withLimit limit).memo = run.memo := rfl
@[simp] theorem trace_withLimit : (run.withLimit limit).trace = run.trace := rfl

@[simp] theorem limit_remember : (run.remember site step).limit = run.limit := rfl
@[simp] theorem active_remember : (run.remember site step).active = run.active := rfl
@[simp] theorem depth_remember : (run.remember site step).depth = run.depth := rfl
@[simp] theorem trace_remember : (run.remember site step).trace = run.trace := rfl
@[simp] theorem memo_remember : (run.remember site step).memo = run.memo.insert site step := rfl

/-- An outcome that is remembered is the new one, or was remembered before. -/
theorem memo_remember_cases {site' : Site} {step' : Step υ}
    (h : (run.remember site step).memo[site']? = some step') :
    (site' = site ∧ step' = step) ∨ run.memo[site']? = some step' := by
  rw [memo_remember, Std.TreeMap.getElem?_insert] at h
  split at h
  · next heq =>
    exact .inl ⟨(Std.LawfulEqOrd.eq_of_compare heq).symm, (Option.some.inj h).symm⟩
  · exact .inr h

@[simp] theorem limit_enter : (run.enter slot site).limit = run.limit := rfl
@[simp] theorem active_enter : (run.enter slot site).active = site :: run.active := rfl
@[simp] theorem depth_enter : (run.enter slot site).depth = run.depth + 1 := rfl
@[simp] theorem memo_enter : (run.enter slot site).memo = run.memo := rfl
@[simp] theorem trace_enter : (run.enter slot site).trace
    = run.trace.push (.entered slot (site :: run.active) (run.depth + 1)) := rfl

@[simp] theorem limit_leave : (run.leave site).limit = run.limit := rfl
@[simp] theorem active_leave : (run.leave site).active = run.active.erase site := rfl
@[simp] theorem depth_leave : (run.leave site).depth = run.depth - 1 := rfl
@[simp] theorem memo_leave : (run.leave site).memo = run.memo := rfl
@[simp] theorem trace_leave : (run.leave site).trace = run.trace := rfl

end Fields

end Run

end Packrat
