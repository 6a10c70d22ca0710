import Packrat.Value

/-!
# Outcome — how a match ends

A step of a run is a `Match` or a `Fail`. A match says where it stopped and what it is worth; a
value may be absent, and then collecting combinators skip it. A failure says where the failing
parser was tried, the deepest position that any attempt below it reached, and why. The two fatal
kinds end the run: no combinator absorbs them.
-/

namespace Packrat

/-! ## Slots and kinds of failure -/

/-- The number of an indirection slot. A machine counts slots in words of 32 bits, and agrees as
long as a builder has fewer than `2 ^ 32` of them. -/
structure Slot where
  index : Nat
deriving DecidableEq, Repr, Inhabited

instance : ToString Slot := ⟨fun s => s!"slot {s.index}"⟩

/-- Why a match failed. -/
inductive FailureKind where
  /-- The parser does not match here. -/
  | noMatch
  /-- A callback refused the value. -/
  | callback (message : String)
  /-- The target of a slot was entered again before it came back, nothing consumed. -/
  | leftRecursion (slot : Slot)
  /-- Slots were entered deeper than the configured bound. -/
  | recursionLimit (limit : Nat)
deriving DecidableEq, Repr, Inhabited

namespace FailureKind

/-- Whether the failure ends the run. -/
def isFatal : FailureKind → Bool
  | leftRecursion _ | recursionLimit _ => true
  | noMatch | callback _ => false

/-- The failure in words. -/
def toText : FailureKind → String
  | noMatch => "no match"
  | callback message => s!"callback rejected: {message}"
  | leftRecursion slot => s!"left recursion through {slot}"
  | recursionLimit limit => s!"recursion depth limit of {limit} exceeded"

end FailureKind

/-! ## Failures -/

/-- A failed match. -/
@[ext]
structure Fail where
  /-- Where the failing parser was tried. -/
  position : Cursor
  /-- The deepest position that an attempt reached. -/
  deepest : Cursor
  kind : FailureKind
deriving DecidableEq, Repr, Inhabited

namespace Fail

/-- A failure that got no further than its position. -/
def here (kind : FailureKind) (position : Cursor) : Fail := ⟨position, position, kind⟩

/-- The plain failure at a position. -/
def noMatch (position : Cursor) : Fail := here .noMatch position

/-- Whether the failure ends the run. -/
def isFatal (f : Fail) : Bool := f.kind.isFatal

/-- The failure reported at another position; the deepest point stays. -/
def reportedAt (f : Fail) (position : Cursor) : Fail :=
  { f with position, deepest := max f.deepest position }

/-- The failure with one more position that was reached. -/
def reached (f : Fail) (cursor : Cursor) : Fail := { f with deepest := max f.deepest cursor }

/-- Of two failures the one that got further, the first on a tie. -/
def deeper (f g : Fail) : Fail := if f.deepest < g.deepest then g else f

@[simp]
theorem isFatal_reportedAt (f : Fail) (position : Cursor) :
    (f.reportedAt position).isFatal = f.isFatal := rfl

@[simp]
theorem isFatal_reached (f : Fail) (cursor : Cursor) : (f.reached cursor).isFatal = f.isFatal := rfl

/-- The failure in words. -/
def message (f : Fail) : String :=
  s!"no match at {f.position} ({f.kind.toText}); deepest failure at {f.deepest}"

end Fail

/-! ## Matches -/

/-- A successful match. -/
structure Match (υ : Type) where
  /-- Where the match stopped. -/
  stop : Cursor
  /-- Its value, if it has one to keep. -/
  value : Option (Value υ)
deriving DecidableEq, Inhabited

namespace Match

variable {υ : Type}

/-- A match with a value. -/
def of (stop : Cursor) (value : Value υ) : Match υ := ⟨stop, some value⟩

/-- A match without a value. -/
def absent (stop : Cursor) : Match υ := ⟨stop, none⟩

/-- The value that a callback is shown. -/
def shown (m : Match υ) : Value υ := m.value.getD .none

/-- `values` followed by the value of a match, if it has one. -/
def collect (values : Array (Value υ)) (m : Match υ) : Array (Value υ) :=
  match m.value with
  | some v => values.push v
  | none => values

end Match

/-- The outcome of matching one parser at one place. -/
abbrev Step (υ : Type) := Except Fail (Match υ)

/-! ## Results of whole runs -/

/-- What a successful run found. -/
structure Success (υ : Type) where
  /-- Position just behind the matched input. -/
  cursor : Cursor
  value : Value υ
deriving Inhabited

/-- The outcome of a run. -/
abbrev Result (υ : Type) := Except Fail (Success υ)

namespace Result

variable {υ : Type}

/-- The outcome of a run whose root ended in a step; an absent value counts as none. -/
def ofStep (step : Step υ) : Result υ := step.map fun m => ⟨m.stop, m.shown⟩

/-- Whether two results agree, values compared by `==`. -/
def beq [BEq υ] : Result υ → Result υ → Bool
  | .ok a, .ok b => a.cursor == b.cursor && a.value == b.value
  | .error f, .error g => f == g
  | _, _ => false

/-- The value of a successful run. -/
def value? : Result υ → Option (Value υ)
  | .ok s => some s.value
  | .error _ => none

end Result

end Packrat
