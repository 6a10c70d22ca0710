import Packrat.Callback

/-!
# Callback/Library — ready-made actions

Actions that most grammars need: dropping a value, picking an item of a sequence, flattening nested
sequences, and collecting bytes. The last two walk a value from left to right; `Value.toBytes` stops
at the first leaf that stands for no bytes.
-/

namespace Packrat

namespace Value

variable {υ : Type}

/-! ## Flattening -/

mutual

/-- `leaves` followed by the leaves of a value that are no sequences. -/
def pushLeaves (leaves : Array (Value υ)) : Value υ → Array (Value υ)
  | sequence items => pushAllLeaves leaves items
  | v => leaves.push v

/-- `leaves` followed by the leaves of each value of a list. -/
def pushAllLeaves (leaves : Array (Value υ)) : List (Value υ) → Array (Value υ)
  | [] => leaves
  | v :: vs => pushAllLeaves (pushLeaves leaves v) vs

end

/-- The sequence of the leaves that are no sequences. -/
def flatten (v : Value υ) : Value υ := sequence (pushLeaves #[] v).toList

/-! ## Collecting bytes -/

/-- The byte that an integer stands for. -/
def byteOf (n : Integer) : Except CallbackError UInt8 :=
  match n.toWord? with
  | some k => if k < 256 then .ok (.ofNat k) else .error (.rejected s!"{n.toInt} is not a byte")
  | Option.none => .error (.rejected s!"{n.toInt} is not a byte")

mutual

/-- `out` followed by the bytes that a value stands for. -/
def pushBytes (out : Array UInt8) : Value υ → Except CallbackError (Array UInt8)
  | none => .ok out
  | bytes b => .ok (out ++ b)
  | integer n => (byteOf n).map out.push
  | sequence items => pushAllBytes out items
  | v => .error (.rejected s!"cannot convert {v.typeName} value to bytes")

/-- `out` followed by the bytes that each value of a list stands for. -/
def pushAllBytes (out : Array UInt8) : List (Value υ) → Except CallbackError (Array UInt8)
  | [] => .ok out
  | v :: vs =>
    match pushBytes out v with
    | .ok out => pushAllBytes out vs
    | .error e => .error e

end

/-- The byte string that byte-sized integers and byte strings make up. -/
def toBytes (v : Value υ) : Except CallbackError (Value υ) :=
  (pushBytes #[] v).map fun out => bytes out.toList

/-! ## Picking -/

/-- An item of a sequence, or a refusal that tells the kind of value. -/
def pick (index : Nat) (v : Value υ) : Except CallbackError (Value υ) :=
  match v.get? index with
  | some item => .ok item
  | Option.none => .error (.rejected s!"no element {index} in {v.typeName} value")

end Value

namespace Action

variable {υ σ : Type}

/-- Drops the value. -/
def ignore : Action υ σ := .ofFunction fun _ => .ok .none

/-- Picks an item of a sequence. -/
def index (index : Nat) : Action υ σ := .ofFunction (Value.pick index)

/-- Picks the first item of a sequence. -/
def first : Action υ σ := index 0

/-- Flattens nested sequences. -/
def flatten : Action υ σ := .ofFunction fun v => .ok v.flatten

/-- Collects bytes into one byte string. -/
def toBytes : Action υ σ := .ofFunction Value.toBytes

end Action

end Packrat
