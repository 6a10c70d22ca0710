import Packrat.Plan
import Packrat.Input
import Packrat.Charset

/-!
# Rule/Leaf — rules that read the input themselves

Bytes are read on byte boundaries only; bits anywhere. A leaf that does not match fails at its own
cursor.
-/

namespace Packrat.Rule

variable {υ σ : Type}

/-- The step of a read that either fails at `start` or matches. -/
def ofRead (start : Cursor) : Option (Match υ) → Plan υ σ (Step υ)
  | some m => pure (.ok m)
  | none => pure (.error (.noMatch start))

/-- Never matches. -/
def never : Rule υ σ := fun start => pure (.error (.noMatch start))

/-- Matches the empty input, without a value. -/
def empty : Rule υ σ := fun start => pure (.ok (.absent start))

/-- Matches at the end of the window, without a value. -/
def atEnd : Rule υ σ := fun start => do
  if (← Plan.limit) ≤ start then return .ok (.absent start)
  else return .error (.noMatch start)

/-- Matches an exact byte string. -/
def token (input : Input) (bytes : List UInt8) : Rule υ σ := fun start => do
  let found := input.bytesAt? start bytes.length (← Plan.limit)
  ofRead start <| found.bind fun found =>
    if found = bytes then some (.of (.atByte (start.byte + bytes.length)) (.bytes found)) else none

/-- Matches one byte that is accepted, as an unsigned integer. -/
def byteIf (input : Input) (accepts : UInt8 → Bool) : Rule υ σ := fun start => do
  let found := input.byteAt? start (← Plan.limit)
  ofRead start <| found.bind fun byte =>
    if accepts byte then some (.of (.atByte (start.byte + 1)) (.word byte.toNat 8)) else none

/-- Matches a number of bits, as an integer. -/
def bits (input : Input) (width : Nat) (signed : Bool) : Rule υ σ := fun start => do
  let found := input.readBits? start width (← Plan.limit)
  ofRead start <| found.map fun (raw, stop) =>
    .of stop <| .integer <|
      if signed then .signed (twosComplement raw width) width else .unsigned raw width

/-- The cursor behind the blanks that follow, of at most `count` bytes. -/
def skipBlanks (input : Input) (limit : Cursor) : (count : Nat) → Cursor → Cursor
  | 0, cursor => cursor
  | count + 1, cursor =>
    match input.byteAt? cursor limit with
    | some byte =>
      if Charset.whitespace.contains byte then
        skipBlanks input limit count (.atByte (cursor.byte + 1))
      else cursor
    | none => cursor

end Packrat.Rule
