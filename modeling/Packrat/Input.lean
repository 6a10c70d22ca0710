import Packrat.Cursor

/-!
# Input — bounded reads from a byte buffer

Every read takes a window end, so that a length-prefixed window can show the parsers inside it a
shortened input. A read that would cross the window end, or the end of the buffer, answers `none`.
`Input.readBits?` reads across byte boundaries: it takes the number that the touched bytes spell,
drops the bits behind the read, and keeps as many as were asked for.
-/

namespace Packrat

/-- The bytes that a run reads. -/
structure Input where
  /-- The buffer. -/
  bytes : Array UInt8
deriving DecidableEq, Inhabited

/-- The number that bytes spell, most significant first. -/
def bigEndian (bytes : List UInt8) : Nat :=
  bytes.foldl (fun n b => n * 256 + b.toNat) 0

/-- The number that the low `width` bits `raw` stand for in two's complement. -/
def twosComplement (raw width : Nat) : Int :=
  if raw < 1 <<< (width - 1) then raw else (raw : Int) - (1 <<< width : Nat)

namespace Input

/-- The cursor just behind the last byte. -/
def stop (input : Input) : Cursor := .atByte input.bytes.size

/-- The byte at an aligned cursor, if it ends by `limit`. -/
def byteAt? (input : Input) (start limit : Cursor) : Option UInt8 := do
  let stop ← start.advanceBytes? 1
  guard (start.isAligned ∧ stop ≤ limit)
  input.bytes[start.byte]?

/-- `count` bytes from an aligned cursor, if they end by `limit`. -/
def bytesAt? (input : Input) (start : Cursor) (count : Nat) (limit : Cursor) :
    Option (List UInt8) := do
  let stop ← start.advanceBytes? count
  guard (start.isAligned ∧ stop ≤ limit ∧ stop ≤ input.stop)
  return (input.bytes.extract start.byte stop.byte).toList

/-- The number that `width` bits spell from any cursor on, if they end by `limit`, and the cursor
behind them. -/
def readBits? (input : Input) (start : Cursor) (width : Nat) (limit : Cursor) :
    Option (Nat × Cursor) := do
  let stop ← start.advanceBits? width
  guard (stop ≤ limit ∧ stop ≤ input.stop)
  let touched := (input.bytes.extract start.byte stop.bytesSpanned).toList
  let behind := 8 * stop.bytesSpanned - stop.bitPosition
  return ((bigEndian touched >>> behind) % (1 <<< width), stop)

end Input

end Packrat
