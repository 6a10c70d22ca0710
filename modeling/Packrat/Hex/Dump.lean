import Packrat.Text.Blank
import Packrat.Text.Quoted

/-!
# Hex/Dump — bytes typed in hexadecimal

A dump is pairs of hexadecimal digits. White space, colons and dots may stand anywhere, within pairs
too. The first character that is neither counts as the fault, and only then an odd number of digits.
-/

namespace Packrat.Hex.Dump

/-- Why a text is no dump. -/
inductive Error where
  | unexpected (c : Char)
  | oddDigits (count : Nat)
deriving DecidableEq, Repr

namespace Error

/-- The fault in words. -/
def message : Error → String
  | unexpected c => s!"invalid hex input: unexpected character {Text.quotedChar c}"
  | oddDigits count => s!"invalid hex input: odd number of digits ({count})"

/-- The code of all faults. -/
def code : String := "bitpeg::cli::hex"

/-- Advice. -/
def help : String := "hex input is pairs of hex digits; whitespace, `:` and `.` are ignored"

end Error

/-- Whether a character may stand anywhere. -/
def isSkipped (c : Char) : Bool := Text.isBlank c || c == ':' || c == '.'

/-- The digits of a text. -/
def digits (text : String) : Except Error (List Nat) :=
  (text.toList.filter (!isSkipped ·)).mapM fun c =>
    match Hex.digit? c with
    | some d => .ok d
    | none => .error (.unexpected c)

/-- The bytes that pairs of digits spell; a single digit at the end is left out. -/
def pairs : List Nat → List UInt8
  | high :: low :: rest => .ofNat (16 * high + low) :: pairs rest
  | _ => []

/-- The bytes of a dump. -/
def decode (text : String) : Except Error (List UInt8) := do
  let ds ← digits text
  if ds.length % 2 = 1 then throw (.oddDigits ds.length)
  return pairs ds

end Packrat.Hex.Dump
