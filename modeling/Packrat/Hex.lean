/-!
# Hex — numbers and bytes in hexadecimal

Digits are written in lower case and read in either.
-/

namespace Packrat.Hex

/-- A number in hexadecimal with at least `width` digits. -/
def ofNat (width n : Nat) : String :=
  let digits := Nat.toDigits 16 n
  String.ofList (List.replicate (width - digits.length) '0' ++ digits)

/-- Bytes as pairs of digits. -/
def encode (bytes : List UInt8) : String :=
  String.join (bytes.map fun b => ofNat 2 b.toNat)

/-- The number that an ASCII hexadecimal digit stands for. -/
def digit? (c : Char) : Option Nat :=
  if '0' ≤ c ∧ c ≤ '9' then some (c.toNat - '0'.toNat)
  else if 'a' ≤ c ∧ c ≤ 'f' then some (c.toNat - 'a'.toNat + 10)
  else if 'A' ≤ c ∧ c ≤ 'F' then some (c.toNat - 'A'.toNat + 10)
  else none

end Packrat.Hex
