import Packrat.Cursor

/-!
# Integer — numbers read from the input

An `Integer` remembers whether it was read as signed or unsigned and from how many bits. Two
integers are equal only if number, signedness and width all agree. The narrowings answer `none`
outside their 64-bit range.
-/

namespace Packrat

/-- An integer and the number of input bits that it was read from. -/
inductive Integer where
  | signed (value : Int) (width : Nat)
  | unsigned (value : Nat) (width : Nat)
deriving DecidableEq, Repr, Inhabited

namespace Integer

/-- The number. -/
def toInt : Integer → Int
  | signed value _ => value
  | unsigned value _ => value

/-- The number, if it is an unsigned 64-bit word. -/
def toWord? (n : Integer) : Option Nat :=
  if 0 ≤ n.toInt ∧ n.toInt < wordBound then some n.toInt.toNat else none

/-- The number, if it is a signed 64-bit word. -/
def toSignedWord? (n : Integer) : Option Int :=
  if -signedWordBound ≤ n.toInt ∧ n.toInt < signedWordBound then some n.toInt else none

/-- Number of bits that the integer was read from. -/
def width : Integer → Nat
  | signed _ width => width
  | unsigned _ width => width

/-- Whether the integer was read as signed. -/
def isSigned : Integer → Bool
  | signed .. => true
  | unsigned .. => false

end Integer

end Packrat
