/-!
# Charset — sets of bytes

A set of bytes is a 256-bit word: byte `b` is a member when bit `b` is set. The operations are the
word operations, and `Charset.contains` is the one view of a set.
-/

namespace Packrat

/-- A set of bytes. -/
@[ext]
structure Charset where
  /-- Bit `b` tells whether byte `b` is a member. -/
  bits : BitVec 256
deriving DecidableEq, Inhabited

namespace Charset

/-- The empty set. -/
def empty : Charset := ⟨0⟩

instance : EmptyCollection Charset := ⟨empty⟩

/-- The set of one byte. -/
def singleton (byte : UInt8) : Charset := ⟨BitVec.twoPow 256 byte.toNat⟩

/-- Whether a byte is a member. -/
def contains (set : Charset) (byte : UInt8) : Bool := set.bits.getLsbD byte.toNat

/-- The set with a byte put in. -/
def insert (set : Charset) (byte : UInt8) : Charset := ⟨set.bits ||| (singleton byte).bits⟩

/-- The set with a byte taken out. -/
def erase (set : Charset) (byte : UInt8) : Charset := ⟨set.bits &&& ~~~(singleton byte).bits⟩

/-- Every byte that is no member. -/
def complement (set : Charset) : Charset := ⟨~~~set.bits⟩

/-- The set of the bytes of a list. -/
def ofList (bytes : List UInt8) : Charset := bytes.foldl insert empty

/-- The bytes from `low` to `high`, both included; empty when `low` is above `high`. -/
def ofRange (low high : UInt8) : Charset :=
  ofList ((List.range' low.toNat (high.toNat + 1 - low.toNat)).map UInt8.ofNat)

/-- The members in increasing order. -/
def toList (set : Charset) : List UInt8 :=
  ((List.range 256).map UInt8.ofNat).filter set.contains

/-- Number of members. -/
def size (set : Charset) : Nat := set.bits.cpop.toNat

/-- Whether there is no member. -/
def isEmpty (set : Charset) : Bool := set.bits == 0

/-- The bytes that `whitespace` skips: space, tab, line feed, vertical tab, form feed, carriage
return. -/
def whitespace : Charset := ofList [0x20, 0x09, 0x0a, 0x0b, 0x0c, 0x0d]

/-! ## Membership -/

@[simp]
theorem contains_empty (byte : UInt8) : empty.contains byte = false := by
  simp [contains, empty]

@[simp]
theorem contains_singleton (a b : UInt8) : (singleton a).contains b = decide (a = b) := by
  have ha : a.toNat < 256 := a.toNat_lt
  simp [contains, singleton, BitVec.getLsbD_twoPow, ha, UInt8.toNat_inj]

@[simp]
theorem contains_insert (set : Charset) (a b : UInt8) :
    (set.insert a).contains b = (set.contains b || decide (a = b)) := by
  rw [← contains_singleton a b]
  simp [contains, insert]

@[simp]
theorem contains_erase (set : Charset) (a b : UInt8) :
    (set.erase a).contains b = (set.contains b && decide (a ≠ b)) := by
  have hb : b.toNat < 256 := b.toNat_lt
  rw [decide_not, ← contains_singleton a b]
  simp [contains, erase, hb]

@[simp]
theorem contains_complement (set : Charset) (byte : UInt8) :
    set.complement.contains byte = !set.contains byte := by
  have hb : byte.toNat < 256 := byte.toNat_lt
  simp [contains, complement, hb]

end Charset

end Packrat
