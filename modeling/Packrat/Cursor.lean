/-!
# Cursor — positions in the input, down to the bit

A `Cursor` is a byte offset and a bit offset inside that byte; bits count from the most significant
one. Cursors are ordered by byte, then by bit. `Cursor.bitPosition` flattens a cursor to a number of
bits, and the two checked advances work in 64-bit counts: they answer `none` where the count would
overflow.
-/

namespace Packrat

/-- Sizes, offsets and unsigned words lie below this bound. -/
def wordBound : Nat := 0x10000000000000000

/-- Signed words lie below this bound, and not below its negative. -/
def signedWordBound : Nat := 0x8000000000000000

/-- A position in the input. -/
@[ext]
structure Cursor where
  /-- Offset of the current byte. -/
  byte : Nat
  /-- Offset inside the current byte, below `8` in every cursor that matching produces. -/
  bit : Nat
deriving DecidableEq, Repr, Inhabited

namespace Cursor

/-! ## Making cursors -/

/-- The start of the input. -/
def start : Cursor := ⟨0, 0⟩

/-- The boundary in front of a byte. -/
def atByte (byte : Nat) : Cursor := ⟨byte, 0⟩

/-- A byte offset and a count of bits beyond it, whole bytes of which are carried. -/
def carrying (byte bits : Nat) : Cursor := ⟨byte + bits / 8, bits % 8⟩

/-- The cursor a number of bits behind the start of the input. -/
def ofBitPosition (bits : Nat) : Cursor := ⟨bits / 8, bits % 8⟩

/-! ## Order -/

instance : LE Cursor := ⟨fun a b => a.byte < b.byte ∨ a.byte = b.byte ∧ a.bit ≤ b.bit⟩

instance : LT Cursor := ⟨fun a b => a.byte < b.byte ∨ a.byte = b.byte ∧ a.bit < b.bit⟩

theorem le_def {a b : Cursor} : a ≤ b ↔ a.byte < b.byte ∨ a.byte = b.byte ∧ a.bit ≤ b.bit := .rfl

theorem lt_def {a b : Cursor} : a < b ↔ a.byte < b.byte ∨ a.byte = b.byte ∧ a.bit < b.bit := .rfl

instance (a b : Cursor) : Decidable (a ≤ b) := decidable_of_iff' _ le_def

instance (a b : Cursor) : Decidable (a < b) := decidable_of_iff' _ lt_def

instance : Ord Cursor := ⟨compareLex (compareOn byte) (compareOn bit)⟩

instance : Std.TransOrd Cursor :=
  inferInstanceAs (Std.TransCmp (compareLex (compareOn byte) (compareOn bit)))

instance : Std.LawfulEqOrd Cursor where
  eq_of_compare h := by
    obtain ⟨hbyte, hbit⟩ := Ordering.then_eq_eq.1 h
    exact Cursor.ext (Std.LawfulEqOrd.eq_of_compare hbyte) (Std.LawfulEqOrd.eq_of_compare hbit)

instance : Max Cursor := maxOfLe

instance : Std.IsLinearOrder Cursor := by
  refine Std.IsLinearOrder.of_le ⟨fun a b h h' => ?_⟩ ⟨fun {a b c} h h' => ?_⟩ ⟨fun a b => ?_⟩
  · rw [le_def] at h h'
    ext <;> omega
  · rw [le_def] at *
    omega
  · rw [le_def, le_def]
    omega

instance : Std.LawfulOrderLT Cursor := ⟨fun a b => by rw [le_def, le_def, lt_def]; omega⟩

instance : Std.LawfulOrderLeftLeaningMax Cursor where
  max_eq_left a b h := by
    change (if a ≤ b then b else a) = a
    split
    · exact Std.le_antisymm h ‹_›
    · rfl
  max_eq_right a b h := if_pos (Std.le_of_not_ge h)

/-! ## Positions and advances -/

/-- Whether the cursor stands on a byte boundary. -/
def isAligned (c : Cursor) : Bool := c.bit == 0

/-- Number of bits in front of the cursor. -/
def bitPosition (c : Cursor) : Nat := 8 * c.byte + c.bit

/-- The cursor a number of bits further on, unless its bit position overflows. -/
def advanceBits? (c : Cursor) (bits : Nat) : Option Cursor :=
  if c.bitPosition + bits < wordBound then some (ofBitPosition (c.bitPosition + bits)) else none

/-- The cursor a number of bytes further on at the same bit, unless its byte offset overflows. -/
def advanceBytes? (c : Cursor) (bytes : Nat) : Option Cursor :=
  if c.byte + bytes < wordBound then some ⟨c.byte + bytes, c.bit⟩ else none

/-- Number of bytes in front of the cursor, a partial one included. -/
def bytesSpanned (c : Cursor) : Nat := if c.isAligned then c.byte else c.byte + 1

/-- The cursor as text; the bit shows only off a byte boundary. -/
def toText (c : Cursor) : String :=
  if c.isAligned then s!"byte {c.byte}" else s!"byte {c.byte}, bit {c.bit}"

instance : ToString Cursor := ⟨toText⟩

/-! ## Cursors as numbers of bits -/

@[simp]
theorem bitPosition_atByte (byte : Nat) : (atByte byte).bitPosition = 8 * byte := rfl

@[simp]
theorem bitPosition_carrying (byte bits : Nat) :
    (carrying byte bits).bitPosition = 8 * byte + bits := by
  simp only [bitPosition, carrying]
  omega

@[simp]
theorem bitPosition_ofBitPosition (bits : Nat) : (ofBitPosition bits).bitPosition = bits :=
  Nat.div_add_mod bits 8

/-- A cursor between bytes, or inside one, is determined by its bit position. -/
theorem ofBitPosition_bitPosition {c : Cursor} (h : c.bit < 8) :
    ofBitPosition c.bitPosition = c := by
  ext <;> simp only [ofBitPosition, bitPosition] <;> omega

/-- The order of cursors is that of their bit positions. -/
theorem le_iff_bitPosition_le {a b : Cursor} (ha : a.bit < 8) (hb : b.bit < 8) :
    a ≤ b ↔ a.bitPosition ≤ b.bitPosition := by
  simp only [le_def, bitPosition]
  omega

/-- The strict order of cursors is that of their bit positions. -/
theorem lt_iff_bitPosition_lt {a b : Cursor} (ha : a.bit < 8) (hb : b.bit < 8) :
    a < b ↔ a.bitPosition < b.bitPosition := by
  simp only [lt_def, bitPosition]
  omega

end Cursor

end Packrat
