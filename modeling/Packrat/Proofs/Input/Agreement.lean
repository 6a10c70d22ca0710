import Packrat.Proofs.Input.Machine

/-!
# Proofs/Input/Agreement — inputs that are the same up to a cursor

Two inputs *agree* up to a cursor when both reach as far and have the same bits in front of it
(`Input.Agree`). The cursor may stand inside a byte, and then the rest of that byte may differ. What
is read in a window that ends by the cursor is the same in both: the numbers that bits spell, bytes,
and strings of bytes.
-/

namespace Packrat.Input

variable {input input' : Input} {limit : Cursor}

/-! ## Bits -/

/-- The bit at a position; the most significant bit of a byte stands first. -/
def bit? (input : Input) (position : Nat) : Option Bool :=
  input.bytes[position / 8]?.map fun b => b.toNat.testBit (7 - position % 8)

theorem exists_bit? {position : Nat} (h : position < 8 * input.bytes.size) :
    ∃ b, input.bit? position = some b := by
  rw [bit?, Array.getElem?_eq_getElem (show position / 8 < input.bytes.size by omega)]
  exact ⟨_, rfl⟩

/-- One more leading bit. -/
theorem leading_succ {position : Nat} {b : Bool} (hb : input.bit? position = some b) :
    input.leading (position + 1) = 2 * input.leading position + b.toNat := by
  obtain ⟨byte, hbyte, rfl⟩ := Option.map_eq_some_iff.1 hb
  obtain ⟨hsize, -⟩ := Array.getElem?_eq_some_iff.1 hbyte
  have hchunk := Machine.chunk_eq hbyte (show 1 ≤ 8 - position % 8 by omega)
  have hlast : input.leading (position + 1) % 2
      = (byte.toNat.testBit (7 - position % 8)).toNat := by
    rw [Nat.toNat_testBit, ← Nat.shiftRight_eq_div_pow, ← Nat.pow_one 2, ← hchunk,
      Nat.one_shiftLeft, Nat.and_two_pow_sub_one_eq_mod]
    congr 2
    omega
  have hfront : input.leading (position + 1) / 2 = input.leading position :=
    leading_shiftRight (show position + 1 ≤ 8 * input.bytes.size by omega)
  rw [← hlast, ← hfront]
  omega

/-- The bits of a byte. -/
theorem testBit_byte {k i : Nat} {b : UInt8} (hb : input.bytes[k]? = some b) (hi : i < 8) :
    input.bit? (8 * k + (7 - i)) = some (b.toNat.testBit i) := by
  have hindex : (8 * k + (7 - i)) / 8 = k := by omega
  have hbit : 7 - (8 * k + (7 - i)) % 8 = i := by omega
  rw [bit?, hindex, hb, Option.map_some, hbit]

/-! ## Agreement -/

/-- Both inputs reach as far as the cursor, and the bits in front of it are the same. -/
structure Agree (limit : Cursor) (input input' : Input) : Prop where
  left : limit.Spans input.stop
  right : limit.Spans input'.stop
  bits : ∀ position < limit.bitPosition, input.bit? position = input'.bit? position

namespace Agree

theorem refl (h : limit.Spans input.stop) : Agree limit input input := ⟨h, h, fun _ _ => rfl⟩

theorem symm (h : Agree limit input input') : Agree limit input' input :=
  ⟨h.right, h.left, fun position hp => (h.bits position hp).symm⟩

/-- Inputs that agree, agree in every window that ends no later. -/
theorem narrow (h : Agree limit input input') {window : Cursor} (hwindow : window.Spans limit) :
    Agree window input input' :=
  ⟨hwindow.trans h.left, hwindow.trans h.right,
    fun position hp => h.bits position (Nat.lt_of_lt_of_le hp hwindow.bitPosition_le)⟩

/-- The leading bits spell the same number. -/
theorem leading_eq (h : Agree limit input input') {count : Nat}
    (hcount : count ≤ limit.bitPosition) : input.leading count = input'.leading count := by
  induction count with
  | zero => rw [← Nat.mul_zero 8, leading_bytes, leading_bytes, List.take_zero, List.take_zero]
  | succ count ih =>
    have hsize : limit.bitPosition ≤ 8 * input.bytes.size := h.left.bitPosition_le
    obtain ⟨b, hb⟩ := exists_bit? (show count < 8 * input.bytes.size by omega)
    rw [leading_succ hb, leading_succ ((h.bits count hcount).symm.trans hb), ih (by omega)]

/-- Bytes that end in front of the cursor are the same. -/
theorem getElem?_eq (h : Agree limit input input') {k : Nat}
    (hk : 8 * (k + 1) ≤ limit.bitPosition) : input.bytes[k]? = input'.bytes[k]? := by
  have hsize : limit.bitPosition ≤ 8 * input.bytes.size := h.left.bitPosition_le
  have hsize' : limit.bitPosition ≤ 8 * input'.bytes.size := h.right.bitPosition_le
  have hb := Array.getElem?_eq_getElem (show k < input.bytes.size by omega)
  have hb' := Array.getElem?_eq_getElem (show k < input'.bytes.size by omega)
  rw [hb, hb', Option.some_inj, ← UInt8.toNat_inj]
  refine Nat.eq_of_testBit_eq fun i => ?_
  by_cases hi : i < 8
  · have hbit := h.bits (8 * k + (7 - i)) (by omega)
    rw [testBit_byte hb hi, testBit_byte hb' hi] at hbit
    exact Option.some.inj hbit
  · have hpow : 2 ^ 8 ≤ 2 ^ i := Nat.pow_le_pow_right (by decide) (by omega)
    rw [Nat.testBit_lt_two_pow (Nat.lt_of_lt_of_le (UInt8.toNat_lt _) hpow),
      Nat.testBit_lt_two_pow (Nat.lt_of_lt_of_le (UInt8.toNat_lt _) hpow)]

theorem extract_eq (h : Agree limit input input') {first last : Nat}
    (hlast : 8 * last ≤ limit.bitPosition) :
    input.bytes.extract first last = input'.bytes.extract first last := by
  have hsize : limit.bitPosition ≤ 8 * input.bytes.size := h.left.bitPosition_le
  have hsize' : limit.bitPosition ≤ 8 * input'.bytes.size := h.right.bitPosition_le
  refine Array.ext_getElem? fun i => ?_
  rw [Array.getElem?_extract, Array.getElem?_extract,
    Nat.min_eq_left (show last ≤ input.bytes.size by omega),
    Nat.min_eq_left (show last ≤ input'.bytes.size by omega)]
  refine if_ctx_congr .rfl (fun hi => ?_) fun _ => rfl
  exact h.getElem?_eq (by omega)

/-! ## Reads -/

theorem byteAt?_eq (h : Agree limit input input') (start : Cursor) :
    input.byteAt? start limit = input'.byteAt? start limit := by
  have hread : ∀ b, input.byteAt? start limit = some b ↔ input'.byteAt? start limit = some b := by
    intro b
    rw [byteAt?_eq_some, byteAt?_eq_some]
    refine and_congr_right fun _ => and_congr_right fun _ => and_congr_right fun hlimit => ?_
    have hk := (Cursor.le_iff_bitPosition_le (Nat.succ_pos 7) h.left.left).1 hlimit
    rw [h.getElem?_eq hk]
  exact Option.ext hread

theorem bytesAt?_eq (h : Agree limit input input') (start : Cursor) (count : Nat) :
    input.bytesAt? start count limit = input'.bytesAt? start count limit := by
  have hread : ∀ found, input.bytesAt? start count limit = some found ↔
      input'.bytesAt? start count limit = some found := by
    intro found
    rw [bytesAt?_eq_some, bytesAt?_eq_some]
    refine and_congr_right fun _ => and_congr_right fun _ => and_congr_right fun hlimit => ?_
    have hk : 8 * (start.byte + count) ≤ limit.bitPosition :=
      (Cursor.le_iff_bitPosition_le (Nat.succ_pos 7) h.left.left).1 hlimit
    rw [h.extract_eq hk, iff_true_intro (Std.le_trans hlimit h.left.le),
      iff_true_intro (Std.le_trans hlimit h.right.le)]
  exact Option.ext hread

theorem readBits?_eq (h : Agree limit input input') (start : Cursor) (width : Nat) :
    input.readBits? start width limit = input'.readBits? start width limit := by
  rw [Input.readBits?_eq width h.left, Input.readBits?_eq width h.right]
  refine if_ctx_congr .rfl (fun hfit => ?_) fun _ => rfl
  rw [h.leading_eq hfit.2]

end Agree

end Packrat.Input
