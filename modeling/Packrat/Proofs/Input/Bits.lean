import Mathlib.Tactic.Ring
import Packrat.Proofs.Plan.Bounded

/-!
# Proofs/Input/Bits — the input as a row of bits

`Input.leading n` is the number that the first `n` bits of the input spell, most significant first.
A read of bits is the tail of such a number: `readBits?_eq` says that `width` bits from a position
on are what is left of the leading `position + width` bits when all but `width` of them are dropped.
-/

namespace Packrat

/-! ## Bytes as numbers -/

/-- The bits of so many bytes are counted by a word. -/
theorem eight_mul_lt_wordBound {n : Nat} (h : n < 2 ^ 61) : 8 * n < wordBound := by
  rw [wordBound]
  omega

theorem foldl_eq_bigEndian (bytes : List UInt8) (n : Nat) :
    bytes.foldl (fun n b => n * 256 + b.toNat) n
      = n * 2 ^ (8 * bytes.length) + bigEndian bytes := by
  induction bytes generalizing n with
  | nil => simp [bigEndian]
  | cons b bytes ih =>
    rw [bigEndian, List.foldl_cons, List.foldl_cons, ih, ih, List.length_cons, Nat.mul_add 8,
      Nat.pow_add]
    ring

theorem bigEndian_append (front back : List UInt8) :
    bigEndian (front ++ back) = bigEndian front * 2 ^ (8 * back.length) + bigEndian back := by
  rw [bigEndian, List.foldl_append, foldl_eq_bigEndian]
  rfl

theorem bigEndian_lt (bytes : List UInt8) : bigEndian bytes < 2 ^ (8 * bytes.length) := by
  induction bytes with
  | nil => exact Nat.one_pos
  | cons b bytes ih =>
    have hb : b.toNat * 2 ^ (8 * bytes.length) ≤ 255 * 2 ^ (8 * bytes.length) :=
      Nat.mul_le_mul_right _ (Nat.le_of_lt_succ b.toNat_lt)
    rw [bigEndian, List.foldl_cons, foldl_eq_bigEndian, List.length_cons, Nat.mul_add 8,
      Nat.pow_add, Nat.zero_mul, Nat.zero_add]
    omega

/-! ## Leading bits -/

namespace Input

variable {input : Input}

/-- The number that the first `count` bits of the input spell. -/
def leading (input : Input) (count : Nat) : Nat :=
  bigEndian input.bytes.toList >>> (8 * input.bytes.size - count)

theorem leading_shiftRight {count more : Nat} (h : count + more ≤ 8 * input.bytes.size) :
    input.leading (count + more) >>> more = input.leading count := by
  have hmore : more ≤ 8 * input.bytes.size - count := Nat.le_sub_of_add_le' h
  rw [leading, leading, ← Nat.shiftRight_add, Nat.sub_add_eq, Nat.sub_add_cancel hmore]

/-- The leading bits of whole bytes. -/
theorem leading_bytes (count : Nat) :
    input.leading (8 * count) = bigEndian (input.bytes.toList.take count) := by
  have hlength : (input.bytes.toList.drop count).length = input.bytes.size - count := by simp
  have hback := bigEndian_lt (input.bytes.toList.drop count)
  rw [hlength] at hback
  rw [leading, ← Nat.mul_sub, Nat.shiftRight_eq_div_pow,
    ← List.take_append_drop count input.bytes.toList, bigEndian_append, hlength, Nat.mul_comm,
    Nat.mul_add_div (Nat.two_pow_pos _), Nat.div_eq_of_lt hback, Nat.add_zero,
    List.take_append_drop]

/-- A few of the low bits of a number, if all of them are looked at anyway. -/
theorem mod_shiftRight_mod {n bits skipped kept : Nat} (h : skipped + kept ≤ bits) :
    (n % 2 ^ bits) >>> skipped % 2 ^ kept = n >>> skipped % 2 ^ kept := by
  refine Nat.eq_of_testBit_eq fun i => ?_
  simp only [Nat.testBit_mod_two_pow, Nat.testBit_shiftRight]
  by_cases hi : i < kept
  · have : skipped + i < bits := by omega
    simp [this]
  · simp [hi]

/-- The bytes from `first` to `last` spell the tail of the leading bits. -/
theorem bigEndian_extract {first last : Nat} (hfirst : first ≤ last)
    (hlast : last ≤ input.bytes.size) :
    bigEndian (input.bytes.extract first last).toList
      = input.leading (8 * last) % 2 ^ (8 * (last - first)) := by
  have htake : input.bytes.toList.take last
      = input.bytes.toList.take first ++ (input.bytes.extract first last).toList := by
    rw [Array.toList_extract, List.extract_eq_take_drop, ← List.take_add]
    congr 1
    omega
  have hlength : (input.bytes.extract first last).toList.length = last - first := by
    simp only [Array.toList_extract, List.extract_eq_take_drop, List.length_take, List.length_drop,
      Array.length_toList]
    omega
  have hback := bigEndian_lt (input.bytes.extract first last).toList
  rw [hlength] at hback
  rw [leading_bytes, htake, bigEndian_append, hlength, Nat.mul_comm, Nat.mul_add_mod,
    Nat.mod_eq_of_lt hback]

/-- How many bytes the leading bits touch. -/
theorem bytesSpanned_ofBitPosition (bits : Nat) :
    (Cursor.ofBitPosition bits).bytesSpanned = (bits + 7) / 8 := by
  simp only [Cursor.bytesSpanned, Cursor.isAligned, Cursor.ofBitPosition, beq_iff_eq]
  split <;> omega

/-- **A read of bits answers with the tail of the leading bits**, if it ends in the window. -/
theorem readBits?_eq {start limit : Cursor} (width : Nat) (hlimit : limit.Spans input.stop) :
    input.readBits? start width limit =
      if start.bitPosition + width < wordBound ∧ start.bitPosition + width ≤ limit.bitPosition then
        some (input.leading (start.bitPosition + width) % 2 ^ width,
          .ofBitPosition (start.bitPosition + width))
      else none := by
  have hbit : (Cursor.ofBitPosition (start.bitPosition + width)).bit < 8 := Nat.mod_lt _ (by decide)
  have hle := Cursor.le_iff_bitPosition_le hbit hlimit.left
  have hle' := Cursor.le_iff_bitPosition_le hbit hlimit.right
  have hstop : limit.bitPosition ≤ 8 * input.bytes.size := hlimit.bitPosition_le
  have hstart : 8 * start.byte ≤ start.bitPosition := Nat.le_add_right ..
  rw [Cursor.bitPosition_ofBitPosition] at hle hle'
  by_cases hsize : start.bitPosition + width < wordBound
  · by_cases hfit : start.bitPosition + width ≤ limit.bitPosition
    · have hraw : (bigEndian (input.bytes.extract start.byte
          ((start.bitPosition + width + 7) / 8)).toList
            >>> (8 * ((start.bitPosition + width + 7) / 8) - (start.bitPosition + width)))
              % (1 <<< width) = input.leading (start.bitPosition + width) % 2 ^ width := by
        generalize hlast : (start.bitPosition + width + 7) / 8 = last
        obtain ⟨behind, hbehind⟩ : ∃ behind, 8 * last = start.bitPosition + width + behind :=
          ⟨8 * last - (start.bitPosition + width), by omega⟩
        rw [bigEndian_extract (by omega) (by omega), Nat.one_shiftLeft,
          mod_shiftRight_mod (by omega), hbehind, Nat.add_sub_cancel_left,
          leading_shiftRight (by omega)]
      rw [if_pos ⟨hsize, hfit⟩, readBits?, Cursor.advanceBits?, if_pos hsize]
      simp only [bind, pure, guard_eq_ite, Option.bind_some, if_pos (And.intro (hle.2 hfit)
        (hle'.2 (Nat.le_trans hfit hstop))), bytesSpanned_ofBitPosition,
        Cursor.bitPosition_ofBitPosition, hraw]
    · have hlimit : ¬Cursor.ofBitPosition (start.bitPosition + width) ≤ limit := mt hle.1 hfit
      rw [if_neg fun h => hfit h.2, readBits?, Cursor.advanceBits?, if_pos hsize]
      simp only [bind, guard_eq_ite, Option.bind_some, hlimit, false_and, if_false,
        Option.bind_none]
  · rw [if_neg fun h => hsize h.1, readBits?, Cursor.advanceBits?, if_neg hsize]
    rfl

end Input

end Packrat
