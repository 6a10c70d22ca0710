import Packrat.Proofs.Input.Bits

/-!
# Proofs/Input/Shift — reading behind the first bytes

`Input.drop k` is the input without its first `k` bytes. A place in it is the place `k` bytes
further on in the whole (`Cursor.shift`), and what is read at the two places is the same, in windows
whose ends are the same place.
-/

namespace Packrat

variable {υ : Type} {k : Nat}

/-! ## Places -/

/-- The place so many bytes further on. -/
def Cursor.shift (k : Nat) (c : Cursor) : Cursor := ⟨c.byte + k, c.bit⟩

namespace Cursor

variable {a b c : Cursor}

@[simp] theorem byte_shift : (c.shift k).byte = c.byte + k := rfl
@[simp] theorem bit_shift : (c.shift k).bit = c.bit := rfl

theorem bitPosition_shift : (c.shift k).bitPosition = c.bitPosition + 8 * k := by
  simp only [bitPosition, byte_shift, bit_shift]
  omega

theorem shift_atByte (n : Nat) : (atByte n).shift k = atByte (n + k) := rfl

theorem shift_ofBitPosition (bits : Nat) :
    (ofBitPosition bits).shift k = ofBitPosition (bits + 8 * k) := by
  ext <;> simp only [ofBitPosition, byte_shift, bit_shift] <;> omega

theorem shift_le_shift : a.shift k ≤ b.shift k ↔ a ≤ b := by
  simp only [le_def, byte_shift, bit_shift]
  omega

theorem shift_lt_shift : a.shift k < b.shift k ↔ a < b := by
  simp only [lt_def, byte_shift, bit_shift]
  omega

theorem shift_inj : a.shift k = b.shift k ↔ a = b := by
  simp only [Cursor.ext_iff, byte_shift, bit_shift]
  omega

theorem max_shift : max (a.shift k) (b.shift k) = (max a b).shift k := by
  change (if a.shift k ≤ b.shift k then b.shift k else a.shift k) = (if a ≤ b then b else a).shift k
  rw [apply_ite (Cursor.shift k)]
  exact ite_congr (propext shift_le_shift) (fun _ => rfl) fun _ => rfl

theorem bytesSpanned_shift : (c.shift k).bytesSpanned = c.bytesSpanned + k := by
  by_cases h : c.bit = 0 <;> simp [bytesSpanned, isAligned, h, Nat.add_right_comm]

end Cursor

/-! ## Reads -/

namespace Input

variable {input : Input} {start limit : Cursor}

/-- The input without its first bytes. -/
def drop (k : Nat) (input : Input) : Input := ⟨input.bytes.extract k input.bytes.size⟩

theorem size_drop : (input.drop k).bytes.size = input.bytes.size - k := by
  simp [drop]

theorem shift_stop_drop (hk : k ≤ input.bytes.size) : (input.drop k).stop.shift k = input.stop := by
  rw [stop, stop, size_drop, Cursor.shift_atByte, Nat.sub_add_cancel hk]

theorem getElem?_drop (i : Nat) : (input.drop k).bytes[i]? = input.bytes[i + k]? := by
  rw [drop, Array.getElem?_extract, Nat.min_self, Nat.add_comm k i]
  split
  · rfl
  · exact (Array.getElem?_eq_none (by omega)).symm

theorem extract_drop {first last : Nat} (hlast : last + k ≤ input.bytes.size) :
    (input.drop k).bytes.extract first last = input.bytes.extract (first + k) (last + k) := by
  rw [drop, Array.extract_extract]
  congr 1 <;> omega

theorem byteAt?_shift (hsize : input.bytes.size < wordBound) :
    input.byteAt? (start.shift k) (limit.shift k) = (input.drop k).byteAt? start limit := by
  refine Option.ext fun b => ?_
  rw [byteAt?_eq_some, byteAt?_eq_some, getElem?_drop, Cursor.byte_shift, Cursor.bit_shift,
    Nat.add_right_comm, ← Cursor.shift_atByte, Cursor.shift_le_shift]
  refine ⟨fun ⟨hword, hrest⟩ => ⟨by omega, hrest⟩, fun ⟨_, hbit, hlimit, hb⟩ => ?_⟩
  obtain ⟨hfit, -⟩ := Array.getElem?_eq_some_iff.1 hb
  exact ⟨by omega, hbit, hlimit, hb⟩

theorem bytesAt?_shift (hk : k ≤ input.bytes.size) (hsize : input.bytes.size < wordBound)
    (count : Nat) : input.bytesAt? (start.shift k) count (limit.shift k)
      = (input.drop k).bytesAt? start count limit := by
  refine Option.ext fun found => ?_
  rw [bytesAt?_eq_some, bytesAt?_eq_some, Cursor.byte_shift, Cursor.bit_shift, Nat.add_right_comm,
    ← Cursor.shift_atByte, Cursor.shift_le_shift, ← shift_stop_drop hk, Cursor.shift_le_shift]
  have hfit : Cursor.atByte (start.byte + count) ≤ (input.drop k).stop →
      start.byte + count + k ≤ input.bytes.size := by
    rw [Cursor.le_def, stop, size_drop]
    simp only [Cursor.atByte]
    omega
  constructor
  · rintro ⟨hword, hbit, hlimit, hstop, hfound⟩
    rw [← extract_drop (hfit hstop)] at hfound
    exact ⟨by omega, hbit, hlimit, hstop, hfound⟩
  · rintro ⟨-, hbit, hlimit, hstop, hfound⟩
    have hend := hfit hstop
    rw [extract_drop hend] at hfound
    exact ⟨by omega, hbit, hlimit, hstop, hfound⟩

/-- A read of bits answers with some of the bits that the touched bytes spell. -/
theorem readBits?_eq_some {width raw : Nat} {stop : Cursor} :
    input.readBits? start width limit = some (raw, stop) ↔
      start.bitPosition + width < wordBound ∧ stop ≤ limit ∧ stop ≤ input.stop
        ∧ stop = .ofBitPosition (start.bitPosition + width)
        ∧ (bigEndian (input.bytes.extract start.byte stop.bytesSpanned).toList
            >>> (8 * stop.bytesSpanned - stop.bitPosition)) % (1 <<< width) = raw := by
  simp only [readBits?, Cursor.advanceBits?, bind, pure, ↓guard_eq_ite, Option.bind_eq_some_iff,
    Option.ite_none_right_eq_some, Option.some.injEq, Prod.mk.injEq]
  constructor
  · rintro ⟨_, ⟨hword, rfl⟩, _, ⟨⟨hlimit, hstop⟩, -⟩, rfl, rfl⟩
    exact ⟨hword, hlimit, hstop, rfl, rfl⟩
  · rintro ⟨hword, hlimit, hstop, rfl, rfl⟩
    exact ⟨_, ⟨hword, rfl⟩, (), ⟨⟨hlimit, hstop⟩, trivial⟩, rfl, rfl⟩

theorem readBits?_shift (hk : k ≤ input.bytes.size) (hsize : 8 * input.bytes.size < wordBound)
    (width : Nat) : input.readBits? (start.shift k) width (limit.shift k)
      = ((input.drop k).readBits? start width limit).map
        fun (raw, stop) => (raw, stop.shift k) := by
  refine Option.ext fun ⟨raw, stop⟩ => ?_
  simp only [Option.map_eq_some_iff, Prod.exists, Prod.mk.injEq, readBits?_eq_some,
    Cursor.bitPosition_shift, Cursor.byte_shift, Nat.add_right_comm _ (8 * k) width,
    ← Cursor.shift_ofBitPosition, ← shift_stop_drop hk]
  -- Both reads take the same bytes, and drop as many bits behind them.
  have hsame : ∀ c : Cursor, c ≤ (input.drop k).stop →
      c = .ofBitPosition (start.bitPosition + width) →
      start.bitPosition + width + 8 * k < wordBound
        ∧ bigEndian (input.bytes.extract (start.byte + k) (c.shift k).bytesSpanned).toList
            >>> (8 * (c.shift k).bytesSpanned - (c.shift k).bitPosition)
          = bigEndian ((input.drop k).bytes.extract start.byte c.bytesSpanned).toList
            >>> (8 * c.bytesSpanned - c.bitPosition) := by
    rintro c hc rfl
    have hfit : (start.bitPosition + width + 7) / 8 + k ≤ input.bytes.size := by
      rw [Cursor.le_def, Input.stop, size_drop] at hc
      simp only [Cursor.ofBitPosition, Cursor.atByte] at hc
      omega
    refine ⟨by omega, ?_⟩
    rw [Cursor.bytesSpanned_shift, Cursor.bitPosition_shift, bytesSpanned_ofBitPosition,
      extract_drop hfit]
    congr 1
    omega
  constructor
  · rintro ⟨-, hlimit, hstop, rfl, hraw⟩
    rw [Cursor.shift_le_shift] at hlimit hstop
    obtain ⟨hword, hread⟩ := hsame _ hstop rfl
    rw [hread] at hraw
    exact ⟨raw, _, ⟨by omega, hlimit, hstop, rfl, hraw⟩, rfl, rfl⟩
  · rintro ⟨_, c, ⟨-, hlimit, hstop, hc, hraw⟩, rfl, rfl⟩
    obtain ⟨hword, hread⟩ := hsame c hstop hc
    rw [← hread] at hraw
    exact ⟨hword, Cursor.shift_le_shift.2 hlimit, Cursor.shift_le_shift.2 hstop,
      Cursor.shift_inj.2 hc, hraw⟩

end Input

end Packrat
