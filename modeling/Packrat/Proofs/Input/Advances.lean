import Packrat.Proofs.Input.Machine

/-!
# Proofs/Input/Advances — cursors advance as numbers of bits do

A cursor below `2 ^ 61` bytes is its bit position, and that is a word (`Cursor.InWords`): cursors
compare as positions do, and to advance is to add, up to the last word. A machine does so in words
of 64 bits, and no sum that it leaves unchecked overflows (`Machine.advanceBits?_eq`,
`Machine.carrying_eq`). Main statement: `Cursor.advances_by_bits`.
-/

namespace Packrat

namespace Cursor

variable {c d e : Cursor} {a b n : Nat}

/-! ## Cursors whose bit position is a word -/

/-- The cursor is one of an input whose bits can be counted in words. -/
structure InWords (c : Cursor) : Prop where
  bit_lt : c.bit < 8
  byte_lt : c.byte < 2 ^ 61

theorem InWords.bitPosition_lt (h : c.InWords) : c.bitPosition < wordBound := by
  obtain ⟨hbit, hbyte⟩ := h
  rw [bitPosition, wordBound]
  omega

/-- Every word is the bit position of such a cursor. -/
theorem inWords_ofBitPosition (h : n < wordBound) : (ofBitPosition n).InWords := by
  rw [wordBound] at h
  exact ⟨Nat.mod_lt _ (by decide), by simp only [ofBitPosition]; omega⟩

/-- **Cursors compare as their bit positions do.** -/
theorem compare_eq (hc : c.bit < 8) (hd : d.bit < 8) :
    compare c d = compare c.bitPosition d.bitPosition := by
  change (compare c.byte d.byte).then (compare c.bit d.bit) = _
  rcases Nat.lt_trichotomy c.byte d.byte with hbyte | hbyte | hbyte
  · have hpos : c.bitPosition < d.bitPosition := (lt_iff_bitPosition_lt hc hd).1 (.inl hbyte)
    rw [Nat.compare_eq_lt.2 hbyte, Nat.compare_eq_lt.2 hpos]
    rfl
  · rw [bitPosition, bitPosition, hbyte, Nat.compare_eq_eq.2 rfl, Ordering.eq_then]
    simp only [Nat.compare_eq_ite_lt, Nat.add_lt_add_iff_left]
  · have hpos : d.bitPosition < c.bitPosition := (lt_iff_bitPosition_lt hd hc).1 (.inl hbyte)
    rw [Nat.compare_eq_gt.2 hbyte, Nat.compare_eq_gt.2 hpos]
    rfl

/-! ## Advances -/

/-- Where an advance by bits comes to, which is a cursor in words again. -/
theorem of_advanceBits? (h : c.advanceBits? n = some e) :
    e.InWords ∧ e.bitPosition = c.bitPosition + n := by
  rw [advanceBits?, Option.ite_none_right_eq_some] at h
  obtain ⟨hword, h⟩ := h
  obtain rfl := Option.some.inj h
  exact ⟨inWords_ofBitPosition hword, bitPosition_ofBitPosition _⟩

/-- An advance by bytes keeps the bit. -/
theorem bit_of_advanceBytes? (h : c.advanceBytes? n = some e) : e.bit = c.bit := by
  rw [advanceBytes?, Option.ite_none_right_eq_some] at h
  obtain rfl := Option.some.inj h.2
  rfl

/-- **To advance twice is to advance by the sum**, to a word or not at all. -/
theorem advanceBits?_bind :
    (c.advanceBits? a).bind (·.advanceBits? b) = c.advanceBits? (a + b) := by
  by_cases hfirst : c.bitPosition + a < wordBound
  · rw [advanceBits?, if_pos hfirst, Option.bind_some, advanceBits?, bitPosition_ofBitPosition,
      advanceBits?, Nat.add_assoc]
  · have hboth : ¬c.bitPosition + (a + b) < wordBound := by omega
    rw [advanceBits?, if_neg hfirst, Option.bind_none, advanceBits?, if_neg hboth]

/-- **To advance by bytes is to advance by eight bits each**, but where the bit position is too
large for a word and the byte offset is not. -/
theorem advanceBytes?_eq_iff (hc : c.bit < 8) : c.advanceBytes? n = c.advanceBits? (8 * n) ↔
    c.bitPosition + 8 * n < wordBound ∨ wordBound ≤ c.byte + n := by
  have hpos : c.bitPosition + 8 * n = 8 * (c.byte + n) + c.bit := by
    rw [bitPosition]
    omega
  rw [advanceBytes?, advanceBits?]
  by_cases hbits : c.bitPosition + 8 * n < wordBound
  · have hbytes : c.byte + n < wordBound := by omega
    rw [if_pos hbits, if_pos hbytes, hpos]
    exact iff_of_true (congrArg some (ofBitPosition_bitPosition (c := ⟨c.byte + n, c.bit⟩) hc).symm)
      (.inl (hpos ▸ hbits))
  · rw [if_neg hbits, or_iff_right hbits, ite_eq_right_iff, ← Nat.not_lt]
    exact imp_congr_right fun _ => iff_of_false (Option.some_ne_none _) not_false

end Cursor

/-! ## Advances in a machine -/

namespace Machine

variable {c : Cursor}

/-- The cursor behind a number of bits; a machine checks the last sum only. -/
def advanceBits? (c : Cursor) (bits : Nat) : Except Fault (Option Cursor) := do
  let position ← bitPosition c
  if position + bits < wordBound then return some (.ofBitPosition (position + bits))
  else return none

/-- A byte offset and bits beyond it; a machine does not check the sum. -/
def carrying (byte bits : Nat) : Except Fault Cursor := do
  return ⟨← word (byte + bits / 8), bits % 8⟩

theorem advanceBits?_eq (h : c.InWords) (bits : Nat) :
    advanceBits? c bits = .ok (c.advanceBits? bits) := by
  rw [advanceBits?, bitPosition_of_lt h.bitPosition_lt, Cursor.advanceBits?]
  exact (apply_ite Except.ok ..).symm

theorem carrying_eq {byte bits : Nat} (h : byte + bits / 8 < wordBound) :
    carrying byte bits = .ok (.carrying byte bits) := by
  rw [carrying, word_of_lt h]
  rfl

end Machine

namespace Cursor

variable {c d : Cursor} {a b n : Nat}

/-- **Cursors move as their bit positions do.** Such cursors and words are each other's positions,
and compare alike. Two advances by bits are one by the sum: they come to the cursor at the position
behind them if that is a word, and to none otherwise. An advance by bytes is one by eight times as
many bits as long as the position is a word. Whatever comes of all this has a bit below eight, and
an advance ends in a window just if its position does. In a machine no sum overflows on the way. -/
theorem advances_by_bits (hc : c.InWords) (hd : d.InWords) (ha : a < wordBound) :
    (c.bitPosition < wordBound ∧ ofBitPosition c.bitPosition = c)
      ∧ ((ofBitPosition a).InWords ∧ (ofBitPosition a).bitPosition = a)
      ∧ (compare c d = compare c.bitPosition d.bitPosition
        ∧ (c ≤ d ↔ c.bitPosition ≤ d.bitPosition) ∧ (c < d ↔ c.bitPosition < d.bitPosition))
      ∧ ((c.advanceBits? a).bind (·.advanceBits? b)
          = (if c.bitPosition + a + b < wordBound then some (ofBitPosition (c.bitPosition + a + b))
            else none)
        ∧ (c.advanceBits? a).bind (·.advanceBits? b) = c.advanceBits? (a + b))
      ∧ (c.advanceBytes? n = c.advanceBits? (8 * n) ↔
        c.bitPosition + 8 * n < wordBound ∨ wordBound ≤ c.byte + n)
      ∧ ((∀ e, c.advanceBits? a = some e →
          e.InWords ∧ (e ≤ d ↔ c.bitPosition + a ≤ d.bitPosition))
        ∧ (∀ e, c.advanceBytes? n = some e → e.bit < 8)
        ∧ ∀ byte bits, (carrying byte bits).bit < 8)
      ∧ Machine.bitPosition c = .ok c.bitPosition
      ∧ Machine.advanceBits? c a = .ok (c.advanceBits? a)
      ∧ ∀ bits < 256, Machine.carrying c.byte bits = .ok (carrying c.byte bits) := by
  have hbyte := hc.byte_lt
  refine ⟨⟨hc.bitPosition_lt, ofBitPosition_bitPosition hc.bit_lt⟩,
    ⟨inWords_ofBitPosition ha, bitPosition_ofBitPosition a⟩,
    ⟨compare_eq hc.bit_lt hd.bit_lt, le_iff_bitPosition_le hc.bit_lt hd.bit_lt,
      lt_iff_bitPosition_lt hc.bit_lt hd.bit_lt⟩,
    ⟨?_, advanceBits?_bind⟩, advanceBytes?_eq_iff hc.bit_lt, ⟨fun e he => ?_, fun e he => ?_,
      fun byte bits => Nat.mod_lt _ (by decide)⟩,
    Machine.bitPosition_of_lt hc.bitPosition_lt, Machine.advanceBits?_eq hc a, fun bits hbits => ?_⟩
  · rw [advanceBits?_bind, advanceBits?, Nat.add_assoc]
  · obtain ⟨hwords, hpos⟩ := of_advanceBits? he
    exact ⟨hwords, by rw [le_iff_bitPosition_le hwords.bit_lt hd.bit_lt, hpos]⟩
  · rw [bit_of_advanceBytes? he]
    exact hc.bit_lt
  · exact Machine.carrying_eq (by rw [wordBound]; omega)

/-- Thirteen bits in front of the last one that words count. -/
def near : Cursor := ⟨2 ^ 61 - 2, 2⟩

/-- The last cursor whose bit position is a word. -/
def last : Cursor := ⟨2 ^ 61 - 1, 7⟩

/-- Six bits and eight more are too many together, and two bytes are so as bits only. -/
theorem advances_by_bits_near : near.InWords ∧ last.InWords ∧ 6 < wordBound ∧
    (near.bitPosition < wordBound ∧ ofBitPosition near.bitPosition = near)
      ∧ ((ofBitPosition 6).InWords ∧ (ofBitPosition 6).bitPosition = 6)
      ∧ (compare near last = compare near.bitPosition last.bitPosition
        ∧ (near ≤ last ↔ near.bitPosition ≤ last.bitPosition)
        ∧ (near < last ↔ near.bitPosition < last.bitPosition))
      ∧ ((near.advanceBits? 6).bind (·.advanceBits? 8)
          = (if near.bitPosition + 6 + 8 < wordBound then
              some (ofBitPosition (near.bitPosition + 6 + 8))
            else none)
        ∧ (near.advanceBits? 6).bind (·.advanceBits? 8) = near.advanceBits? (6 + 8))
      ∧ (near.advanceBytes? 2 = near.advanceBits? (8 * 2) ↔
        near.bitPosition + 8 * 2 < wordBound ∨ wordBound ≤ near.byte + 2)
      ∧ ((∀ e, near.advanceBits? 6 = some e →
          e.InWords ∧ (e ≤ last ↔ near.bitPosition + 6 ≤ last.bitPosition))
        ∧ (∀ e, near.advanceBytes? 2 = some e → e.bit < 8)
        ∧ ∀ byte bits, (carrying byte bits).bit < 8)
      ∧ Machine.bitPosition near = .ok near.bitPosition
      ∧ Machine.advanceBits? near 6 = .ok (near.advanceBits? 6)
      ∧ ∀ bits < 256, Machine.carrying near.byte bits = .ok (carrying near.byte bits) :=
  have hnear : near.InWords := ⟨by decide, by decide⟩
  have hlast : last.InWords := ⟨by decide, by decide⟩
  ⟨hnear, hlast, by decide, advances_by_bits hnear hlast (by decide)⟩

example : (near.advanceBits? 6).bind (·.advanceBits? 7) = some last := by decide

example : (near.advanceBits? 6).bind (·.advanceBits? 8) = none := by decide

end Cursor

end Packrat
