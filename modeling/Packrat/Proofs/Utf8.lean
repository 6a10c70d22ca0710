import Packrat.Utf8

/-!
# Proofs/Utf8 — reading text that is text

Lossy reading loses nothing where there is nothing to lose: bytes that spell a text are read as that
text (`Utf8.decodeLossy_encode`), so they can be had back from it.
-/

namespace Packrat.Utf8

/-- The bytes that spell a text. -/
def encode (text : String) : List UInt8 := text.toByteArray.data.toList

theorem encode_eq_flatMap (text : String) :
    encode text = text.toList.flatMap String.utf8EncodeChar := by
  rw [encode, ← String.utf8Encode_toList, List.utf8Encode, List.data_toByteArray]

/-! ## One byte -/

theorem start_one {b : UInt8} (h : b.toNat < 0x80) : start b = .inl (.ofNat b.toNat) := if_pos h

theorem start_two {b : UInt8} (h : 0xc2 ≤ b.toNat) (h' : b.toNat < 0xe0) :
    start b = .inr { code := b.toNat - 0xc0, later := 0 } := by
  rw [start, if_neg (by omega), if_neg (by omega), if_pos h']

/-- Three bytes: shorter spellings and surrogates are ruled out by the second. -/
theorem start_three {b : UInt8} (h : 0xe0 ≤ b.toNat) (h' : b.toNat < 0xf0) :
    start b = .inr { code := b.toNat - 0xe0, later := 1
                     low := if b.toNat = 0xe0 then 0xa0 else 0x80
                     high := if b.toNat = 0xed then 0x9f else 0xbf } := by
  rw [start, if_neg (by omega), if_neg (by omega), if_neg (by omega), if_pos h']
  split
  · next he => rw [he, if_neg (by decide)]
  · split
    · next he => rw [he]
    · rfl

/-- Four bytes: shorter spellings and numbers too large are ruled out by the second. -/
theorem start_four {b : UInt8} (h : 0xf0 ≤ b.toNat) (h' : b.toNat ≤ 0xf4) :
    start b = .inr { code := b.toNat - 0xf0, later := 2
                     low := if b.toNat = 0xf0 then 0x90 else 0x80
                     high := if b.toNat = 0xf4 then 0x8f else 0xbf } := by
  rw [start, if_neg (by omega), if_neg (by omega), if_neg (by omega), if_neg (by omega),
    if_neg (by omega), if_neg (by omega)]
  split
  · next he => rw [he]; rfl
  · split
    · rw [if_neg (by omega)]
    · rw [if_pos (by omega), show b.toNat = 0xf4 by omega]
      rfl

/-- A byte that starts a character of its own. -/
theorem step_single {done : List Char} {b : UInt8} {c : Char} (h : start b = .inl c) :
    step (done, none) b = (c :: done, none) := by
  rw [step, step.fresh, h]

/-- A byte that starts a longer character. -/
theorem step_first {done : List Char} {b : UInt8} {p : Pending} (h : start b = .inr p) :
    step (done, none) b = (done, some p) := by
  rw [step, step.fresh, h]

/-- The last byte of a longer character. -/
theorem step_last {done : List Char} {b low high : UInt8} {code : Nat}
    (hlow : low.toNat ≤ b.toNat) (hhigh : b.toNat ≤ high.toNat) :
    step (done, some ⟨code, 0, low, high⟩) b
      = (.ofNat (code * 64 + (b.toNat - 0x80)) :: done, none) := by
  rw [step, if_pos ⟨UInt8.le_iff_toNat_le.2 hlow, UInt8.le_iff_toNat_le.2 hhigh⟩]
  rfl

/-- A byte further on in a longer character. -/
theorem step_next {done : List Char} {b low high : UInt8} {code later : Nat}
    (hlow : low.toNat ≤ b.toNat) (hhigh : b.toNat ≤ high.toNat) :
    step (done, some ⟨code, later + 1, low, high⟩) b
      = (done, some { code := code * 64 + (b.toNat - 0x80), later }) := by
  rw [step, if_pos ⟨UInt8.le_iff_toNat_le.2 hlow, UInt8.le_iff_toNat_le.2 hhigh⟩]
  rfl

/-! ## One character -/

section Spelling

variable {done : List Char} {a b c d : UInt8} {w x y z : Nat}

theorem foldl_two (ha : a.toNat = x + 0xc0) (hb : b.toNat = y + 0x80) (hx : 2 ≤ x ∧ x < 0x20)
    (hy : y < 0x40) : [a, b].foldl step (done, none) = (.ofNat (x * 64 + y) :: done, none) := by
  rw [List.foldl_cons, List.foldl_cons, List.foldl_nil,
    step_first (start_two (by omega) (by omega)), step_last ?low ?high, ha, hb,
    Nat.add_sub_cancel, Nat.add_sub_cancel]
  case low => change 0x80 ≤ b.toNat; omega
  case high => change b.toNat ≤ 0xbf; omega

theorem foldl_three (ha : a.toNat = x + 0xe0) (hb : b.toNat = y + 0x80) (hc : c.toNat = z + 0x80)
    (hx : x < 0x10) (hy : y < 0x40) (hz : z < 0x40) (hshort : x = 0 → 0x20 ≤ y)
    (hsurrogate : x = 0xd → y < 0x20) :
    [a, b, c].foldl step (done, none) = (.ofNat ((x * 64 + y) * 64 + z) :: done, none) := by
  rw [List.foldl_cons, List.foldl_cons, List.foldl_cons, List.foldl_nil,
    step_first (start_three (by omega) (by omega)), step_next ?low ?high, step_last ?low' ?high',
    ha, hb, hc, Nat.add_sub_cancel, Nat.add_sub_cancel, Nat.add_sub_cancel]
  case low =>
    split
    · change 0xa0 ≤ b.toNat; omega
    · change 0x80 ≤ b.toNat; omega
  case high =>
    split
    · change b.toNat ≤ 0x9f; omega
    · change b.toNat ≤ 0xbf; omega
  case low' => change 0x80 ≤ c.toNat; omega
  case high' => change c.toNat ≤ 0xbf; omega

theorem foldl_four (ha : a.toNat = w + 0xf0) (hb : b.toNat = x + 0x80) (hc : c.toNat = y + 0x80)
    (hd : d.toNat = z + 0x80) (hw : w ≤ 4) (hx : x < 0x40) (hy : y < 0x40) (hz : z < 0x40)
    (hshort : w = 0 → 0x10 ≤ x) (hlarge : w = 4 → x < 0x10) :
    [a, b, c, d].foldl step (done, none)
      = (.ofNat (((w * 64 + x) * 64 + y) * 64 + z) :: done, none) := by
  rw [List.foldl_cons, List.foldl_cons, List.foldl_cons, List.foldl_cons, List.foldl_nil,
    step_first (start_four (by omega) (by omega)), step_next ?low ?high, step_next ?low' ?high',
    step_last ?low'' ?high'', ha, hb, hc, hd, Nat.add_sub_cancel, Nat.add_sub_cancel,
    Nat.add_sub_cancel, Nat.add_sub_cancel]
  case low =>
    split
    · change 0x90 ≤ b.toNat; omega
    · change 0x80 ≤ b.toNat; omega
  case high =>
    split
    · change b.toNat ≤ 0x8f; omega
    · change b.toNat ≤ 0xbf; omega
  case low' => change 0x80 ≤ c.toNat; omega
  case high' => change c.toNat ≤ 0xbf; omega
  case low'' => change 0x80 ≤ d.toNat; omega
  case high'' => change d.toNat ≤ 0xbf; omega

end Spelling

theorem toNat_ofNat {n : Nat} (h : n < 256) : (UInt8.ofNat n).toNat = n := Nat.mod_eq_of_lt h

/-- **The bytes of a character are read as that character.** -/
theorem foldl_step_char (done : List Char) (c : Char) :
    (String.utf8EncodeChar c).foldl step (done, none) = (c :: done, none) := by
  have hc : Char.ofNat c.val.toNat = c := Char.ofNat_toNat c
  have hvalid : c.val.toNat < 0xd800 ∨ 0xdfff < c.val.toNat ∧ c.val.toNat < 0x110000 := c.valid
  rw [String.utf8EncodeChar]
  generalize c.val.toNat = v at *
  split
  · have hv : (UInt8.ofNat v).toNat = v := toNat_ofNat (by omega)
    rw [List.foldl_cons, List.foldl_nil, step_single (start_one (by omega)), hv, hc]
  split
  · rw [foldl_two (toNat_ofNat (by omega)) (toNat_ofNat (by omega)) (by omega) (by omega),
      show v / 64 % 0x20 * 64 + v % 0x40 = v by omega, hc]
  split
  · rw [foldl_three (toNat_ofNat (by omega)) (toNat_ofNat (by omega)) (toNat_ofNat (by omega))
        (by omega) (by omega) (by omega) (by omega) (by omega),
      show (v / 4096 % 0x10 * 64 + v / 64 % 0x40) * 64 + v % 0x40 = v by omega, hc]
  · rw [foldl_four (toNat_ofNat (by omega)) (toNat_ofNat (by omega)) (toNat_ofNat (by omega))
        (toNat_ofNat (by omega)) (by omega) (by omega) (by omega) (by omega) (by omega)
        (by omega),
      show ((v / 262144 % 0x08 * 64 + v / 4096 % 0x40) * 64 + v / 64 % 0x40) * 64 + v % 0x40 = v by
        omega, hc]

/-! ## Texts -/

theorem foldl_step_chars (done chars : List Char) :
    (chars.flatMap String.utf8EncodeChar).foldl step (done, none)
      = (chars.reverse ++ done, none) := by
  induction chars generalizing done with
  | nil => rfl
  | cons c chars ih =>
    rw [List.flatMap_cons, List.foldl_append, foldl_step_char, ih, List.reverse_cons,
      List.append_assoc, List.singleton_append]

/-- **Bytes that spell a text are read as that text.** -/
theorem decodeLossy_encode (text : String) : decodeLossy (encode text) = text := by
  rw [decodeLossy, encode_eq_flatMap, foldl_step_chars]
  dsimp only
  rw [List.append_nil, List.reverse_reverse, String.ofList_toList]

/-- Bytes without a fault spell the text that they are read as. -/
theorem encode_decodeLossy {bytes : List UInt8} (h : (decode? bytes).isSome) :
    encode (decodeLossy bytes) = bytes := by
  obtain ⟨text, htext⟩ := Option.isSome_iff_exists.1 h
  rw [decode?, String.fromUTF8?] at htext
  split at htext
  · next hvalid =>
    have hbytes : encode (.fromUTF8 (.mk bytes.toArray) hvalid) = bytes := rfl
    rw [← hbytes, decodeLossy_encode]
  · cases htext

end Packrat.Utf8
