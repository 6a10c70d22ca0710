import Packrat.Proofs.Input.Bits

/-!
# Proofs/Input/Machine — reads with machine words

A machine reads with words of 64 bits and with indices that must lie in the buffer: a sum that
leaves the words, or an index outside, is a `Fault`. `Machine` has the reads in that form, with all
the sums and indices that nothing checks beforehand, and `Node.ReadsSafely` says that at one place
none of them faults and that they answer what the rule of the combinator makes of its reads.

Main statement: at a place inside an input shorter than `2 ^ 61` bytes every combinator reads safely
(`Node.reads_safely`).
-/

namespace Packrat

/-- What goes wrong in a machine. -/
inductive Fault where
  /-- A number does not fit into a word. -/
  | overflow
  /-- An index lies outside the buffer. -/
  | outOfRange
deriving DecidableEq, Repr

namespace Machine

variable {υ σ : Type}

/-! ## Words and indices -/

/-- The number, if it is a word. -/
def word (n : Nat) : Except Fault Nat :=
  if n < wordBound then .ok n else .error .overflow

/-- The byte at an index. -/
def byte (input : Input) (index : Nat) : Except Fault UInt8 :=
  match input.bytes[index]? with
  | some b => .ok b
  | none => .error .outOfRange

/-- The bytes from one index to another, if they are all there. -/
def slice? (input : Input) (first last : Nat) : Option (List UInt8) :=
  if first ≤ last ∧ last ≤ input.bytes.size then some (input.bytes.extract first last).toList
  else none

/-- The number of bits in front of a cursor. -/
def bitPosition (c : Cursor) : Except Fault Nat := do
  word ((← word (c.byte * 8)) + c.bit)

/-! ## Reads -/

/-- The bits from a position on, behind those that `value` spells, taken byte by byte. -/
def takeBits (input : Input) (position remaining value : Nat) : Except Fault Nat :=
  if remaining = 0 then .ok value
  else do
    let available := 8 - position % 8
    let taken := min available remaining
    let shifted := (← byte input (position / 8)).toNat >>> (available - taken)
    let chunk := shifted &&& ((1 <<< taken) - 1)
    takeBits input (← word (position + taken)) (remaining - taken) (value <<< taken ||| chunk)
termination_by remaining

/-- A number of bits from any cursor on, and the cursor behind them. -/
def readBits? (input : Input) (start : Cursor) (width : Nat) (limit : Cursor) :
    Except Fault (Option (Nat × Cursor)) := do
  let position ← bitPosition start
  if position + width < wordBound then
    let stop := Cursor.ofBitPosition (position + width)
    if stop ≤ limit ∧ stop ≤ input.stop then
      return some (← takeBits input (← bitPosition start) width 0, stop)
    else return none
  else return none

/-- A number of bytes from an aligned cursor on. -/
def bytesAt? (input : Input) (start : Cursor) (count : Nat) (limit : Cursor) :
    Except Fault (Option (List UInt8)) := do
  if start.isAligned then
    match start.advanceBytes? count with
    | some stop =>
      if stop ≤ limit then return slice? input start.byte (← word (start.byte + count))
      else return none
    | none => return none
  else return none

/-! ## Rules that read -/

/-- An exact byte string. -/
def token (input : Input) (bytes : List UInt8) (start limit : Cursor) : Except Fault (Step υ) := do
  match ← bytesAt? input start bytes.length limit with
  | some found =>
    if found = bytes then
      return .ok (.of (.atByte (← word (start.byte + bytes.length))) (.bytes found))
    else return .error (.noMatch start)
  | none => return .error (.noMatch start)

/-- One byte that is accepted. -/
def byteIf (input : Input) (accepts : UInt8 → Bool) (start limit : Cursor) :
    Except Fault (Step υ) := do
  match input.byteAt? start limit with
  | some b =>
    if accepts b then
      return .ok (.of (.atByte (← word (start.byte + 1))) (.word b.toNat 8))
    else return .error (.noMatch start)
  | none => return .error (.noMatch start)

/-- A number of bits, as an integer. -/
def bits (input : Input) (width : Nat) (signed : Bool) (start limit : Cursor) :
    Except Fault (Step υ) := do
  match ← readBits? input start width limit with
  | some (raw, stop) =>
    return .ok <| .of stop <| .integer <|
      if signed then .signed (twosComplement raw width) width else .unsigned raw width
  | none => return .error (.noMatch start)

/-- The cursor behind the blanks that follow. -/
def skipBlanks (input : Input) (limit cursor : Cursor) : Except Fault Cursor :=
  match _hread : input.byteAt? cursor limit with
  | some b =>
    if Charset.whitespace.contains b then
      if cursor.byte + 1 < wordBound then skipBlanks input limit (.atByte (cursor.byte + 1))
      else .error .overflow
    else .ok cursor
  | none => .ok cursor
termination_by input.bytes.size - cursor.byte
decreasing_by
  have hsize := (Array.getElem?_eq_some_iff.1 (Input.byteAt?_eq_some.1 _hread).2.2.2).1
  simp only [Cursor.atByte]
  omega

/-! ## Reads do not fault -/

section Safe

variable {input : Input} {start limit : Cursor}

theorem word_of_lt {n : Nat} (h : n < wordBound) : word n = .ok n := if_pos h

/-- Bits taken in two turns. -/
theorem takeBits_split (value n taken rest : Nat) :
    (value <<< taken ||| (n >>> rest) % 2 ^ taken) <<< rest ||| n % 2 ^ rest
      = value <<< (taken + rest) ||| n % 2 ^ (taken + rest) := by
  refine Nat.eq_of_testBit_eq fun i => ?_
  simp only [Nat.testBit_or, Nat.testBit_shiftLeft, Nat.testBit_mod_two_pow, Nat.testBit_shiftRight]
  by_cases hrest : i < rest
  · have : ¬i ≥ rest := by omega
    have : ¬i ≥ taken + rest := by omega
    have : i < taken + rest := by omega
    simp [*]
  · have hi : rest + (i - rest) = i := by omega
    by_cases htaken : i < taken + rest
    · have : i ≥ rest := by omega
      have : i - rest < taken := by omega
      have : ¬i - rest ≥ taken := by omega
      simp [*]
    · have : i ≥ rest := by omega
      have : ¬i - rest < taken := by omega
      have : i - rest ≥ taken := by omega
      have : i - rest - taken = i - (taken + rest) := by omega
      simp only [ge_iff_le, decide_true, Bool.true_and, decide_false, Bool.false_and,
        Bool.or_false, Bool.eq_and_self, decide_eq_true_eq, *]
      omega

/-- The bits that one byte holds of those from a position on. -/
theorem chunk_eq {position taken : Nat} {b : UInt8} (hb : input.bytes[position / 8]? = some b)
    (htaken : taken ≤ 8 - position % 8) :
    (b.toNat >>> (8 - position % 8 - taken)) &&& ((1 <<< taken) - 1)
      = input.leading (position + taken) % 2 ^ taken := by
  obtain ⟨hsize, -⟩ := Array.getElem?_eq_some_iff.1 hb
  have hbyte : b.toNat = input.leading (8 * (position / 8 + 1)) % 2 ^ 8 := by
    have hextract : (input.bytes.extract (position / 8) (position / 8 + 1)).toList = [b] := by
      rw [Array.toList_extract, List.extract_eq_take_drop, Nat.add_sub_cancel_left, List.take_one,
        List.head?_drop, Array.getElem?_toList, hb, Option.toList_some]
    have hspelled := Input.bigEndian_extract (Nat.le_succ (position / 8)) hsize
    rw [hextract, Nat.succ_eq_add_one, Nat.add_sub_cancel_left] at hspelled
    rw [← hspelled]
    simp [bigEndian]
  have hstop : 8 * (position / 8 + 1) = position + taken + (8 - position % 8 - taken) := by omega
  rw [Nat.one_shiftLeft, Nat.and_two_pow_sub_one_eq_mod, hbyte, Input.mod_shiftRight_mod (by omega),
    hstop, Input.leading_shiftRight (by omega)]

/-- **The loop over bits ends with the bits asked for**, if they are all there. -/
theorem takeBits_eq {position remaining : Nat} (value : Nat)
    (h : position + remaining ≤ 8 * input.bytes.size) (hsize : 8 * input.bytes.size < wordBound) :
    takeBits input position remaining value
      = .ok (value <<< remaining ||| input.leading (position + remaining) % 2 ^ remaining) := by
  induction remaining using Nat.strongRecOn generalizing position value with
  | ind remaining ih =>
    rw [takeBits]
    split
    · next hzero =>
      subst hzero
      simp [Nat.mod_one]
    · next hpos =>
      have hindex : position / 8 < input.bytes.size := by omega
      have hb := Array.getElem?_eq_getElem hindex
      -- One turn takes what the byte at hand holds of the bits that are left.
      generalize htaken : min (8 - position % 8) remaining = taken
      obtain ⟨rest, rfl⟩ : ∃ rest, remaining = taken + rest := ⟨remaining - taken, by omega⟩
      have hword : position + taken < wordBound := by omega
      simp only [byte, hb, bind, Except.bind, htaken, chunk_eq hb (by omega : taken ≤ _),
        word_of_lt hword, Nat.add_sub_cancel_left]
      rw [ih rest (by omega) _ (by omega), Nat.add_assoc, ← takeBits_split,
        ← Input.leading_shiftRight (by omega : position + taken + rest ≤ _), Nat.add_assoc]

/-- The number of bits in front of a cursor does not overflow if it is a word. -/
theorem bitPosition_of_lt (h : start.bitPosition < wordBound) :
    bitPosition start = .ok start.bitPosition := by
  rw [Cursor.bitPosition] at h
  simp only [bitPosition, bind, Except.bind, word_of_lt (show start.byte * 8 < wordBound by omega),
    word_of_lt (show start.byte * 8 + start.bit < wordBound by omega), Cursor.bitPosition]
  rw [Nat.mul_comm]

/-- The bits in front of a cursor in the input are a word. -/
theorem bitPosition_eq (h : start.Spans input.stop) (hsize : 8 * input.bytes.size < wordBound) :
    bitPosition start = .ok start.bitPosition :=
  bitPosition_of_lt (Nat.lt_of_le_of_lt h.bitPosition_le hsize)

theorem readBits?_eq (hstart : start.Spans limit) (hlimit : limit.Spans input.stop) (width : Nat)
    (hsize : 8 * input.bytes.size < wordBound) :
    readBits? input start width limit = .ok (input.readBits? start width limit) := by
  have hbit : (Cursor.ofBitPosition (start.bitPosition + width)).bit < 8 := Nat.mod_lt _ (by decide)
  have hle := Cursor.le_iff_bitPosition_le hbit hlimit.left
  have hle' := Cursor.le_iff_bitPosition_le hbit hlimit.right
  have hstop : limit.bitPosition ≤ 8 * input.bytes.size := hlimit.bitPosition_le
  rw [Cursor.bitPosition_ofBitPosition] at hle hle'
  rw [Input.readBits?_eq width hlimit]
  simp only [readBits?, bitPosition_eq (hstart.trans hlimit) hsize, bind, Except.bind, pure,
    Except.pure, hle, hle']
  by_cases hword : start.bitPosition + width < wordBound
  · by_cases hfit : start.bitPosition + width ≤ limit.bitPosition
    · have hfit' := Nat.le_trans hfit hstop
      rw [if_pos hword, if_pos ⟨hfit, hfit'⟩, if_pos ⟨hword, hfit⟩, takeBits_eq 0 hfit' hsize]
      simp
    · rw [if_pos hword, if_neg fun h => hfit h.1, if_neg fun h => hfit h.2]
  · rw [if_neg hword, if_neg fun h => hword h.1]

theorem bytesAt?_eq (hlimit : limit.Spans input.stop) (count : Nat) :
    bytesAt? input start count limit = .ok (input.bytesAt? start count limit) := by
  by_cases haligned : start.isAligned = true
  · by_cases hword : start.byte + count < wordBound
    · by_cases hfit : (⟨start.byte + count, start.bit⟩ : Cursor) ≤ limit
      · have hstop := Std.le_trans hfit hlimit.le
        have hsize : start.byte + count ≤ input.bytes.size := by
          rw [Cursor.le_def] at hstop
          simp only [Input.stop, Cursor.atByte] at hstop
          omega
        have hslice : slice? input start.byte (start.byte + count)
            = some (input.bytes.extract start.byte (start.byte + count)).toList :=
          if_pos ⟨Nat.le_add_right .., hsize⟩
        simp only [bytesAt?, Input.bytesAt?, Cursor.advanceBytes?, haligned, hword, hfit, hstop,
          word_of_lt hword, hslice, bind, Except.bind, pure, Except.pure, guard_eq_ite,
          Option.bind_some, if_true, and_self]
      · simp only [bytesAt?, Input.bytesAt?, Cursor.advanceBytes?, haligned, hword, hfit, bind,
          pure, Except.pure, guard_eq_ite, Option.bind_some, if_true, if_false, false_and,
          and_false, Option.bind_none]
    · simp only [bytesAt?, Input.bytesAt?, Cursor.advanceBytes?, haligned, hword, bind, pure,
        Except.pure, if_true, if_false, Option.bind_none]
  · have hnone : input.bytesAt? start count limit = none := by
      refine Option.eq_none_iff_forall_ne_some.2 fun found hfound => haligned ?_
      rw [Cursor.isAligned, (Input.bytesAt?_eq_some.1 hfound).2.1]
      rfl
    rw [hnone, bytesAt?, if_neg haligned]
    rfl

/-! ## Rules read safely -/

/-- The answer of a plan that only looks where the window ends. -/
def answer? (limit : Cursor) : Plan υ σ (Step υ) → Option (Step υ)
  | .done step => some step
  | .look next => answer? limit (next limit)
  | _ => none

theorem answer?_ofRead (found : Option (Match υ)) :
    answer? limit (Rule.ofRead start found : Plan υ σ (Step υ))
      = some (found.elim (.error (.noMatch start)) .ok) := by
  cases found <;> rfl

theorem token_eq (hlimit : limit.Spans input.stop) (bytes : List UInt8) :
    (token input bytes start limit).map some
      = .ok (answer? limit (Rule.token input bytes start : Plan υ σ (Step υ))) := by
  have hanswer : answer? limit (Rule.token input bytes start : Plan υ σ (Step υ)) = _ :=
    answer?_ofRead _
  rw [hanswer, token, bytesAt?_eq hlimit]
  cases hread : input.bytesAt? start bytes.length limit with
  | none => rfl
  | some found =>
    have hword := (Input.bytesAt?_eq_some.1 hread).1
    simp only [bind, Except.bind, Option.bind_some, word_of_lt hword]
    split <;> rfl

theorem byteIf_eq (accepts : UInt8 → Bool) :
    (byteIf input accepts start limit).map some
      = .ok (answer? limit (Rule.byteIf input accepts start : Plan υ σ (Step υ))) := by
  have hanswer : answer? limit (Rule.byteIf input accepts start : Plan υ σ (Step υ)) = _ :=
    answer?_ofRead _
  rw [hanswer, byteIf]
  cases hread : input.byteAt? start limit with
  | none => rfl
  | some found =>
    have hword := (Input.byteAt?_eq_some.1 hread).1
    simp only [bind, Except.bind, Option.bind_some, word_of_lt hword]
    split <;> rfl

theorem bits_eq (hstart : start.Spans limit) (hlimit : limit.Spans input.stop)
    (hsize : 8 * input.bytes.size < wordBound) (width : Nat) (signed : Bool) :
    (bits input width signed start limit).map some
      = .ok (answer? limit (Rule.bits input width signed start : Plan υ σ (Step υ))) := by
  have hanswer : answer? limit (Rule.bits input width signed start : Plan υ σ (Step υ)) = _ :=
    answer?_ofRead _
  rw [hanswer, bits, readBits?_eq hstart hlimit width hsize]
  cases input.readBits? start width limit <;> rfl

theorem skipBlanks_eq {cursor : Cursor} {count : Nat} (h : input.bytes.size ≤ cursor.byte + count) :
    skipBlanks input limit cursor = .ok (Rule.skipBlanks input limit count cursor) := by
  induction count generalizing cursor with
  | zero =>
    rw [skipBlanks]
    split
    · next b hread =>
      have hsize := (Array.getElem?_eq_some_iff.1 (Input.byteAt?_eq_some.1 hread).2.2.2).1
      omega
    · rfl
  | succ count ih =>
    rw [skipBlanks, Rule.skipBlanks]
    split
    · next b hread =>
      rw [hread]
      dsimp only
      split
      · rw [if_pos (Input.byteAt?_eq_some.1 hread).1]
        exact ih (by simp only [Cursor.atByte]; omega)
      · rfl
    · next hread => rw [hread]

end Safe

end Machine

/-- At this place the reads of the combinator do not fault in a machine, and answer what its rule
makes of them. Combinators that read nothing themselves are safe. -/
def Node.ReadsSafely {υ σ : Type} (input : Input) (start limit : Cursor) : Node Nat υ σ → Prop
  | token bytes => (Machine.token input bytes start limit).map some
      = .ok (Machine.answer? limit (Rule.token input bytes start : Plan υ σ (Step υ)))
  | byte b => (Machine.byteIf input (· == b) start limit).map some
      = .ok (Machine.answer? limit (Rule.byteIf input (· == b) start : Plan υ σ (Step υ)))
  | byteRange low high =>
    (Machine.byteIf input (fun b => low ≤ b && b ≤ high) start limit).map some
      = .ok (Machine.answer? limit
        (Rule.byteIf input (fun b => low ≤ b && b ≤ high) start : Plan υ σ (Step υ)))
  | byteIn set => (Machine.byteIf input set.contains start limit).map some
      = .ok (Machine.answer? limit (Rule.byteIf input set.contains start : Plan υ σ (Step υ)))
  | bits width signed => (Machine.bits input width signed start limit).map some
      = .ok (Machine.answer? limit (Rule.bits input width signed start : Plan υ σ (Step υ)))
  | whitespace _ => Machine.skipBlanks input limit start
      = .ok (Rule.skipBlanks input limit (input.bytes.size - start.byte) start)
  | _ => True

/-- **Inside a short enough input every combinator reads safely.** -/
theorem Node.reads_safely {υ σ : Type} {input : Input} {start limit : Cursor}
    (hstart : start.Spans limit) (hlimit : limit.Spans input.stop)
    (hsize : 8 * input.bytes.size < wordBound) (node : Node Nat υ σ) :
    node.ReadsSafely input start limit := by
  cases node with
  | token bytes => exact Machine.token_eq hlimit bytes
  | byte b => exact Machine.byteIf_eq _
  | byteRange low high => exact Machine.byteIf_eq _
  | byteIn set => exact Machine.byteIf_eq _
  | bits width signed => exact Machine.bits_eq hstart hlimit hsize width signed
  | whitespace p => exact Machine.skipBlanks_eq (by omega)
  | _ => trivial

end Packrat
