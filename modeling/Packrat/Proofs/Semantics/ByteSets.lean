import Mathlib.Logic.Basic
import Packrat.Proofs.Charset
import Packrat.Proofs.Semantics.Found

/-!
# Proofs/Semantics/ByteSets — bytes in a set, and bytes outside

Where a byte can be read, an entry for the bytes of a set matches exactly if the byte is one of them
(`settles_byteIn`). So of the entries for a set and for the bytes outside exactly one matches
(`byteIn_xor_notIn`). Main statement: `charset_faithful`. However a set of bytes has come about,
what it answers, what it equals and what it matches depend on its members only.
-/

namespace Packrat.Grammar

open Charset (performAll performWords performMembers)

variable {υ σ : Type} {g : Grammar υ σ} {input : Input} {limit : Cursor} {step : Step υ}
  {set : Charset} {i j k : Nat} {b : UInt8}

/-! ## One byte of a set -/

/-- What becomes of a byte at an index where a byte of the set is wanted. -/
def byteStep (set : Charset) (k : Nat) (b : UInt8) : Step υ :=
  if set.contains b then .ok (.of (.atByte (k + 1)) (.word b.toNat 8))
  else .error (.noMatch (.atByte k))

theorem exists_byteStep_eq_ok :
    (∃ m, (byteStep set k b : Step υ) = .ok m) ↔ set.contains b := by
  rw [byteStep]
  split
  · next hb => exact ⟨fun _ => hb, fun _ => ⟨_, rfl⟩⟩
  · next hb => exact ⟨nofun, fun h => absurd h hb⟩

/-- **One byte of a set** matches exactly where the byte at hand is a member. -/
theorem settles_byteIn (hi : g.IsNode i (.byteIn set))
    (hread : input.byteAt? (.atByte k) limit = some b) :
    g.Settles input i (.atByte k) limit step ↔ step = byteStep set k b := by
  rw [settles_node hi, Node.rule, Rule.yields_byteIf, byteStep]
  split
  · next hb =>
    constructor
    · rintro (⟨hnone, -⟩ | ⟨c, hc, -, rfl⟩)
      · exact absurd hb (hnone b hread)
      · obtain rfl := Option.some.inj (hread.symm.trans hc)
        rfl
    · rintro rfl
      exact .inr ⟨b, hread, hb, rfl⟩
  · next hb =>
    have hnone : ∀ c, input.byteAt? (.atByte k) limit = some c → ¬set.contains c := by
      intro c hc
      rwa [← Option.some.inj (hread.symm.trans hc)]
    constructor
    · rintro (⟨-, rfl⟩ | ⟨c, hc, hmem, -⟩)
      · rfl
      · exact absurd hmem (hnone c hc)
    · rintro rfl
      exact .inl ⟨hnone, rfl⟩

/-- What is found there, in whatever state, is just that. -/
theorem found_byteIn (hi : g.IsNode i (.byteIn set))
    (hread : input.byteAt? (.atByte k) limit = some b)
    (hfound : g.Found input i (.atByte k) limit step) : step = byteStep set k b := by
  have hslotless : g.Slotless i := .node hi fun _ hc => (List.not_mem_nil hc).elim
  exact (settles_byteIn hi hread).1
    (hfound.settles (lt_size_of_entry hi) (hslotless.fatal?_eq_none hfound))

/-! ## In the set, or outside -/

/-- The byte at an index before the end of a window in the input can be read. -/
theorem exists_byteAt? (hsize : input.bytes.size < wordBound) (hlimit : limit.Spans input.stop)
    (hbyte : Cursor.atByte (k + 1) ≤ limit) : ∃ b, input.byteAt? (.atByte k) limit = some b := by
  have hstop := Std.le_trans hbyte hlimit.le
  rw [Cursor.le_def] at hstop
  simp only [Input.stop, Cursor.atByte] at hstop
  have hk : k < input.bytes.size := by omega
  exact ⟨_, Input.byteAt?_eq_some.2
    ⟨Nat.lt_of_le_of_lt hk hsize, rfl, hbyte, Array.getElem?_eq_getElem hk⟩⟩

/-- **Of a set and its complement exactly one matches** a byte before the end of the window. -/
theorem byteIn_xor_notIn (hi : g.IsNode i (.byteIn set)) (hj : g.IsNode j (.notIn set))
    (hsize : input.bytes.size < wordBound) (hlimit : limit.Spans input.stop)
    (hbyte : Cursor.atByte (k + 1) ≤ limit) :
    Xor (∃ m, g.Derives input limit (.entry i (.atByte k)) (.ok m))
        (∃ m, g.Derives input limit (.entry j (.atByte k)) (.ok m))
      ∧ ∀ step step', g.Found input i (.atByte k) limit step →
        g.Found input j (.atByte k) limit step' → Xor (∃ m, step = .ok m) (∃ m, step' = .ok m) := by
  obtain ⟨b, hread⟩ := exists_byteAt? hsize hlimit hbyte
  have hstart : (Cursor.atByte k).Spans limit := by
    refine .of_bitPosition_le (Nat.succ_pos 7) hlimit.left ?_
    have hpos := (Cursor.le_iff_bitPosition_le (Nat.succ_pos 7) hlimit.left).1 hbyte
    rw [Cursor.bitPosition_atByte] at hpos ⊢
    omega
  have hxor : Xor (∃ m, (byteStep set k b : Step υ) = .ok m)
      (∃ m, (byteStep set.complement k b : Step υ) = .ok m) := by
    rw [exists_byteStep_eq_ok, exists_byteStep_eq_ok, Charset.contains_complement]
    cases set.contains b <;> simp
  refine ⟨?_, fun step step' h h' => ?_⟩
  · simpa only [derives_iff_settles hstart, settles_byteIn hi hread, settles_byteIn hj hread,
      eq_comm] using hxor
  · rwa [found_byteIn hi hread h, found_byteIn hj hread h']

/-- **A set of bytes is the set of its members.** Whatever has been done to it, a set has the bytes
that the same operations make of a finite set: it contains them, has as many of them, is empty if
there are none, lists them upwards, and is equal to the sets with the same bytes. So do the four
words that a machine keeps of it, and both are their complement's complement, of all the other
bytes. Where there is a byte before the end of the window, exactly one of the entries for a set and
for the bytes outside matches. -/
theorem charset_faithful (ops : List Charset.Operation) :
    (performAll ops).Represents (performMembers ops)
      ∧ (performWords ops).Holds (performAll ops)
      ∧ (∀ ops', (performAll ops' = performAll ops ↔ performMembers ops' = performMembers ops)
        ∧ (performWords ops' = performWords ops ↔ performMembers ops' = performMembers ops))
      ∧ ((performAll ops).complement.complement = performAll ops
        ∧ (performAll ops).complement.size = 256 - (performAll ops).size)
      ∧ ((performWords ops).complement.complement = performWords ops
        ∧ (performWords ops).complement.size = 256 - (performWords ops).size)
      ∧ ∀ (g : Grammar υ σ) (set : Charset) (input : Input) (limit : Cursor) (i j k : Nat),
        g.IsNode i (.byteIn set) → g.IsNode j (.notIn set) → input.bytes.size < wordBound →
        limit.Spans input.stop → Cursor.atByte (k + 1) ≤ limit →
        Xor (∃ m, g.Derives input limit (.entry i (.atByte k)) (.ok m))
            (∃ m, g.Derives input limit (.entry j (.atByte k)) (.ok m))
          ∧ ∀ step step', g.Found input i (.atByte k) limit step →
            g.Found input j (.atByte k) limit step' →
            Xor (∃ m, step = .ok m) (∃ m, step' = .ok m) := by
  rw [← Charset.members_performAll, ← Charset.bitmap_performAll]
  refine ⟨Charset.represents_members _, Charset.holds_bitmap _, fun ops' => ?_,
    ⟨Charset.complement_complement, Charset.size_complement⟩, ⟨?_, ?_⟩,
    fun g set input limit i j k => byteIn_xor_notIn⟩
  · rw [← Charset.members_performAll, ← Charset.bitmap_performAll, Charset.members_inj,
      Charset.bitmap_inj]
    exact ⟨.rfl, .rfl⟩
  · rw [← Charset.bitmap_complement, ← Charset.bitmap_complement, Charset.complement_complement]
  · rw [← Charset.bitmap_complement, Charset.size_bitmap, Charset.size_bitmap,
      Charset.size_complement]

/-- Bytes on both sides of the ends of words. -/
def edges : List Charset.Operation :=
  [.ofRange 0x3f 0x40, .insert 0x7f, .insert 0xc0, .erase 0x3f, .complement, .erase 0xff]

/-- A byte of a set, and a byte outside. -/
def sides : Grammar Unit Unit where
  id := 0
  entries := #[.node (.byteIn (performAll edges)), .node (.notIn (performAll edges))]
  targets := #[]
  child_lt := by decide
  slot_lt := by
    intro i h slot he
    have hmem := Array.getElem_mem h
    rw [he] at hmem
    simp only [List.mem_toArray, List.mem_cons, reduceCtorEq, List.not_mem_nil, or_false] at hmem
  target_lt := by decide

/-- The last byte of a window that ends inside the next one. -/
theorem charset_faithful_edges : sides.IsNode 0 (.byteIn (performAll edges))
    ∧ sides.IsNode 1 (.notIn (performAll edges))
    ∧ (#[0x3f, 0x40, 0x80] : Array UInt8).size < wordBound
    ∧ (⟨2, 5⟩ : Cursor).Spans (Input.stop ⟨#[0x3f, 0x40, 0x80]⟩)
    ∧ Cursor.atByte 2 ≤ ⟨2, 5⟩
    ∧ (performAll edges).Represents (performMembers edges)
    ∧ (performWords edges).Holds (performAll edges)
    ∧ Xor (∃ m, sides.Derives ⟨#[0x3f, 0x40, 0x80]⟩ ⟨2, 5⟩ (.entry 0 (.atByte 1)) (.ok m))
        (∃ m, sides.Derives ⟨#[0x3f, 0x40, 0x80]⟩ ⟨2, 5⟩ (.entry 1 (.atByte 1)) (.ok m))
      ∧ ∀ step step', sides.Found ⟨#[0x3f, 0x40, 0x80]⟩ 0 (.atByte 1) ⟨2, 5⟩ step →
        sides.Found ⟨#[0x3f, 0x40, 0x80]⟩ 1 (.atByte 1) ⟨2, 5⟩ step' →
        Xor (∃ m, step = .ok m) (∃ m, step' = .ok m) :=
  have hlimit : (⟨2, 5⟩ : Cursor).Spans (Input.stop ⟨#[0x3f, 0x40, 0x80]⟩) :=
    ⟨by decide, by decide, by decide⟩
  have hfaithful := charset_faithful edges
  ⟨rfl, rfl, by decide, hlimit, by decide, hfaithful.1, hfaithful.2.1,
    hfaithful.2.2.2.2.2 sides _ _ _ _ _ _ rfl rfl (by decide) hlimit (by decide)⟩

end Packrat.Grammar
