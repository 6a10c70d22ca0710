import Packrat.Integer
import Packrat.Proofs.Input.Agreement

/-!
# Proofs/Input/Spelled — fields of bits

The number that bits spell, bit by bit and the most significant first (`Input.spelled`), and the
integers that fields of so many bits carry (`Input.integer`), in a row from any position on
(`Input.integers`). An integer is *spelled by* a field when its bits are those of the field and it
lies in the field's range, unsigned or in two's complement (`Integer.SpelledBy`).

A machine takes the bits from bytes by shifts and masks, and extends a sign by moving it to the top
of a word and back; it comes to the same numbers (`Input.integer_computed`).
-/

namespace Packrat

/-! ## Bit by bit -/

namespace Input

variable {input : Input} {position width : Nat}

/-- The number that `width` bits spell from a position on, the most significant first. -/
def spelled (input : Input) (position : Nat) : (width : Nat) → Nat
  | 0 => 0
  | width + 1 =>
    2 * input.spelled position width + ((input.bit? (position + width)).getD false).toNat

theorem spelled_lt : input.spelled position width < 2 ^ width := by
  induction width with
  | zero => exact Nat.one_pos
  | succ width ih =>
    have hbit := Bool.toNat_lt ((input.bit? (position + width)).getD false)
    rw [spelled, Nat.pow_succ]
    omega

/-- A read of bits answers with the number that they spell. -/
theorem spelled_eq (h : position + width ≤ 8 * input.bytes.size) :
    input.spelled position width = input.leading (position + width) % 2 ^ width := by
  induction width with
  | zero => rw [spelled, Nat.pow_zero, Nat.mod_one]
  | succ width ih =>
    obtain ⟨b, hb⟩ := exists_bit? (show position + width < 8 * input.bytes.size by omega)
    have hbit := Bool.toNat_lt b
    rw [spelled, ih (by omega), hb, Option.getD_some, ← Nat.add_assoc, leading_succ hb,
      Nat.pow_succ, Nat.mul_comm (2 ^ width)]
    rw [Nat.mod_mul, Nat.mul_add_mod, Nat.mod_eq_of_lt hbit, Nat.mul_add_div Nat.two_pos,
      Nat.div_eq_of_lt hbit, Nat.add_zero, Nat.add_comm]

/-- Bits in a row spell what their parts spell, one behind the other. -/
theorem spelled_add (front back : Nat) : input.spelled position (front + back)
    = input.spelled position front * 2 ^ back + input.spelled (position + front) back := by
  induction back with
  | zero => rw [Nat.add_zero, spelled, Nat.pow_zero, Nat.mul_one, Nat.add_zero]
  | succ back ih =>
    rw [← Nat.add_assoc, spelled, ih, spelled, Nat.pow_succ, Nat.add_assoc position]
    ring

end Input

/-! ## Two's complement -/

section TwosComplement

variable {raw width : Nat}

theorem twosComplement_eq (hwidth : 1 ≤ width) : twosComplement raw width
    = if 2 * raw < 2 ^ width then (raw : Int) else (raw : Int) - (2 ^ width : Nat) := by
  obtain ⟨width, rfl⟩ := Nat.exists_eq_add_of_le' hwidth
  rw [twosComplement, Nat.add_sub_cancel, Nat.one_shiftLeft, Nat.one_shiftLeft, Nat.pow_succ]
  refine if_congr ?_ rfl rfl
  omega

/-- The bits are those of the number. -/
theorem twosComplement_emod (hwidth : 1 ≤ width) (h : raw < 2 ^ width) :
    twosComplement raw width % (2 ^ width : Nat) = raw := by
  have hraw : (raw : Int) % (2 ^ width : Nat) = raw := by
    rw [← Int.natCast_mod, Nat.mod_eq_of_lt h]
  rw [twosComplement_eq hwidth]
  split
  · exact hraw
  · rw [Int.sub_emod_right, hraw]

/-- And the number lies in the range of so many bits. -/
theorem twosComplement_range (hwidth : 1 ≤ width) (h : raw < 2 ^ width) :
    -((2 ^ (width - 1) : Nat) : Int) ≤ twosComplement raw width
      ∧ twosComplement raw width < (2 ^ (width - 1) : Nat) := by
  rw [twosComplement_eq hwidth]
  obtain ⟨width, rfl⟩ := Nat.exists_eq_add_of_le' hwidth
  rw [Nat.add_sub_cancel]
  rw [Nat.pow_succ] at h ⊢
  split <;> omega

/-- A sign extended in words of 64 bits: the bits go to the top of a word and back. -/
def Machine.signExtend (raw width : Nat) : Int :=
  if width = 0 ∨ 64 ≤ width then (BitVec.ofNat 64 raw).toInt
  else ((BitVec.ofNat 64 raw <<< (64 - width)).sshiftRight (64 - width)).toInt

theorem toInt_ofNat_word (n : Nat) (h : n < 2 ^ 64) : (BitVec.ofNat 64 n).toInt
    = if 2 * n < 2 ^ 64 then (n : Int) else (n : Int) - (2 ^ 64 : Nat) := by
  rw [BitVec.toInt_eq_toNat_cond, BitVec.toNat_ofNat, Nat.mod_eq_of_lt h]

/-- **A machine's sign extension is the number in two's complement.** -/
theorem Machine.signExtend_eq (hwidth : 1 ≤ width ∧ width ≤ 64) (h : raw < 2 ^ width) :
    signExtend raw width = twosComplement raw width := by
  obtain ⟨hpos, hle⟩ := hwidth
  rw [twosComplement_eq hpos, signExtend]
  split
  · obtain rfl : width = 64 := by omega
    exact toInt_ofNat_word raw h
  · obtain ⟨shift, hshift⟩ : ∃ shift, 64 - width = shift := ⟨_, rfl⟩
    have hword : 2 ^ width * 2 ^ shift = 2 ^ 64 := by
      rw [← Nat.pow_add, ← hshift, Nat.add_sub_cancel' hle]
    have hraw : raw * 2 ^ shift < 2 ^ 64 := by
      rw [← hword]
      exact Nat.mul_lt_mul_of_pos_right h (Nat.two_pow_pos shift)
    have hshifted : BitVec.ofNat 64 raw <<< shift = BitVec.ofNat 64 (raw * 2 ^ shift) := by
      refine BitVec.eq_of_toNat_eq ?_
      have hle : raw ≤ raw * 2 ^ shift := Nat.le_mul_of_pos_right raw (Nat.two_pow_pos shift)
      rw [BitVec.toNat_shiftLeft, BitVec.toNat_ofNat, BitVec.toNat_ofNat,
        Nat.mod_eq_of_lt (Nat.lt_of_le_of_lt hle hraw), Nat.shiftLeft_eq]
    have hback : ∀ n : Int, n * (2 ^ shift : Nat) / (2 ^ shift : Nat) = n := fun n =>
      Int.mul_ediv_cancel n (Int.natCast_ne_zero.2 (Nat.two_pow_pos shift).ne')
    rw [hshift, hshifted, BitVec.toInt_sshiftRight, toInt_ofNat_word _ hraw,
      Int.shiftRight_eq_div_pow, ← hword, ← Nat.mul_assoc,
      if_congr (Nat.mul_lt_mul_right (Nat.two_pow_pos shift)) rfl rfl]
    split
    · rw [Int.natCast_mul, hback]
    · rw [Int.natCast_mul, Int.natCast_mul, ← Int.sub_mul, hback]

end TwosComplement

/-! ## Fields -/

/-- A field of bits. -/
structure BitField where
  width : Nat
  signed : Bool
deriving DecidableEq, Repr

/-- How many bits the fields have together. -/
def BitField.totalWidth (fields : List BitField) : Nat := (fields.map (·.width)).sum

@[simp]
theorem BitField.totalWidth_nil : totalWidth [] = 0 := rfl

@[simp]
theorem BitField.totalWidth_cons (f : BitField) (fields : List BitField) :
    totalWidth (f :: fields) = f.width + totalWidth fields := List.sum_cons

/-- A field ends no further back than all of them. -/
theorem BitField.totalWidth_take_add_le {fields : List BitField} {k : Nat} {f : BitField}
    (h : fields[k]? = some f) : totalWidth (fields.take k) + f.width ≤ totalWidth fields := by
  induction fields generalizing k with
  | nil => cases h
  | cons f' fields ih =>
    cases k with
    | zero =>
      obtain rfl := Option.some.inj h
      rw [List.take_zero, totalWidth_nil, totalWidth_cons]
      omega
    | succ k =>
      have hrest := ih h
      rw [List.take_succ_cons, totalWidth_cons, totalWidth_cons]
      omega

/-- The integer of a field that begins at a position. -/
def Input.integer (input : Input) (position : Nat) (field : BitField) : Integer :=
  if field.signed then
    .signed (twosComplement (input.spelled position field.width) field.width) field.width
  else .unsigned (input.spelled position field.width) field.width

/-- The integers of fields in a row. -/
def Input.integers (input : Input) : (position : Nat) → List BitField → List Integer
  | _, [] => []
  | position, f :: fields => input.integer position f :: input.integers (position + f.width) fields

namespace Integer

/-- The bits that stand for the integer, as a number. -/
def raw (n : Integer) : Nat := (n.toInt % (2 ^ n.width : Nat)).toNat

/-- The number that the bits of integers spell, one integer behind the other. -/
def joined (ns : List Integer) : Nat := ns.foldl (fun bits n => bits * 2 ^ n.width + n.raw) 0

/-- The integer that the bits of a field spell, which begins at a position of the input. -/
structure SpelledBy (input : Input) (position : Nat) (field : BitField) (n : Integer) : Prop where
  width : n.width = field.width
  isSigned : n.isSigned = field.signed
  raw : n.raw = input.spelled position field.width
  unsigned : field.signed = false → 0 ≤ n.toInt ∧ n.toInt < (2 ^ field.width : Nat)
  signed : field.signed = true → -((2 ^ (field.width - 1) : Nat) : Int) ≤ n.toInt
    ∧ n.toInt < (2 ^ (field.width - 1) : Nat)

/-- A machine takes the same bits, and makes the same number of them. -/
structure ComputedFrom (input : Input) (position : Nat) (field : BitField) (n : Integer) :
    Prop where
  bits : Machine.takeBits input position field.width 0 = .ok n.raw
  extended : field.signed = true → Machine.signExtend n.raw field.width = n.toInt

end Integer

namespace Input

open BitField (totalWidth totalWidth_nil totalWidth_cons)

variable {input : Input} {position : Nat} {field : BitField} {fields : List BitField}

/-- **A field's integer is spelled by the field's bits.** -/
theorem integer_spelled (hwidth : 1 ≤ field.width) :
    (input.integer position field).SpelledBy input position field := by
  obtain ⟨width, signed⟩ := field
  have hlt : input.spelled position width < 2 ^ width := spelled_lt
  cases signed with
  | true =>
    have hraw := twosComplement_emod hwidth hlt
    have hrange := twosComplement_range hwidth hlt
    exact ⟨rfl, rfl, congrArg Int.toNat hraw, nofun, fun _ => hrange⟩
  | false =>
    have hraw : ((input.spelled position width : Nat) : Int) % (2 ^ width : Nat)
        = (input.spelled position width : Nat) := by
      rw [← Int.natCast_mod, Nat.mod_eq_of_lt hlt]
    exact ⟨rfl, rfl, congrArg Int.toNat hraw,
      fun _ => ⟨Int.natCast_nonneg _, Int.ofNat_lt.2 hlt⟩, nofun⟩

/-- **A machine comes to the same integer**, with shifts and masks in words of 64 bits. -/
theorem integer_computed (hwidth : 1 ≤ field.width ∧ field.width ≤ 64)
    (h : position + field.width ≤ 8 * input.bytes.size) (hsize : 8 * input.bytes.size < wordBound) :
    (input.integer position field).ComputedFrom input position field := by
  have hraw : (input.integer position field).raw = input.spelled position field.width :=
    (integer_spelled hwidth.1).raw
  constructor
  · rw [hraw, Machine.takeBits_eq 0 h hsize, spelled_eq h, Nat.zero_shiftLeft, Nat.zero_or]
  · intro hsigned
    rw [hraw, Machine.signExtend_eq hwidth spelled_lt, integer, if_pos hsigned]
    rfl

theorem integers_getElem? (k : Nat) : (input.integers position fields)[k]?
    = fields[k]?.map (input.integer (position + totalWidth (fields.take k))) := by
  induction fields generalizing position k with
  | nil => rfl
  | cons f fields ih =>
    cases k with
    | zero => rfl
    | succ k =>
      rw [integers, List.getElem?_cons_succ, ih, List.getElem?_cons_succ, List.take_succ_cons,
        totalWidth_cons, Nat.add_assoc]

theorem length_integers : (input.integers position fields).length = fields.length := by
  induction fields generalizing position with
  | nil => rfl
  | cons f fields ih => rw [integers, List.length_cons, ih, List.length_cons]

/-- **Fields in a row have the bits of the whole**: one behind the other they spell what all the
bits spell at once. -/
theorem joined_integers (hwidths : ∀ f ∈ fields, 1 ≤ f.width) :
    Integer.joined (input.integers position fields)
      = input.spelled position (totalWidth fields) := by
  have key : ∀ front, (input.integers position fields).foldl
      (fun bits n => bits * 2 ^ n.width + n.raw) front
        = front * 2 ^ totalWidth fields + input.spelled position (totalWidth fields) := by
    induction fields generalizing position with
    | nil =>
      intro front
      rw [integers, List.foldl_nil, totalWidth_nil, spelled, Nat.pow_zero, Nat.mul_one,
        Nat.add_zero]
    | cons f fields ih =>
      obtain ⟨hf, hfields⟩ := List.forall_mem_cons.1 hwidths
      have hfirst : (input.integer position f).SpelledBy input position f := integer_spelled hf
      intro front
      rw [integers, List.foldl_cons, ih hfields, hfirst.width, hfirst.raw, totalWidth_cons,
        spelled_add, Nat.pow_add]
      ring
  rw [Integer.joined, key, Nat.zero_mul, Nat.zero_add]

end Input

end Packrat
