import Mathlib.Algebra.BigOperators.Fin
import Mathlib.Data.FinEnum
import Packrat.Charset

/-!
# Proofs/Charset — sets of bytes, and their bitmaps

A `Charset` is the finite set of its members (`Charset.members`): each operation on the word is the
operation on the set, and what a set can be asked is answered by its members (`Charset.Represents`).

A machine keeps the bits in four words of 64 (`Machine.Bitmap`), byte `b` in word `b / 64` at
position `b % 64`. Main statements: whatever is done to a set, it holds the bytes that the same
operations make of a finite set (`Charset.members_performAll`), and the four words are those of the
set and answer alike (`Charset.bitmap_performAll`, `Charset.holds_bitmap`).
-/

namespace Packrat

/-- The set bits of a word, counted from the lowest on. -/
theorem toNat_cpop_eq_countP {w : Nat} (x : BitVec w) :
    x.cpop.toNat = (List.range w).countP x.getLsbD := by
  have hbelow : ∀ n count, x.cpopNatRec n count = (List.range n).countP x.getLsbD + count := by
    intro n
    induction n with
    | zero => exact fun count => (Nat.zero_add count).symm
    | succ n ih =>
      intro count
      rw [BitVec.cpopNatRec_succ, ih, List.range_succ, List.countP_append, List.countP_singleton,
        Nat.add_comm count, Nat.add_assoc]
      cases x.getLsbD n <;> rfl
  rw [BitVec.toNat_cpop, hbelow, Nat.add_zero]

namespace Charset

variable {set set' : Charset} {low high b : UInt8} {bytes : List UInt8}

/-! ## Members -/

/-- The bytes of a set. -/
def members (set : Charset) : Finset UInt8 := {b | set.contains b}

@[simp]
theorem mem_members : b ∈ set.members ↔ set.contains b := by simp [members]

/-- Bit by bit a set is asked for all bytes. -/
theorem contains_ofNat {n : Nat} (h : n < 256) :
    set.contains (.ofNat n) = set.bits.getLsbD n := by
  rw [contains, UInt8.toNat_ofNat_of_lt' h]

/-- **A set is known by its members.** -/
theorem members_inj : set.members = set'.members ↔ set = set' := by
  refine ⟨fun h => Charset.ext (BitVec.eq_of_getLsbD_eq fun n hn => ?_), congrArg members⟩
  rw [← contains_ofNat hn, ← contains_ofNat hn, Bool.eq_iff_iff, ← mem_members, ← mem_members, h]

theorem eq_iff_contains : set = set' ↔ ∀ b, set.contains b = set'.contains b := by
  rw [← members_inj, Finset.ext_iff]
  exact forall_congr' fun b => by rw [mem_members, mem_members, ← Bool.eq_iff_iff]

@[simp]
theorem members_empty : empty.members = ∅ := by
  ext b
  simp

@[simp]
theorem members_insert : (set.insert b).members = Insert.insert b set.members := by
  ext c
  rw [mem_members, contains_insert, Bool.or_eq_true, decide_eq_true_iff, Finset.mem_insert,
    mem_members, or_comm, eq_comm]

@[simp]
theorem members_erase : (set.erase b).members = set.members.erase b := by
  ext c
  rw [mem_members, contains_erase, Bool.and_eq_true, decide_eq_true_iff, Finset.mem_erase,
    mem_members, and_comm, ne_comm]

@[simp]
theorem members_complement : set.complement.members = set.membersᶜ := by
  ext c
  simp

theorem members_foldl_insert :
    (bytes.foldl insert set).members = set.members ∪ bytes.toFinset := by
  induction bytes generalizing set with
  | nil => simp
  | cons b bytes ih =>
    rw [List.foldl_cons, ih, members_insert, List.toFinset_cons, Finset.insert_union,
      Finset.union_insert]

@[simp]
theorem members_ofList : (ofList bytes).members = bytes.toFinset := by
  rw [ofList, members_foldl_insert, members_empty, Finset.empty_union]

@[simp]
theorem members_ofRange :
    (ofRange low high).members = ({b | low ≤ b ∧ b ≤ high} : Finset UInt8) := by
  ext b
  have hb : b.toNat < 256 := b.toNat_lt
  have hhigh : high.toNat < 256 := high.toNat_lt
  simp only [ofRange, members_ofList, List.mem_toFinset, List.mem_map, Finset.mem_filter,
    UInt8.le_iff_toNat_le]
  constructor
  · rintro ⟨n, hn, rfl⟩
    rw [List.mem_range'_1] at hn
    rw [UInt8.toNat_ofNat_of_lt' (by rw [UInt8.size]; omega)]
    exact ⟨Finset.mem_univ _, by omega, by omega⟩
  · rintro ⟨-, hlow, hhigh'⟩
    exact ⟨b.toNat, List.mem_range'_1.2 (by omega), UInt8.ofNat_toNat⟩

/-! ## Questions -/

@[simp]
theorem mem_toList : b ∈ set.toList ↔ set.contains b := by
  rw [toList, List.mem_filter, List.mem_map]
  exact and_iff_right ⟨b.toNat, List.mem_range.2 b.toNat_lt, UInt8.ofNat_toNat⟩

/-- The list goes upwards, so no member is listed twice. -/
theorem pairwise_toList : set.toList.Pairwise (· < ·) := by
  refine List.Pairwise.filter _ (List.pairwise_map.2 ?_)
  refine List.pairwise_lt_range.imp_of_mem fun {m n} hm hn hlt => ?_
  rw [List.mem_range] at hm hn
  rwa [UInt8.lt_iff_toNat_lt, UInt8.toNat_ofNat_of_lt' hm, UInt8.toNat_ofNat_of_lt' hn]

theorem length_toList : set.toList.length = set.size := by
  rw [toList, ← List.countP_eq_length_filter, List.countP_map, size, toNat_cpop_eq_countP]
  exact List.countP_congr fun n hn => by
    rw [Function.comp_apply, contains_ofNat (List.mem_range.1 hn)]

theorem card_members : set.members.card = set.size := by
  have hlist : set.toList.toFinset = set.members := by
    ext b
    simp
  have hnodup : set.toList.Nodup := pairwise_toList.imp fun h => UInt8.ne_of_lt h
  rw [← hlist, List.toFinset_card_of_nodup hnodup, length_toList]

theorem isEmpty_iff : set.isEmpty ↔ set.members = ∅ := by
  rw [← members_empty, members_inj, Charset.ext_iff, isEmpty, beq_iff_eq]
  rfl

/-- Every question about the set is answered by these bytes. -/
structure Represents (set : Charset) (s : Finset UInt8) : Prop where
  contains_iff : ∀ b, set.contains b ↔ b ∈ s
  size_eq : set.size = s.card
  isEmpty_iff : set.isEmpty ↔ s = ∅
  pairwise_toList : set.toList.Pairwise (· < ·)
  mem_toList : ∀ b, b ∈ set.toList ↔ b ∈ s

/-- **A set answers for its members.** -/
theorem represents_members (set : Charset) : set.Represents set.members where
  contains_iff _ := mem_members.symm
  size_eq := card_members.symm
  isEmpty_iff := isEmpty_iff
  pairwise_toList := pairwise_toList
  mem_toList _ := mem_toList.trans mem_members.symm

theorem complement_complement : set.complement.complement = set := by
  rw [eq_iff_contains]
  simp

theorem size_complement : set.complement.size = 256 - set.size := BitVec.toNat_cpop_not

end Charset

/-! ## Four words -/

namespace Machine

/-- A set of bytes as a machine keeps it. -/
structure Bitmap where
  /-- The bits of 64 bytes each, those of the lowest first. -/
  words : Vector (BitVec 64) 4
deriving DecidableEq

namespace Bitmap

/-- A byte's word is one of the four. -/
theorem index_lt (b : UInt8) : b.toNat / 64 < 4 := Nat.div_lt_of_lt_mul b.toNat_lt

/-- The word of a byte. -/
def word (m : Bitmap) (b : UInt8) : BitVec 64 := m.words.get ⟨b.toNat / 64, index_lt b⟩

/-- The bit of a byte in its word. -/
def mask (b : UInt8) : BitVec 64 := 1#64 <<< (b.toNat % 64)

/-- The bitmap with another word for a byte. -/
def setWord (m : Bitmap) (b : UInt8) (w : BitVec 64) : Bitmap :=
  ⟨m.words.set (b.toNat / 64) w (index_lt b)⟩

def empty : Bitmap := ⟨Vector.replicate 4 0⟩

def insert (m : Bitmap) (b : UInt8) : Bitmap := m.setWord b (m.word b ||| mask b)

def erase (m : Bitmap) (b : UInt8) : Bitmap := m.setWord b (m.word b &&& ~~~mask b)

def contains (m : Bitmap) (b : UInt8) : Bool := m.word b &&& mask b != 0

def complement (m : Bitmap) : Bitmap := ⟨m.words.map (~~~·)⟩

def ofList (bytes : List UInt8) : Bitmap := bytes.foldl insert empty

def ofRange (low high : UInt8) : Bitmap :=
  ofList ((List.range' low.toNat (high.toNat + 1 - low.toNat)).map UInt8.ofNat)

/-- The set bits of the four words. -/
def size (m : Bitmap) : Nat := (m.words.map (·.cpop.toNat)).sum

def isEmpty (m : Bitmap) : Bool := m.words.all (· == 0)

def toList (m : Bitmap) : List UInt8 := ((List.range 256).map UInt8.ofNat).filter m.contains

/-- The word of a byte is put at its index. -/
theorem getElem_setWord {m : Bitmap} {b : UInt8} {w : BitVec 64} {i : Nat} (hi : i < 4) :
    (m.setWord b w).words[i] = if b.toNat / 64 = i then w else m.words[i] :=
  Vector.getElem_set (index_lt b) hi

theorem getLsbD_mask {b : UInt8} {k : Nat} :
    (mask b).getLsbD k = decide (b.toNat % 64 = k) := by
  have hb : b.toNat % 64 < 64 := Nat.mod_lt _ (by decide)
  rw [mask, ← BitVec.twoPow_eq, BitVec.getLsbD_twoPow, decide_eq_true hb, Bool.true_and]

theorem isEmpty_iff {m : Bitmap} : m.isEmpty ↔ m = empty := by
  obtain ⟨words⟩ := m
  rw [isEmpty, Vector.all_eq_true, empty, Bitmap.mk.injEq]
  simp only [beq_iff_eq]
  constructor
  · intro h
    exact Vector.ext fun i hi => (h i hi).trans (Vector.getElem_replicate hi).symm
  · rintro rfl i hi
    exact Vector.getElem_replicate hi

/-- Every question about the bitmap is answered as the set answers it. -/
structure Holds (m : Bitmap) (set : Charset) : Prop where
  contains_eq : ∀ b, m.contains b = set.contains b
  size_eq : m.size = set.size
  isEmpty_eq : m.isEmpty = set.isEmpty
  toList_eq : m.toList = set.toList

end Bitmap

end Machine

namespace Charset

open Machine (Bitmap)

variable {set set' : Charset} {low high b : UInt8} {bytes : List UInt8}

/-- The bits of the set in four words. -/
def bitmap (set : Charset) : Bitmap := ⟨.ofFn fun i => set.bits.extractLsb' (64 * i) 64⟩

theorem getElem_bitmap {i : Nat} (hi : i < 4) :
    set.bitmap.words[i] = set.bits.extractLsb' (64 * i) 64 := Vector.getElem_ofFn ..

/-- A bit of one of the four words is one of the bits of the set. -/
theorem getLsbD_bitmap {i k : Nat} (hi : i < 4) (hk : k < 64) :
    set.bitmap.words[i].getLsbD k = set.bits.getLsbD (64 * i + k) := by
  rw [getElem_bitmap hi, BitVec.getLsbD_extractLsb', decide_eq_true hk, Bool.true_and]

theorem getLsbD_word {k : Nat} (hk : k < 64) :
    (set.bitmap.word b).getLsbD k = set.bits.getLsbD (64 * (b.toNat / 64) + k) :=
  getLsbD_bitmap (Bitmap.index_lt b) hk

/-- A bitmap is that of a set if its bits are those of the set. -/
theorem eq_bitmap {m : Bitmap} (h : ∀ i (hi : i < 4), ∀ k < 64,
    m.words[i].getLsbD k = set.bits.getLsbD (64 * i + k)) : m = set.bitmap := by
  refine congrArg Bitmap.mk (Vector.ext fun i hi => BitVec.eq_of_getLsbD_eq fun k hk => ?_)
  exact (h i hi k hk).trans (getLsbD_bitmap hi hk).symm

/-- The one bit of a byte is in the byte's word, where its mask has it. -/
theorem getLsbD_singleton {i k : Nat} (hk : k < 64) :
    (singleton b).bits.getLsbD (64 * i + k)
      = (decide (b.toNat / 64 = i) && (Bitmap.mask b).getLsbD k) := by
  have hb : b.toNat < 256 := b.toNat_lt
  rw [singleton, BitVec.getLsbD_twoPow, decide_eq_true hb, Bool.true_and, Bitmap.getLsbD_mask,
    ← Bool.decide_and, decide_eq_decide]
  omega

/-! ### Operations on words -/

@[simp]
theorem bitmap_empty : empty.bitmap = .empty := by
  refine (eq_bitmap fun i hi k hk => ?_).symm
  simp [Bitmap.empty, empty]

/-- Another word for a byte makes the bitmap of a set with these bits there, and with the same bits
in the other words. -/
theorem setWord_bitmap {w : BitVec 64}
    (hword : ∀ k < 64, w.getLsbD k = set'.bits.getLsbD (64 * (b.toNat / 64) + k))
    (hother : ∀ i < 4, b.toNat / 64 ≠ i → ∀ k < 64,
      set.bits.getLsbD (64 * i + k) = set'.bits.getLsbD (64 * i + k)) :
    set.bitmap.setWord b w = set'.bitmap := by
  refine eq_bitmap fun i hi k hk => ?_
  rw [Bitmap.getElem_setWord hi]
  split
  · next h => exact h ▸ hword k hk
  · next h => exact (getLsbD_bitmap hi hk).trans (hother i hi h k hk)

@[simp]
theorem bitmap_insert : (set.insert b).bitmap = set.bitmap.insert b := by
  refine (setWord_bitmap (fun k hk => ?_) fun i hi hother k hk => ?_).symm
  · rw [insert, BitVec.getLsbD_or, BitVec.getLsbD_or, getLsbD_word hk, getLsbD_singleton hk,
      decide_eq_true rfl, Bool.true_and]
  · rw [insert, BitVec.getLsbD_or, getLsbD_singleton hk, decide_eq_false hother, Bool.false_and,
      Bool.or_false]

@[simp]
theorem bitmap_erase : (set.erase b).bitmap = set.bitmap.erase b := by
  refine (setWord_bitmap (fun k hk => ?_) fun i hi hother k hk => ?_).symm
  · have hb : b.toNat < 256 := b.toNat_lt
    have hbit : 64 * (b.toNat / 64) + k < 256 := by omega
    simp only [erase, BitVec.getLsbD_and, BitVec.getLsbD_not, getLsbD_word hk, getLsbD_singleton hk,
      decide_eq_true hk, decide_eq_true hbit, decide_true, Bool.true_and]
  · have hbit : 64 * i + k < 256 := by omega
    rw [erase, BitVec.getLsbD_and, BitVec.getLsbD_not, getLsbD_singleton hk, decide_eq_true hbit,
      decide_eq_false hother, Bool.false_and, Bool.not_false, Bool.true_and, Bool.and_true]

@[simp]
theorem bitmap_complement : set.complement.bitmap = set.bitmap.complement := by
  refine (eq_bitmap fun i hi k hk => ?_).symm
  have hbit : 64 * i + k < 256 := by omega
  simp only [Bitmap.complement, Vector.getElem_map, complement, BitVec.getLsbD_not,
    getLsbD_bitmap hi hk, decide_eq_true hk, decide_eq_true hbit]

@[simp]
theorem bitmap_ofList : (ofList bytes).bitmap = .ofList bytes := by
  rw [Bitmap.ofList, ← bitmap_empty]
  exact (List.foldl_hom bitmap fun _ _ => bitmap_insert.symm).symm

@[simp]
theorem bitmap_ofRange : (ofRange low high).bitmap = .ofRange low high := bitmap_ofList

/-! ### Questions to words -/

theorem contains_bitmap : set.bitmap.contains b = set.contains b := by
  have hb : b.toNat % 64 < 64 := Nat.mod_lt _ (by decide)
  have hbit : (set.bitmap.word b).getLsbD (b.toNat % 64) = set.contains b := by
    rw [getLsbD_word hb, Nat.div_add_mod, contains]
  rw [Bitmap.contains, Bitmap.mask, ← BitVec.twoPow_eq, BitVec.and_twoPow, hbit]
  cases set.contains b with
  | true =>
    have hmask : BitVec.twoPow 64 (b.toNat % 64) ≠ 0#64 := by
      intro h
      have hk := congrArg (·.getLsbD (b.toNat % 64)) h
      simp [hb] at hk
    exact bne_iff_ne.2 hmask
  | false => rfl

theorem toList_bitmap : set.bitmap.toList = set.toList :=
  List.filter_congr fun _ _ => contains_bitmap

/-- **Two sets are equal exactly if their words are.** -/
theorem bitmap_inj : set.bitmap = set'.bitmap ↔ set = set' := by
  refine ⟨fun h => eq_iff_contains.2 fun b => ?_, congrArg bitmap⟩
  rw [← contains_bitmap, h, contains_bitmap]

/-- The words count what the bits in a row count. -/
theorem size_bitmap : set.bitmap.size = set.size := by
  have hword : ∀ i : Fin 4, (set.bits.extractLsb' (64 * i) 64).cpop.toNat
      = ((List.range 64).map (64 * i.val + ·)).countP set.bits.getLsbD := by
    intro i
    rw [toNat_cpop_eq_countP, List.countP_map]
    refine List.countP_congr fun k hk => ?_
    rw [BitVec.getLsbD_extractLsb', decide_eq_true (List.mem_range.1 hk), Bool.true_and,
      Function.comp_apply]
  have hrow : ∀ n, (List.range (64 * n)).countP set.bits.getLsbD
      = ∑ i ∈ Finset.range n, ((List.range 64).map (64 * i + ·)).countP set.bits.getLsbD := by
    intro n
    induction n with
    | zero => rfl
    | succ n ih => rw [Nat.mul_succ, List.range_add, List.countP_append, ih, Finset.sum_range_succ]
  calc set.bitmap.size
      = ∑ i : Fin 4, (set.bits.extractLsb' (64 * i) 64).cpop.toNat := by
        rw [Bitmap.size, bitmap, ← Vector.sum_toList, Vector.map_ofFn, Vector.toList_ofFn,
          List.sum_ofFn]
        rfl
    _ = (List.range (64 * 4)).countP set.bits.getLsbD := by
        rw [hrow, ← Fin.sum_univ_eq_sum_range]
        exact Finset.sum_congr rfl fun i _ => hword i
    _ = set.size := (toNat_cpop_eq_countP set.bits).symm

theorem isEmpty_bitmap : set.bitmap.isEmpty = set.isEmpty := by
  rw [Bool.eq_iff_iff, Bitmap.isEmpty_iff, ← bitmap_empty, bitmap_inj, isEmpty_iff,
    ← members_empty, members_inj]

/-- **The four words answer as the set does.** -/
theorem holds_bitmap (set : Charset) : set.bitmap.Holds set where
  contains_eq _ := contains_bitmap
  size_eq := size_bitmap
  isEmpty_eq := isEmpty_bitmap
  toList_eq := toList_bitmap

/-! ## Operations one after the other -/

/-- Something that is done to a set of bytes. -/
inductive Operation where
  /-- Begin with the empty set. -/
  | new
  /-- Begin with the bytes of a list, which may be given at once or one by one. -/
  | ofList (bytes : List UInt8)
  /-- Begin with the bytes of a range. -/
  | ofRange (low high : UInt8)
  /-- Put a byte in. -/
  | insert (byte : UInt8)
  /-- Take a byte out. -/
  | erase (byte : UInt8)
  /-- Turn to the other bytes. -/
  | complement
deriving DecidableEq

namespace Operation

/-- The set behind an operation. -/
def perform (set : Charset) : Operation → Charset
  | new => .empty
  | ofList bytes => .ofList bytes
  | ofRange low high => .ofRange low high
  | insert b => set.insert b
  | erase b => set.erase b
  | complement => set.complement

/-- The four words behind an operation. -/
def performWords (m : Bitmap) : Operation → Bitmap
  | new => .empty
  | ofList bytes => .ofList bytes
  | ofRange low high => .ofRange low high
  | insert b => m.insert b
  | erase b => m.erase b
  | complement => m.complement

/-- The finite set behind an operation. -/
def performMembers (s : Finset UInt8) : Operation → Finset UInt8
  | new => ∅
  | ofList bytes => bytes.toFinset
  | ofRange low high => {b | low ≤ b ∧ b ≤ high}
  | insert b => Insert.insert b s
  | erase b => s.erase b
  | complement => sᶜ

theorem members_perform (op : Operation) :
    (op.perform set).members = op.performMembers set.members := by
  cases op with
  | new => exact members_empty
  | ofList bytes => exact members_ofList
  | ofRange low high => exact members_ofRange
  | insert b => exact members_insert
  | erase b => exact members_erase
  | complement => exact members_complement

theorem bitmap_perform (op : Operation) :
    (op.perform set).bitmap = op.performWords set.bitmap := by
  cases op with
  | new => exact bitmap_empty
  | ofList bytes => exact bitmap_ofList
  | ofRange low high => exact bitmap_ofRange
  | insert b => exact bitmap_insert
  | erase b => exact bitmap_erase
  | complement => exact bitmap_complement

end Operation

/-- The set behind operations on the empty set. -/
def performAll (ops : List Operation) : Charset := ops.foldl Operation.perform empty

/-- The four words behind operations on no bits. -/
def performWords (ops : List Operation) : Bitmap := ops.foldl Operation.performWords .empty

/-- The finite set behind operations on the empty one. -/
def performMembers (ops : List Operation) : Finset UInt8 := ops.foldl Operation.performMembers ∅

/-- **The operations on a set are those on its members.** -/
theorem members_performAll (ops : List Operation) :
    (performAll ops).members = performMembers ops := by
  rw [performMembers, ← members_empty]
  exact (List.foldl_hom members fun set op => (op.members_perform).symm).symm

/-- **The operations on a set are those on its four words.** -/
theorem bitmap_performAll (ops : List Operation) :
    (performAll ops).bitmap = performWords ops := by
  rw [performWords, ← bitmap_empty]
  exact (List.foldl_hom bitmap fun set op => (op.bitmap_perform).symm).symm

end Charset

end Packrat
