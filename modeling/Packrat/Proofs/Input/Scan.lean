import Packrat.Proofs.Input.Bits

/-!
# Proofs/Input/Scan — reading lists of bytes from the front

A `Scan` reads something from the front of a list of bytes and leaves the rest, or it fails. This is
what a rule does between byte boundaries, without cursors: `Input.slice` is the list of bytes from
one boundary to another, what is left of it is a slice again, and reads of whole bytes are scans of
the slice.
-/

namespace Packrat

/-! ## Slices -/

namespace Input

variable {input : Input} {first mid last : Nat}

/-- The bytes from one boundary to another. -/
def slice (input : Input) (first last : Nat) : List UInt8 := (input.bytes.extract first last).toList

theorem length_slice (hlast : last ≤ input.bytes.size) :
    (input.slice first last).length = last - first := by
  simp only [slice, Array.length_toList, Array.size_extract, Nat.min_eq_left hlast]

theorem slice_eq_drop_take : input.slice first last
    = (input.bytes.toList.take last).drop first := by
  rw [slice, Array.toList_extract, List.extract_eq_take_drop, List.drop_take]

theorem drop_slice (count : Nat) :
    (input.slice first last).drop count = input.slice (first + count) last := by
  rw [slice_eq_drop_take, slice_eq_drop_take, List.drop_drop]

theorem take_slice {count : Nat} (h : first + count ≤ last) :
    (input.slice first last).take count = input.slice first (first + count) := by
  rw [slice_eq_drop_take, slice_eq_drop_take, List.drop_take, List.take_take, List.drop_take]
  congr 1
  omega

/-! ## Reads of whole bytes -/

theorem byteAt?_atByte (hsize : input.bytes.size < wordBound) (hlast : last ≤ input.bytes.size) :
    input.byteAt? (.atByte first) (.atByte last) = (input.slice first last).head? := by
  refine Option.ext fun b => ?_
  rw [byteAt?_eq_some, slice_eq_drop_take, List.head?_drop, List.getElem?_take]
  simp only [Cursor.atByte, Cursor.le_def, Array.getElem?_toList, Nat.le_refl, and_true,
    true_and]
  split
  · constructor
    · exact fun h => h.2.2
    · exact fun h => ⟨by omega, by omega, h⟩
  · exact iff_of_false (fun h => by omega) (by simp)

theorem readBits?_atByte {count : Nat} (hsize : 8 * input.bytes.size < wordBound)
    (hlast : last ≤ input.bytes.size) :
    input.readBits? (.atByte first) (8 * count) (.atByte last) =
      if first + count ≤ last then
        some (bigEndian (input.slice first (first + count)), .atByte (first + count))
      else none := by
  have hlimit : (Cursor.atByte last).Spans input.stop := by
    refine .of_bitPosition_le (Nat.succ_pos 7) (Nat.succ_pos 7) ?_
    simp only [stop, Cursor.bitPosition_atByte]
    omega
  rw [readBits?_eq _ hlimit, Cursor.bitPosition_atByte, Cursor.bitPosition_atByte]
  by_cases hfit : first + count ≤ last
  · rw [if_pos (by omega), if_pos hfit, slice, bigEndian_extract (by omega) (by omega),
      ← Nat.mul_add, Nat.add_sub_cancel_left]
    refine congrArg some (Prod.ext rfl ?_)
    ext <;> simp only [Cursor.ofBitPosition, Cursor.atByte] <;> omega
  · rw [if_neg (by omega), if_neg hfit]

end Input

/-! ## Scans -/

/-- Reads something from the front of a list of bytes, and leaves the rest. -/
abbrev Scan (α : Type) := StateT (List UInt8) Option α

namespace Scan

variable {α β : Type}

/-- The number that so many bytes spell. -/
def number (count : Nat) : Scan (Fin (2 ^ (8 * count))) := fun l =>
  if h : count ≤ l.length then
    some (⟨bigEndian (l.take count), by
      have := bigEndian_lt (l.take count)
      rwa [List.length_take, Nat.min_eq_left h] at this⟩, l.drop count)
  else none

/-- A certain byte. -/
def byte (b : UInt8) : Scan Unit
  | found :: l => if found = b then some ((), l) else none
  | [] => none

/-- One thing and another. -/
def pair (f : Scan α) (f' : Scan β) : Scan (α × β) := do return (← f, ← f')

/-- Something that is accepted. -/
def filter (accepts : α → Bool) (f : Scan α) : Scan α := do
  let a ← f
  if accepts a then return a else failure

/-- The first of several that can be read. -/
def first : List (Scan α) → Scan α
  | [] => failure
  | f :: fs => fun l => (f l).or (first fs l)

/-- As often as it can be read, at most so many times. -/
def manyWithin (f : Scan α) : Nat → Scan (List α)
  | 0 => return []
  | count + 1 => fun l =>
    match f l with
    | some (a, l) => ((a :: ·) <$> manyWithin f count) l
    | none => some ([], l)

/-- As often as it can be read. -/
def many (f : Scan α) : Scan (List α) := fun l => manyWithin f l.length l

/-- As often as it can be read, at least once. -/
def many1 (f : Scan α) : Scan (List α) := do return (← f) :: (← many f)

/-- A count of bytes, and something that fills so many bytes. -/
def counted (count : α → Nat) (length : Scan α) (value : Scan β) : Scan β := do
  let a ← length
  fun l =>
    if count a ≤ l.length then
      match value (l.take (count a)) with
      | some (b, []) => some (b, l.drop (count a))
      | _ => none
    else none

/-- Whatever is read takes some bytes. -/
def Consumes (f : Scan α) : Prop := ∀ l a r, f l = some (a, r) → r.length < l.length

/-! ## What scans do -/

theorem bind_apply (f : Scan α) (next : α → Scan β) (l : List UInt8) :
    (f >>= next) l = (f l).bind fun (a, r) => next a r := rfl

theorem bind_eq_some {f : Scan α} {g : α → Scan β} {l r : List UInt8} {b : β} :
    (f >>= g) l = some (b, r) ↔ ∃ a m, f l = some (a, m) ∧ g a m = some (b, r) := by
  rw [bind_apply, Option.bind_eq_some_iff, Prod.exists]

theorem pure_eq_some {a b : α} {l r : List UInt8} :
    (pure a : Scan α) l = some (b, r) ↔ a = b ∧ l = r := by
  change some (a, l) = some (b, r) ↔ _
  rw [Option.some.injEq, Prod.mk.injEq]

theorem pair_eq_some {f : Scan α} {f' : Scan β} {l r : List UInt8} {a : α} {b : β} :
    pair f f' l = some ((a, b), r) ↔ ∃ m, f l = some (a, m) ∧ f' m = some (b, r) := by
  simp only [pair, bind_eq_some, pure_eq_some, Prod.mk.injEq]
  constructor
  · rintro ⟨_, m, ha, _, _, hb, ⟨rfl, rfl⟩, rfl⟩
    exact ⟨m, ha, hb⟩
  · rintro ⟨m, ha, hb⟩
    exact ⟨a, m, ha, b, r, hb, ⟨rfl, rfl⟩, rfl⟩

theorem map_apply (g : α → β) (f : Scan α) (l : List UInt8) :
    (g <$> f) l = (f l).map fun (a, r) => (g a, r) := by
  cases h : f l <;> simp [Functor.map, StateT.map, h]

theorem map_eq_some {g : α → β} {f : Scan α} {l r : List UInt8} {b : β} :
    (g <$> f) l = some (b, r) ↔ ∃ a, f l = some (a, r) ∧ g a = b := by
  simp only [map_apply, Option.map_eq_some_iff, Prod.mk.injEq, Prod.exists]
  constructor
  · rintro ⟨a, _, ha, hb, rfl⟩
    exact ⟨a, ha, hb⟩
  · rintro ⟨a, ha, hb⟩
    exact ⟨a, r, ha, hb, rfl⟩

theorem filter_apply (accepts : α → Bool) (f : Scan α) (l : List UInt8) :
    filter accepts f l = (f l).bind fun (a, r) => if accepts a then some (a, r) else none := by
  refine (bind_apply f _ l).trans ?_
  cases f l with
  | none => rfl
  | some ar =>
    simp only [Option.bind_some]
    split <;> rfl

theorem filter_eq_some {accepts : α → Bool} {f : Scan α} {l r : List UInt8} {a : α} :
    filter accepts f l = some (a, r) ↔ f l = some (a, r) ∧ accepts a := by
  rw [filter_apply]
  constructor
  · intro h
    obtain ⟨⟨a', r'⟩, ha, h⟩ := Option.bind_eq_some_iff.1 h
    obtain ⟨haccepts, h⟩ := (Option.ite_none_right_eq_some ..).1 h
    cases h
    exact ⟨ha, haccepts⟩
  · rintro ⟨ha, haccepts⟩
    rw [ha]
    exact if_pos haccepts

theorem first_cons (f : Scan α) (fs : List (Scan α)) (l : List UInt8) :
    first (f :: fs) l = (f l).or (first fs l) := rfl

theorem counted_apply (count : α → Nat) (length : Scan α) (value : Scan β) (l : List UInt8) :
    counted count length value l = (length l).bind fun (a, l) =>
      if count a ≤ l.length then
        match value (l.take (count a)) with
        | some (b, []) => some (b, l.drop (count a))
        | _ => none
      else none := rfl

theorem manyWithin_succ (f : Scan α) (count : Nat) (l : List UInt8) :
    manyWithin f (count + 1) l = match f l with
      | some (a, r) => ((a :: ·) <$> manyWithin f count) r
      | none => some ([], l) := rfl

/-- As many turns as there are bytes are enough. -/
theorem manyWithin_succ_eq {f : Scan α} (hf : f.Consumes) {count : Nat} {l : List UInt8}
    (h : l.length ≤ count) : manyWithin f (count + 1) l = manyWithin f count l := by
  induction count generalizing l with
  | zero =>
    obtain rfl := List.length_eq_zero_iff.1 (Nat.le_zero.1 h)
    have hnone : f [] = none := Option.eq_none_iff_forall_ne_some.2 fun (a, r) ha =>
      absurd (hf [] a r ha) (Nat.not_lt_zero _)
    rw [manyWithin_succ, hnone]
    rfl
  | succ count ih =>
    rw [manyWithin_succ, manyWithin_succ f count]
    cases ha : f l with
    | none => rfl
    | some ar =>
      have hr := hf l _ _ ha
      simp only [map_apply, ih (show ar.2.length ≤ count by omega)]

theorem manyWithin_eq_many {f : Scan α} (hf : f.Consumes) {count : Nat} {l : List UInt8}
    (h : l.length ≤ count) : manyWithin f count l = many f l := by
  induction h with
  | refl => rfl
  | step h ih => rw [manyWithin_succ_eq hf h, ih]

/-- One turn of a repetition. -/
theorem many_apply {f : Scan α} (hf : f.Consumes) (l : List UInt8) :
    many f l = match f l with
      | some (a, r) => ((a :: ·) <$> many f) r
      | none => some ([], l) := by
  rw [← manyWithin_eq_many hf (Nat.le_succ l.length), manyWithin_succ]
  cases ha : f l with
  | none => rfl
  | some ar => simp only [map_apply, manyWithin_eq_many hf (Nat.le_of_lt (hf l _ _ ha))]

/-- A repetition never fails. -/
theorem exists_many_eq_some (f : Scan α) (l : List UInt8) : ∃ as r, many f l = some (as, r) := by
  have hwithin : ∀ (count : Nat) (l : List UInt8), ∃ as r, manyWithin f count l = some (as, r) := by
    intro count
    induction count with
    | zero => exact fun l => ⟨[], l, rfl⟩
    | succ count ih =>
      intro l
      rw [manyWithin_succ]
      cases f l with
      | none => exact ⟨[], l, rfl⟩
      | some ar =>
        obtain ⟨as, r, hrest⟩ := ih ar.2
        exact ⟨ar.1 :: as, r, map_eq_some.2 ⟨as, hrest, rfl⟩⟩
  exact hwithin l.length l

theorem many1_apply (f : Scan α) (l : List UInt8) :
    many1 f l = (f l).bind fun (a, r) => ((a :: ·) <$> many f) r := by
  refine (bind_apply f _ l).trans ?_
  cases f l with
  | none => rfl
  | some ar =>
    simp only [Option.bind_some, map_apply, bind_apply]
    cases many f ar.2 <;> rfl

end Scan

end Packrat
