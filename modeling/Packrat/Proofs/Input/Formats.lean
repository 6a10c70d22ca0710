import Mathlib.Data.List.Induction
import Packrat.Proofs.Input.Scan

/-!
# Proofs/Input/Formats — scans that read back what is written

A format is a way of writing things down as bytes, together with a condition on the things that may
be written. A scan *decodes* a format (`Scan.Decodes`) if it reads just what is written in it,
whatever stands behind; within a window it is enough that it does so for all of the window
(`Scan.Fills`). Each way of making a scan of others goes with a way of making a format of others.
-/

namespace Packrat

/-! ## Numbers -/

/-- The low bytes of a number, the most significant first. -/
def bytesOf : (count n : Nat) → List UInt8
  | 0, _ => []
  | count + 1, n => bytesOf count (n / 256) ++ [.ofNat n]

@[simp]
theorem length_bytesOf (count n : Nat) : (bytesOf count n).length = count := by
  induction count generalizing n with
  | zero => rfl
  | succ count ih => rw [bytesOf, List.length_append, ih, List.length_singleton]

theorem bigEndian_bytesOf (count n : Nat) : bigEndian (bytesOf count n) = n % 2 ^ (8 * count) := by
  induction count generalizing n with
  | zero => rw [Nat.mul_zero, Nat.pow_zero, Nat.mod_one]; rfl
  | succ count ih =>
    have hb : bigEndian [UInt8.ofNat n] = n % 256 := Nat.zero_add _
    rw [bytesOf, bigEndian_append, ih, hb, List.length_singleton, Nat.mul_add 8, Nat.pow_add,
      Nat.mul_comm (2 ^ (8 * count)), Nat.mod_mul, Nat.mul_comm, Nat.add_comm]

theorem bytesOf_bigEndian (bytes : List UInt8) :
    bytesOf bytes.length (bigEndian bytes) = bytes := by
  induction bytes using List.reverseRecOn with
  | nil => rfl
  | append_singleton bytes b ih =>
    have hb : bigEndian [b] = b.toNat := Nat.zero_add _
    have hlt : b.toNat < 256 := b.toNat_lt
    rw [List.length_append, List.length_singleton, bytesOf, bigEndian_append, hb,
      List.length_singleton]
    congr 1
    · rw [show (bigEndian bytes * 2 ^ (8 * 1) + b.toNat) / 256 = bigEndian bytes by omega, ih]
    · refine congrArg (fun b => [b]) (UInt8.toNat_inj.1 ?_)
      change (_ : Nat) % 256 = b.toNat
      omega

namespace Scan

variable {α β γ : Type} {f : Scan α} {f' : Scan β} {fits : α → Prop} {fits' : β → Prop}
  {encode : α → List UInt8} {encode' : β → List UInt8}

/-! ## Formats -/

/-- The scan reads what is written, if it is fit to be written, and nothing else. -/
def Decodes (f : Scan α) (fits : α → Prop) (encode : α → List UInt8) : Prop :=
  ∀ l a r, f l = some (a, r) ↔ fits a ∧ l = encode a ++ r

/-- The same for all of a window. -/
def Fills (f : Scan α) (fits : α → Prop) (encode : α → List UInt8) : Prop :=
  ∀ l a, f l = some (a, []) ↔ fits a ∧ l = encode a

theorem Decodes.fills (h : f.Decodes fits encode) : f.Fills fits encode := fun l a => by
  rw [h l a [], List.append_nil]

/-- The same format said otherwise. -/
theorem Decodes.congr (h : f.Decodes fits encode) {fits' : α → Prop} {encode' : α → List UInt8}
    (hfits : ∀ a, fits a ↔ fits' a) (hencode : ∀ a, fits' a → encode a = encode' a) :
    f.Decodes fits' encode' := by
  intro l a r
  rw [h l a r, hfits]
  exact and_congr_right fun ha => by rw [hencode a ha]

theorem Fills.congr (h : f.Fills fits encode) {fits' : α → Prop} (hfits : ∀ a, fits a ↔ fits' a) :
    f.Fills fits' encode := fun l a => by rw [h l a, hfits]

/-- Something made of what is read, and written as that was. -/
theorem Decodes.map (h : f.Decodes fits encode) (e : α → β)
    (he : ∀ a, fits a → encode' (e a) = encode a) :
    (e <$> f).Decodes (fun b => ∃ a, fits a ∧ e a = b) encode' := by
  intro l b r
  simp only [map_eq_some, h l]
  constructor
  · rintro ⟨a, ⟨ha, rfl⟩, rfl⟩
    exact ⟨⟨a, ha, rfl⟩, by rw [he a ha]⟩
  · rintro ⟨⟨a, ha, rfl⟩, rfl⟩
    exact ⟨a, ⟨ha, by rw [he a ha]⟩, rfl⟩

theorem Fills.map (h : f.Fills fits encode) (e : α → β)
    (he : ∀ a, fits a → encode' (e a) = encode a) :
    (e <$> f).Fills (fun b => ∃ a, fits a ∧ e a = b) encode' := by
  intro l b
  simp only [map_eq_some, h l]
  constructor
  · rintro ⟨a, ⟨ha, rfl⟩, rfl⟩
    exact ⟨⟨a, ha, rfl⟩, (he a ha).symm⟩
  · rintro ⟨⟨a, ha, rfl⟩, rfl⟩
    exact ⟨a, ⟨ha, he a ha⟩, rfl⟩

/-- What is written is read back. -/
theorem Decodes.apply_append (h : f.Decodes fits encode) {a : α} (ha : fits a) (r : List UInt8) :
    f (encode a ++ r) = some (a, r) := (h _ a r).2 ⟨ha, rfl⟩

/-- More behind what is read changes nothing. -/
theorem Decodes.append (h : f.Decodes fits encode) {l r : List UInt8} {a : α}
    (ha : f l = some (a, r)) (more : List UInt8) : f (l ++ more) = some (a, r ++ more) := by
  obtain ⟨hfits, rfl⟩ := (h l a r).1 ha
  rw [List.append_assoc]
  exact h.apply_append hfits _

/-- A format that writes something for everything. -/
theorem Decodes.consumes (h : f.Decodes fits encode) (hne : ∀ a, encode a ≠ []) :
    f.Consumes := by
  intro l a r ha
  obtain ⟨-, rfl⟩ := (h l a r).1 ha
  rw [List.length_append]
  exact Nat.lt_add_of_pos_left (List.length_pos_iff.2 (hne a))

/-! ## Leaves -/

theorem decodes_number (count : Nat) :
    (number count).Decodes (fun _ => True) fun n => bytesOf count n := by
  intro l n r
  rw [true_and, number]
  constructor
  · intro h
    split at h
    · next hle =>
      obtain ⟨rfl, rfl⟩ := Prod.mk.inj (Option.some.inj h)
      have htake := bytesOf_bigEndian (l.take count)
      rw [List.length_take, Nat.min_eq_left hle] at htake
      dsimp only
      rw [htake, List.take_append_drop]
    · cases h
  · rintro rfl
    have hlength := length_bytesOf count n
    rw [dif_pos (by rw [List.length_append, hlength]; omega)]
    refine congrArg some (Prod.ext (Fin.ext ?_) (List.drop_left' hlength))
    change bigEndian ((bytesOf count n ++ r).take count) = n
    rw [List.take_left' hlength, bigEndian_bytesOf, Nat.mod_eq_of_lt n.isLt]

theorem decodes_byte (b : UInt8) : (byte b).Decodes (fun _ => True) fun _ => [b] := by
  intro l _ r
  rw [true_and]
  cases l with
  | nil => exact iff_of_false (fun h => nomatch h) fun h => nomatch h
  | cons found l =>
    rw [byte, Option.ite_none_right_eq_some, List.singleton_append, List.cons.injEq]
    exact and_congr_right fun _ => ⟨fun h => (Prod.mk.inj (Option.some.inj h)).2, fun h => h ▸ rfl⟩

theorem decodes_pure (a : α) : (pure a : Scan α).Decodes (· = a) fun _ => [] := by
  intro l b r
  constructor
  · intro h
    cases h
    exact ⟨rfl, rfl⟩
  · rintro ⟨rfl, rfl⟩
    rfl

theorem Decodes.filter (h : f.Decodes fits encode) (accepts : α → Bool) :
    (filter accepts f).Decodes (fun a => fits a ∧ accepts a) encode := by
  intro l a r
  rw [filter_eq_some, h l a r, and_right_comm]

/-! ## One after the other -/

theorem Decodes.pair (hf : f.Decodes fits encode) (hf' : f'.Decodes fits' encode') :
    (pair f f').Decodes (fun p => fits p.1 ∧ fits' p.2) fun p => encode p.1 ++ encode' p.2 := by
  rintro l ⟨a, b⟩ r
  simp only [pair_eq_some, hf l, hf' _ b r, List.append_assoc]
  constructor
  · rintro ⟨m, ⟨ha, rfl⟩, hb, rfl⟩
    exact ⟨⟨ha, hb⟩, rfl⟩
  · rintro ⟨⟨ha, hb⟩, rfl⟩
    exact ⟨_, ⟨ha, rfl⟩, hb, rfl⟩

theorem Decodes.pair_fills (hf : f.Decodes fits encode) (hf' : f'.Fills fits' encode') :
    (Scan.pair f f').Fills (fun p => fits p.1 ∧ fits' p.2) fun p => encode p.1 ++ encode' p.2 := by
  rintro l ⟨a, b⟩
  simp only [pair_eq_some, hf l, hf' _ b]
  constructor
  · rintro ⟨m, ⟨ha, rfl⟩, hb, rfl⟩
    exact ⟨⟨ha, hb⟩, rfl⟩
  · rintro ⟨⟨ha, hb⟩, rfl⟩
    exact ⟨_, ⟨ha, rfl⟩, hb, rfl⟩

theorem Fills.pair_unit (h : f.Fills fits encode) :
    (Scan.pair f (pure ())).Fills (fun p => fits p.1) fun p => encode p.1 := by
  rintro l ⟨a, u⟩
  rw [pair_eq_some, ← h l a]
  simp only [pure_eq_some, true_and, exists_eq_right]

/-! ## Alternatives -/

/-- Alternatives that differ in what they accept only. -/
theorem first_filter (ps : List (α → Bool)) (f : Scan α) :
    first (ps.map (Scan.filter · f)) = Scan.filter (fun a => ps.any (· a)) f := by
  funext l
  induction ps with
  | nil =>
    rw [filter_apply]
    cases f l <;> rfl
  | cons p ps ih =>
    rw [List.map_cons, first_cons, ih]
    simp only [filter_apply, List.any_cons]
    cases f l with
    | none => rfl
    | some ar =>
      simp only [Option.bind_some]
      cases p ar.1 <;> rfl

/-- One alternative more, behind the others. -/
theorem first_concat (fs : List (Scan α)) (f : Scan α) (l : List UInt8) :
    first (fs ++ [f]) l = (first fs l).or (f l) := by
  induction fs with
  | nil => exact Option.or_none
  | cons g fs ih => rw [List.cons_append, first_cons, first_cons, ih, Option.or_assoc]

/-- **Alternatives no two of which read the same** read what one of them reads. -/
theorem decodes_first {κ : Type} {ks : List κ} {f : κ → Scan α} {fits : κ → α → Prop}
    (hf : ∀ k ∈ ks, (f k).Decodes (fits k) encode)
    (hx : ks.Pairwise fun j k => ∀ a b r r', fits j a → fits k b →
      encode a ++ r ≠ encode b ++ r') :
    (first (ks.map f)).Decodes (fun a => ∃ k ∈ ks, fits k a) encode := by
  intro l a r
  induction ks with
  | nil => exact iff_of_false (fun h => nomatch h) fun ⟨⟨k, hk, _⟩, _⟩ => nomatch hk
  | cons k ks ih =>
    obtain ⟨hk, hf⟩ := List.forall_mem_cons.1 hf
    obtain ⟨hkx, hx⟩ := List.pairwise_cons.1 hx
    have ih := ih hf hx
    rw [List.map_cons, first_cons, Option.or_eq_some_iff, hk l a r, ih]
    simp only [List.mem_cons, exists_eq_or_imp]
    constructor
    · rintro (⟨ha, hl⟩ | ⟨-, ⟨j, hj, ha⟩, hl⟩)
      · exact ⟨.inl ha, hl⟩
      · exact ⟨.inr ⟨j, hj, ha⟩, hl⟩
    · rintro ⟨ha | ⟨j, hj, ha⟩, rfl⟩
      · exact .inl ⟨ha, rfl⟩
      · refine .inr ⟨?_, ⟨j, hj, ha⟩, rfl⟩
        refine Option.eq_none_iff_forall_ne_some.2 fun (b, m) hb => ?_
        obtain ⟨hb, heq⟩ := (hk _ b m).1 hb
        exact hkx j hj b a m r hb ha heq.symm

/-! ## Repetition -/

theorem apply_nil_of_consumes (hf : f.Consumes) : f [] = none :=
  Option.eq_none_iff_forall_ne_some.2 fun (a, r) ha => absurd (hf [] a r ha) (Nat.not_lt_zero _)

/-- **A repetition reads things of a format until one cannot be read.** -/
theorem Decodes.many_eq_some (h : f.Decodes fits encode) (hf : f.Consumes) {l r : List UInt8}
    {as : List α} :
    many f l = some (as, r) ↔ (∀ a ∈ as, fits a) ∧ l = as.flatMap encode ++ r ∧ f r = none := by
  induction hlength : l.length using Nat.strongRecOn generalizing l as with
  | ind n ih =>
    rw [many_apply hf]
    cases hfl : f l with
    | none =>
      constructor
      · intro heq
        obtain ⟨rfl, rfl⟩ := Prod.mk.inj (Option.some.inj heq)
        exact ⟨fun _ ha => absurd ha List.not_mem_nil, rfl, hfl⟩
      · rintro ⟨has, rfl, hr⟩
        cases as with
        | nil => rfl
        | cons a as =>
          rw [List.flatMap_cons, List.append_assoc,
            h.apply_append (has a List.mem_cons_self)] at hfl
          cases hfl
    | some ar =>
      obtain ⟨a, m⟩ := ar
      obtain ⟨ha, rfl⟩ := (h l a m).1 hfl
      have hless := hf _ _ _ hfl
      simp only [map_apply, Option.map_eq_some_iff, Prod.mk.injEq, Prod.exists]
      constructor
      · rintro ⟨as', _, has, rfl, rfl⟩
        obtain ⟨hall, rfl, hr⟩ := (ih _ (hlength ▸ hless) rfl).1 has
        exact ⟨List.forall_mem_cons.2 ⟨ha, hall⟩,
          by rw [List.flatMap_cons, List.append_assoc], hr⟩
      · rintro ⟨hall, heq, hr⟩
        cases as with
        | nil =>
          rw [List.flatMap_nil, List.nil_append] at heq
          rw [heq, hr] at hfl
          cases hfl
        | cons a' as =>
          obtain ⟨ha', hall⟩ := List.forall_mem_cons.1 hall
          rw [List.flatMap_cons, List.append_assoc] at heq
          rw [heq, h.apply_append ha'] at hfl
          obtain ⟨rfl, rfl⟩ := Prod.mk.inj (Option.some.inj hfl)
          exact ⟨as, r, (ih _ (hlength ▸ hless) rfl).2 ⟨hall, rfl, hr⟩, rfl, rfl⟩

theorem many1_eq_some (hf : f.Consumes) {l r : List UInt8} {as : List α} :
    many1 f l = some (as, r) ↔ as ≠ [] ∧ many f l = some (as, r) := by
  rw [many1_apply, many_apply hf]
  cases f l with
  | none =>
    refine iff_of_false (fun h => nomatch h) fun ⟨hne, h⟩ => hne ?_
    exact (Prod.mk.inj (Option.some.inj h)).1.symm
  | some ar =>
    simp only [Option.bind_some, map_apply, Option.map_eq_some_iff]
    refine ⟨fun h => ⟨?_, h⟩, fun h => h.2⟩
    obtain ⟨as', -, heq⟩ := h
    exact (Prod.mk.inj heq).1 ▸ List.cons_ne_nil _ _

theorem Decodes.many (h : f.Decodes fits encode) (hf : f.Consumes) :
    (many f).Fills (fun as => ∀ a ∈ as, fits a) fun as => as.flatMap encode := fun l as => by
  rw [h.many_eq_some hf, List.append_nil, and_iff_left (apply_nil_of_consumes hf)]

theorem Decodes.many1 (h : f.Decodes fits encode) (hf : f.Consumes) :
    (many1 f).Fills (fun as => as ≠ [] ∧ ∀ a ∈ as, fits a) fun as => as.flatMap encode :=
  fun l as => by rw [many1_eq_some hf, h.many hf l as, and_assoc]

/-- Things of a format, and behind them something that cannot be taken for one of them. -/
theorem Decodes.many_pair (h : f.Decodes fits encode) (hf : f.Consumes)
    (h' : f'.Decodes fits' encode') (hend : ∀ l b r, f' l = some (b, r) → f l = none) :
    (Scan.pair (Scan.many f) f').Decodes (fun p => (∀ a ∈ p.1, fits a) ∧ fits' p.2)
      fun p => p.1.flatMap encode ++ encode' p.2 := by
  rintro l ⟨as, b⟩ r
  simp only [pair_eq_some, h.many_eq_some hf, List.append_assoc]
  constructor
  · rintro ⟨m, ⟨has, rfl, -⟩, hread⟩
    obtain ⟨hb, rfl⟩ := (h' m b r).1 hread
    exact ⟨⟨has, hb⟩, rfl⟩
  · rintro ⟨⟨has, hb⟩, rfl⟩
    have hread := h'.apply_append hb r
    exact ⟨encode' b ++ r, ⟨has, rfl, hend _ _ _ hread⟩, hread⟩

theorem Decodes.many1_pair (h : f.Decodes fits encode) (hf : f.Consumes)
    (h' : f'.Decodes fits' encode') (hend : ∀ l b r, f' l = some (b, r) → f l = none) :
    (Scan.pair (Scan.many1 f) f').Decodes
      (fun p => (p.1 ≠ [] ∧ ∀ a ∈ p.1, fits a) ∧ fits' p.2)
      fun p => p.1.flatMap encode ++ encode' p.2 := by
  rintro l ⟨as, b⟩ r
  have hmany := h.many_pair hf h' hend l (as, b) r
  rw [pair_eq_some] at hmany ⊢
  simp only [many1_eq_some hf, and_assoc, exists_and_left, hmany]

/-- So many times. -/
def times (f : Scan α) : Nat → Scan (List α)
  | 0 => return []
  | count + 1 => do return (← f) :: (← times f count)

theorem Decodes.times (h : f.Decodes fits encode) (count : Nat) :
    (times f count).Decodes (fun as => as.length = count ∧ ∀ a ∈ as, fits a)
      fun as => as.flatMap encode := by
  induction count with
  | zero =>
    refine (decodes_pure ([] : List α)).congr (fun as => ?_) fun as has => ?_
    · rw [List.length_eq_zero_iff]
      exact ⟨fun h => ⟨h, by rw [h]; exact fun _ ha => nomatch ha⟩, fun h => h.1⟩
    · rw [List.length_eq_zero_iff.1 has.1, List.flatMap_nil]
  | succ count ih =>
    intro l as r
    simp only [Scan.times, bind_eq_some, pure_eq_some, h _, ih _]
    constructor
    · rintro ⟨a, m, ⟨ha, rfl⟩, as, _, ⟨⟨hlength, hall⟩, rfl⟩, rfl, rfl⟩
      refine ⟨⟨congrArg Nat.succ hlength, List.forall_mem_cons.2 ⟨ha, hall⟩⟩, ?_⟩
      rw [List.flatMap_cons, List.append_assoc]
    · rintro ⟨⟨hlength, hall⟩, rfl⟩
      cases as with
      | nil => cases hlength
      | cons a as =>
        obtain ⟨ha, hall⟩ := List.forall_mem_cons.1 hall
        refine ⟨a, as.flatMap encode ++ r, ⟨ha, ?_⟩, as, r, ⟨⟨Nat.succ.inj hlength, hall⟩, rfl⟩,
          rfl, rfl⟩
        rw [List.flatMap_cons, List.append_assoc]

/-! ## Windows -/

/-- A count of bytes, and a window of so many bytes. -/
theorem Decodes.counted (hl : f.Decodes fits encode) (hv : f'.Fills fits' encode')
    {count : α → Nat} (ofCount : Nat → α) (hcount : ∀ a, fits a → ofCount (count a) = a) :
    (counted count f f').Decodes
      (fun b => fits' b ∧ fits (ofCount (encode' b).length)
        ∧ count (ofCount (encode' b).length) = (encode' b).length)
      fun b => encode (ofCount (encode' b).length) ++ encode' b := by
  intro l b r
  rw [counted_apply]
  constructor
  · intro h
    obtain ⟨⟨a, m⟩, hread, h⟩ := Option.bind_eq_some_iff.1 h
    obtain ⟨hfit, h⟩ := (Option.ite_none_right_eq_some ..).1 h
    have hlength : (m.take (count a)).length = count a := by
      rw [List.length_take, Nat.min_eq_left hfit]
    split at h
    · next b' hb =>
      obtain ⟨rfl, rfl⟩ := Prod.mk.inj (Option.some.inj h)
      obtain ⟨ha, rfl⟩ := (hl l a m).1 hread
      obtain ⟨hb, htake⟩ := (hv _ b').1 hb
      dsimp only
      rw [← htake, hlength, hcount a ha, List.append_assoc, List.take_append_drop]
      exact ⟨⟨hb, ha, rfl⟩, rfl⟩
    · cases h
  · rintro ⟨⟨hb, ha, hcount'⟩, rfl⟩
    rw [List.append_assoc, hl.apply_append ha, Option.bind_some]
    dsimp only
    rw [hcount', if_pos (by rw [List.length_append]; omega), List.take_left, List.drop_left,
      (hv _ b).2 ⟨hb, rfl⟩]

end Scan

end Packrat
