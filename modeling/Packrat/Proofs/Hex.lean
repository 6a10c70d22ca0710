import Mathlib.Tactic.IntervalCases
import Packrat.Hex.Dump
import Packrat.Proofs.Answers

/-!
# Proofs/Hex — a dump is a rendering in disguise

Bytes in hexadecimal (`Hex.encode`) may be typed with blanks, colons and dots anywhere, within pairs
too, and with letters in either case (`Dump.Disguises`). Main statement: `Dump.decode_iff`. A text is
read as bytes just if it is their rendering so disguised; the first character that is neither a digit
nor skipped is to blame otherwise, and the number of digits only if there is none.
-/

namespace Packrat

namespace Hex

/-! ## Digits -/

/-- The character is the digit of the number, in lower or upper case. -/
def IsDigit (c : Char) (n : Nat) : Prop := n < 16 ∧ (c = n.digitChar ∨ c = n.digitChar.toUpper)

instance (c : Char) (n : Nat) : Decidable (IsDigit c n) := inferInstanceAs (Decidable (_ ∧ _))

/-- A character of a range is a digit if those of the range are digits one after the other. -/
theorem isDigit_of_range {low high c : Char} {n : Nat} (first : Nat)
    (hdigits : ∀ k ≤ high.toNat - low.toNat, IsDigit (.ofNat (low.toNat + k)) (k + first))
    (hrange : low ≤ c ∧ c ≤ high) (hn : c.toNat - low.toNat + first = n) : IsDigit c n := by
  have hlow : low.toNat ≤ c.toNat := UInt32.le_iff_toNat_le.1 hrange.1
  have hhigh : c.toNat ≤ high.toNat := UInt32.le_iff_toNat_le.1 hrange.2
  have hc := hdigits (c.toNat - low.toNat) (Nat.sub_le_sub_right hhigh _)
  rwa [Nat.add_sub_cancel' hlow, Char.ofNat_toNat, hn] at hc

theorem digit?_eq_some {c : Char} {n : Nat} : digit? c = some n ↔ IsDigit c n := by
  constructor
  · intro h
    rw [digit?] at h
    split at h
    · next hrange => exact isDigit_of_range 0 (by decide) hrange (Option.some.inj h)
    · split at h
      · next hrange => exact isDigit_of_range 10 (by decide) hrange (Option.some.inj h)
      · split at h
        · next hrange => exact isDigit_of_range 10 (by decide) hrange (Option.some.inj h)
        · cases h
  · rintro ⟨hn, rfl | rfl⟩ <;> interval_cases n <;> rfl

/-- Bytes are rendered as two digits each. -/
theorem toList_encode (bytes : List UInt8) : (encode bytes).toList
    = bytes.flatMap fun b => [(b.toNat / 16).digitChar, (b.toNat % 16).digitChar] := by
  have hbyte : ∀ b : UInt8, (ofNat 2 b.toNat).toList
      = [(b.toNat / 16).digitChar, (b.toNat % 16).digitChar] := by
    intro b
    have hb := b.toNat_lt
    rw [ofNat]
    by_cases hsmall : b.toNat < 16
    · simp [Nat.toDigits_of_lt_base hsmall, Nat.div_eq_of_lt hsmall, Nat.mod_eq_of_lt hsmall]
    · have hlarge : 16 ≤ b.toNat := Nat.le_of_not_lt hsmall
      have hhigh : b.toNat / 16 < 16 := by omega
      simp [Nat.toDigits_of_base_le (by decide) hlarge, Nat.toDigits_of_lt_base hhigh]
  rw [encode, String.toList_join, List.flatMap_map]
  simp only [hbyte]

namespace Dump

variable {text : String} {cs : List Char} {bytes : List UInt8} {ds : List Nat}

/-! ## Pairs of digits -/

/-- The characters are pairs of digits, one pair for each byte. -/
inductive Spells : List Char → List UInt8 → Prop where
  | nil : Spells [] []
  | pair {high low : Char} {b : UInt8} {cs : List Char} {bytes : List UInt8}
      (hhigh : IsDigit high (b.toNat / 16)) (hlow : IsDigit low (b.toNat % 16))
      (rest : Spells cs bytes) : Spells (high :: low :: cs) (b :: bytes)

/-- An even number of digits spells what their pairs stand for. -/
theorem spells_pairs (hdigits : List.Forall₂ IsDigit cs ds) (heven : ds.length % 2 = 0) :
    Spells cs (pairs ds) := by
  induction ds using pairs.induct generalizing cs with
  | case1 high low ds ih =>
    cases hdigits with
    | cons hhigh hdigits =>
      cases hdigits with
      | cons hlow hdigits =>
        have hhigh16 : high < 16 := hhigh.1
        have hlow16 : low < 16 := hlow.1
        have hbyte : (UInt8.ofNat (16 * high + low)).toNat = 16 * high + low :=
          Nat.mod_eq_of_lt (by omega)
        refine .pair ?_ ?_ (ih hdigits ((Nat.add_mod_right ..).symm.trans heven))
        · rwa [hbyte, show (16 * high + low) / 16 = high by omega]
        · rwa [hbyte, show (16 * high + low) % 16 = low by omega]
  | case2 ds hshort =>
    cases hdigits with
    | nil => exact .nil
    | cons hdigit hdigits =>
      cases hdigits with
      | nil => cases heven
      | cons => exact absurd rfl (hshort _ _ _)

/-- What spells bytes is an even number of digits, whose pairs stand for them. -/
theorem Spells.exists_digits (h : Spells cs bytes) :
    ∃ ds, List.Forall₂ IsDigit cs ds ∧ ds.length % 2 = 0 ∧ pairs ds = bytes := by
  induction h with
  | nil => exact ⟨[], .nil, rfl, rfl⟩
  | @pair high low b cs bytes hhigh hlow rest ih =>
    obtain ⟨ds, hdigits, heven, rfl⟩ := ih
    refine ⟨b.toNat / 16 :: b.toNat % 16 :: ds, .cons hhigh (.cons hlow hdigits),
      (Nat.add_mod_right ..).trans heven, ?_⟩
    rw [pairs, Nat.div_add_mod, UInt8.ofNat_toNat]

/-! ## Reading -/

/-- The characters of a text that are not skipped. -/
def kept (text : String) : List Char := text.toList.filter (!isSkipped ·)

theorem digits_eq_ok : digits text = .ok ds ↔ List.Forall₂ IsDigit (kept text) ds := by
  rw [digits, mapM_eq_ok, kept]
  refine iff_of_eq (congrArg (List.Forall₂ · _ ds) ?_)
  funext c n
  rw [← digit?_eq_some]
  cases digit? c <;> simp

/-- The first character that is no digit is to blame. -/
theorem digits_eq_error {e : Error} : digits text = .error e ↔ ∃ before c after,
    kept text = before ++ c :: after ∧ (∀ d ∈ before, ∃ n, IsDigit d n) ∧ (∀ n, ¬IsDigit c n)
      ∧ e = .unexpected c := by
  rw [digits, mapM_eq_error, kept]
  refine exists_congr fun before => exists_congr fun c => exists_congr fun after =>
    and_congr_right fun _ => and_congr ?_ ?_
  · refine forall₂_congr fun d _ => exists_congr fun n => ?_
    rw [← digit?_eq_some]
    cases digit? d <;> simp
  · simp only [← digit?_eq_some]
    cases digit? c <;> simp [eq_comm]

theorem decode_of_ok (h : digits text = .ok ds) :
    decode text = if ds.length % 2 = 1 then .error (.oddDigits ds.length) else .ok (pairs ds) := by
  rw [decode, h]
  rfl

theorem decode_of_error {e : Error} (h : digits text = .error e) : decode text = .error e := by
  rw [decode, h]
  rfl

theorem decode_eq_ok : decode text = .ok bytes ↔ Spells (kept text) bytes := by
  constructor
  · intro h
    cases hdigits : digits text with
    | error e => exact nomatch (decode_of_error hdigits).symm.trans h
    | ok ds =>
      rw [decode_of_ok hdigits] at h
      split at h
      · cases h
      · next heven =>
        obtain rfl := Except.ok.inj h
        exact spells_pairs (digits_eq_ok.1 hdigits) (Nat.mod_two_ne_one.1 heven)
  · intro h
    obtain ⟨ds, hdigits, heven, rfl⟩ := h.exists_digits
    rw [decode_of_ok (digits_eq_ok.2 hdigits), if_neg (by omega)]

theorem decode_eq_unexpected {c : Char} : decode text = .error (.unexpected c) ↔
    ∃ before after, kept text = before ++ c :: after ∧ (∀ d ∈ before, ∃ n, IsDigit d n)
      ∧ ∀ n, ¬IsDigit c n := by
  constructor
  · intro h
    cases hdigits : digits text with
    | error e =>
      obtain ⟨before, c', after, hsplit, hbefore, hc', rfl⟩ := digits_eq_error.1 hdigits
      obtain rfl := Error.unexpected.inj (Except.error.inj ((decode_of_error hdigits).symm.trans h))
      exact ⟨before, after, hsplit, hbefore, hc'⟩
    | ok ds =>
      rw [decode_of_ok hdigits] at h
      split at h <;> cases h
  · rintro ⟨before, after, hsplit, hbefore, hc⟩
    exact decode_of_error (digits_eq_error.2 ⟨before, c, after, hsplit, hbefore, hc, rfl⟩)

theorem decode_eq_oddDigits {count : Nat} : decode text = .error (.oddDigits count) ↔
    (∀ c ∈ kept text, ∃ n, IsDigit c n) ∧ (kept text).length = count ∧ count % 2 = 1 := by
  cases hdigits : digits text with
  | error e =>
    obtain ⟨before, c, after, hsplit, -, hc, rfl⟩ := digits_eq_error.1 hdigits
    rw [decode_of_error hdigits]
    constructor
    · intro h
      cases h
    · rintro ⟨hall, -⟩
      obtain ⟨n, hn⟩ := hall c (hsplit ▸ List.mem_append_right _ List.mem_cons_self)
      exact absurd hn (hc n)
  | ok ds =>
    have hdigit := digits_eq_ok.1 hdigits
    have hall := exists_forall₂.1 ⟨ds, hdigit⟩
    rw [decode_of_ok hdigits, hdigit.length_eq]
    constructor
    · intro h
      split at h
      · next hodd =>
        cases h
        exact ⟨hall, rfl, hodd⟩
      · cases h
    · rintro ⟨-, rfl, hodd⟩
      rw [if_pos hodd]

/-! ## Renderings in disguise -/

/-- The text is the rendering but for skipped characters, which may stand anywhere, and the case of
letters. -/
inductive Disguises : List Char → List Char → Prop where
  | nil : Disguises [] []
  | skipped {ds : List Char} {c : Char} {cs : List Char} (hskipped : isSkipped c)
      (rest : Disguises ds cs) : Disguises ds (c :: cs)
  | digit {d : Char} {ds : List Char} {c : Char} {cs : List Char} (hcase : c = d ∨ c = d.toUpper)
      (rest : Disguises ds cs) : Disguises (d :: ds) (c :: cs)

theorem isSkipped_eq_false {c : Char} {n : Nat} (h : IsDigit c n) : isSkipped c = false := by
  obtain ⟨hn, rfl | rfl⟩ := h <;> interval_cases n <;> rfl

/-- A disguise comes off with the characters that are skipped. -/
theorem disguises_iff {rendering : List Char}
    (hdigits : ∀ d ∈ rendering, ∃ n < 16, d = n.digitChar) : Disguises rendering cs ↔
      List.Forall₂ (fun d c => c = d ∨ c = d.toUpper) rendering (cs.filter (!isSkipped ·)) := by
  constructor
  · intro h
    induction h with
    | nil => exact .nil
    | skipped hskipped rest ih =>
      rw [List.filter_cons_of_neg (by simp [hskipped])]
      exact ih hdigits
    | @digit d ds c cs hcase rest ih =>
      obtain ⟨⟨n, hn, rfl⟩, hrest⟩ := List.forall_mem_cons.1 hdigits
      rw [List.filter_cons_of_pos (by rw [isSkipped_eq_false ⟨hn, hcase⟩]; rfl)]
      exact .cons hcase (ih hrest)
  · intro h
    induction cs generalizing rendering with
    | nil =>
      cases h
      exact .nil
    | cons c cs ih =>
      by_cases hskipped : isSkipped c
      · rw [List.filter_cons_of_neg (by simp [hskipped])] at h
        exact .skipped hskipped (ih hdigits h)
      · rw [List.filter_cons_of_pos (by simp [hskipped])] at h
        cases h with
        | cons hcase rest => exact .digit hcase (ih (List.forall_mem_cons.1 hdigits).2 rest)

/-- What spells bytes is their rendering but for the case of letters. -/
theorem spells_iff : Spells cs bytes ↔
    List.Forall₂ (fun d c => c = d ∨ c = d.toUpper) (encode bytes).toList cs := by
  rw [toList_encode]
  induction bytes generalizing cs with
  | nil =>
    constructor
    · rintro ⟨⟩
      exact .nil
    · rintro ⟨⟩
      exact .nil
  | cons b bytes ih =>
    have hhigh : b.toNat / 16 < 16 := Nat.div_lt_of_lt_mul b.toNat_lt
    have hlow : b.toNat % 16 < 16 := Nat.mod_lt _ (by decide)
    constructor
    · intro h
      cases h with
      | pair hhigh hlow rest => exact .cons hhigh.2 (.cons hlow.2 (ih.1 rest))
    · intro h
      cases h with
      | cons hhighCase h =>
        cases h with
        | cons hlowCase rest => exact .pair ⟨hhigh, hhighCase⟩ ⟨hlow, hlowCase⟩ (ih.2 rest)

theorem mem_encode {d : Char} (h : d ∈ (encode bytes).toList) : ∃ n < 16, d = n.digitChar := by
  rw [toList_encode] at h
  obtain ⟨b, -, hd⟩ := List.mem_flatMap.1 h
  obtain rfl | hd := List.mem_cons.1 hd
  · exact ⟨_, Nat.div_lt_of_lt_mul b.toNat_lt, rfl⟩
  · obtain rfl := List.mem_singleton.1 hd
    exact ⟨_, Nat.mod_lt _ (by decide), rfl⟩

/-- **What is read as bytes is their rendering in disguise, and nothing else.** With the skipped
characters left out, a text is read as the bytes that pairs of digits spell. The first character that
is no digit is to blame, however many there are; if there is none, an odd number of digits is. So a
text is read as bytes just if it is their rendering with characters to skip put in anywhere and
letters in either case. -/
theorem decode_iff (text : String) :
    (∀ bytes, decode text = .ok bytes ↔ Spells (kept text) bytes)
      ∧ (∀ c, decode text = .error (.unexpected c) ↔ ∃ before after,
          kept text = before ++ c :: after ∧ (∀ d ∈ before, ∃ n, IsDigit d n)
            ∧ ∀ n, ¬IsDigit c n)
      ∧ (∀ count, decode text = .error (.oddDigits count) ↔
          (∀ c ∈ kept text, ∃ n, IsDigit c n) ∧ (kept text).length = count ∧ count % 2 = 1)
      ∧ ∀ bytes, decode text = .ok bytes ↔ Disguises (encode bytes).toList text.toList := by
  refine ⟨fun _ => decode_eq_ok, fun _ => decode_eq_unexpected, fun _ => decode_eq_oddDigits,
    fun bytes => ?_⟩
  rw [decode_eq_ok, spells_iff, disguises_iff fun d => mem_encode, kept]

example : decode "1 2:3.4\nAb" = .ok [0x12, 0x34, 0xab] := by decide +kernel

example : decode "12 3x 4" = .error (.unexpected 'x') := by decide +kernel

end Dump

end Hex

end Packrat
