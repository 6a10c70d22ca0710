import Mathlib.Data.List.Forall2
import Packrat.Proofs.Input.Spelled
import Packrat.Proofs.Semantics.Found
import Packrat.Proofs.Semantics.Types

/-!
# Proofs/Semantics/Partition — bit fields partition the input

A row of bit fields matches exactly where the window has room for all of them, from any bit on. Each
carries the integer that its own bits spell, and one field as wide as all of them carries the same
bits (`fields_partition`).
-/

namespace Packrat.Grammar

open BitField (totalWidth totalWidth_nil totalWidth_cons)

variable {υ σ : Type} {g : Grammar υ σ} {input : Input} {start cursor limit : Cursor}
  {step : Step υ} {i p : Nat} {parts : List Nat} {field : BitField} {fields : List BitField}
  {values : Array (Value υ)}

/-- The entry reads the field. -/
abbrev IsField (g : Grammar υ σ) (p : Nat) (field : BitField) : Prop :=
  g.IsNode p (.bits field.width field.signed)

/-- **One field** matches exactly where it ends in the window, with the integer of its bits. -/
theorem settles_field (hp : g.IsField p field) (hlimit : limit.Spans input.stop)
    (hsize : 8 * input.bytes.size < wordBound) : g.Settles input p start limit step ↔
      step = if start.bitPosition + field.width ≤ limit.bitPosition then
          .ok (.of (.ofBitPosition (start.bitPosition + field.width))
            (.integer (input.integer start.bitPosition field)))
        else .error (.noMatch start) := by
  have hstop : limit.bitPosition ≤ 8 * input.bytes.size := hlimit.bitPosition_le
  rw [settles_node hp, Node.rule, Rule.yields_bits, Input.readBits?_eq field.width hlimit]
  by_cases hfit : start.bitPosition + field.width ≤ limit.bitPosition
  · have hword : start.bitPosition + field.width < wordBound := by omega
    simp only [if_pos hfit, if_pos (And.intro hword hfit), reduceCtorEq, false_and, false_or,
      Option.some.injEq, Prod.mk.injEq, Input.integer,
      Input.spelled_eq (Nat.le_trans hfit hstop)]
    constructor
    · rintro ⟨raw, stop, ⟨rfl, rfl⟩, rfl⟩
      rfl
    · rintro rfl
      exact ⟨_, _, ⟨rfl, rfl⟩, rfl⟩
  · have hnone : ¬(start.bitPosition + field.width < wordBound
        ∧ start.bitPosition + field.width ≤ limit.bitPosition) := fun h => hfit h.2
    simp only [if_neg hfit, if_neg hnone, true_and, reduceCtorEq, false_and, exists_false, or_false]
    exact eq_comm

/-- **Fields in a row** match exactly where the last of them ends in the window, with the integers
of all of them; a row of none matches in its window. -/
theorem row_fields (hparts : List.Forall₂ g.IsField parts fields) (hlimit : limit.Spans input.stop)
    (hsize : 8 * input.bytes.size < wordBound) (hcursor : fields = [] → cursor.Spans limit)
    (h : (Rule.sequenceFrom start (parts.map (Rule.child (σ := σ))) cursor values).Yields
      (g.Settles input) limit step) :
    (cursor.bitPosition + totalWidth fields ≤ limit.bitPosition
        ∧ step = .ok (.of (.ofBitPosition (cursor.bitPosition + totalWidth fields))
          (.sequence (values.toList ++ (input.integers cursor.bitPosition fields).map .integer)))) ∨
      ¬cursor.bitPosition + totalWidth fields ≤ limit.bitPosition ∧ ∃ f, step = .error f := by
  induction hparts generalizing cursor values with
  | nil =>
    have hspans := hcursor rfl
    obtain rfl := h
    refine .inl ⟨hspans.bitPosition_le, ?_⟩
    rw [totalWidth_nil, Nat.add_zero, Cursor.ofBitPosition_bitPosition hspans.left, Input.integers,
      List.map_nil, List.append_nil]
  | @cons p field parts fields hp hparts ih =>
    rw [List.map_cons, Rule.yields_sequenceFrom_cons] at h
    simp only [Rule.yields_child, settles_field hp hlimit hsize] at h
    rw [totalWidth_cons, ← Nat.add_assoc]
    by_cases hfit : cursor.bitPosition + field.width ≤ limit.bitPosition
    · simp only [if_pos hfit] at h
      obtain ⟨f, hf, -⟩ | ⟨m, hm, hrest⟩ := h
      · cases hf
      · obtain rfl := Except.ok.inj hm
        have hbit : (Cursor.ofBitPosition (cursor.bitPosition + field.width)).bit < 8 :=
          Nat.mod_lt _ (by decide)
        have hstop : (Cursor.ofBitPosition (cursor.bitPosition + field.width)).Spans limit :=
          .of_bitPosition_le hbit hlimit.left (by rwa [Cursor.bitPosition_ofBitPosition])
        have hrow := ih (fun _ => hstop) hrest
        rw [Cursor.bitPosition_ofBitPosition, toList_collect, List.append_assoc] at hrow
        exact hrow
    · simp only [if_neg hfit] at h
      obtain ⟨f, -, rfl⟩ | ⟨m, hm, -⟩ := h
      · exact .inr ⟨by omega, _, rfl⟩
      · cases hm

theorem slotless_field (hp : g.IsField p field) : g.Slotless p :=
  .node hp fun _ hc => (List.not_mem_nil hc).elim

/-- What is found at a field, in whatever state, is what the field settles to. -/
theorem found_field (hp : g.IsField p field) (hlimit : limit.Spans input.stop)
    (hsize : 8 * input.bytes.size < wordBound) (hfound : g.Found input p start limit step) :
    step = if start.bitPosition + field.width ≤ limit.bitPosition then
        .ok (.of (.ofBitPosition (start.bitPosition + field.width))
          (.integer (input.integer start.bitPosition field)))
      else .error (.noMatch start) :=
  (settles_field hp hlimit hsize).1 (hfound.settles (lt_size_of_entry hp)
    ((slotless_field hp).fatal?_eq_none hfound))

/-- No placeholder stands below a row of fields. -/
theorem slotless_fields (hrow : g.IsNode i (.sequence parts))
    (hparts : List.Forall₂ g.IsField parts fields) : g.Slotless i := by
  refine .node hrow fun c hc => ?_
  obtain ⟨k, hk, rfl⟩ := List.getElem_of_mem hc
  exact slotless_field (hparts.get hk (hparts.length_eq ▸ hk))

/-- **Bit fields partition the input.** Wherever and in whatever state a row of fields is matched,
it matches exactly if the window has room for all of them, and then ends behind the last one. Each
value is the integer that the bits of its field spell, behind those of the fields in front of it. A
single field as wide as all of them matches where they do, and has the same bits. -/
theorem fields_partition (hrow : g.IsNode i (.sequence parts))
    (hparts : List.Forall₂ g.IsField parts fields) (hsome : fields ≠ [])
    (hwidths : ∀ f ∈ fields, 1 ≤ f.width ∧ f.width ≤ 64) (hsize : input.bytes.size < 2 ^ 61)
    (hlimit : limit.Spans input.stop) (hfound : g.Found input i start limit step) :
    ((∃ m, step = .ok m) ↔ start.bitPosition + totalWidth fields ≤ limit.bitPosition)
      ∧ (∀ m, step = .ok m →
        m.stop = .ofBitPosition (start.bitPosition + totalWidth fields)
          ∧ ∃ ns : List Integer, m.value = some (.sequence (ns.map .integer))
            ∧ ns.length = fields.length
            ∧ ∀ (k : Nat) n f, ns[k]? = some n → fields[k]? = some f →
              n.SpelledBy input (start.bitPosition + totalWidth (fields.take k)) f
                ∧ n.ComputedFrom input (start.bitPosition + totalWidth (fields.take k)) f)
      ∧ ∀ j signed step', g.IsField j ⟨totalWidth fields, signed⟩ →
        g.Found input j start limit step' →
          ((∃ m, step' = .ok m) ↔ ∃ m, step = .ok m)
            ∧ ∀ m m', step = .ok m → step' = .ok m' → m'.stop = m.stop
              ∧ ∃ n ns, m'.value = some (.integer n) ∧ m.value = some (.sequence (ns.map .integer))
                ∧ n.raw = Integer.joined ns := by
  have hbits := eight_mul_lt_wordBound hsize
  have hstop : limit.bitPosition ≤ 8 * input.bytes.size := hlimit.bitPosition_le
  have hpos : ∀ f ∈ fields, 1 ≤ f.width := fun f hf => (hwidths f hf).1
  have htotal : 1 ≤ totalWidth fields := by
    obtain ⟨f, rest, rfl⟩ := List.exists_cons_of_ne_nil hsome
    have hfirst := hpos f List.mem_cons_self
    rw [totalWidth_cons]
    omega
  have hsettles := hfound.settles (lt_size_of_entry hrow)
    ((slotless_fields hrow hparts).fatal?_eq_none hfound)
  obtain ⟨hfit, rfl⟩ | ⟨hfit, f, rfl⟩ := row_fields hparts hlimit hbits
    (fun h => absurd h hsome) ((settles_node hrow).1 hsettles)
  · refine ⟨⟨fun _ => hfit, fun _ => ⟨_, rfl⟩⟩, fun m hm => ?_, fun j signed step' hj hfound' => ?_⟩
    · obtain rfl := Except.ok.inj hm
      refine ⟨rfl, input.integers start.bitPosition fields, rfl, Input.length_integers, ?_⟩
      intro k n f hn hf
      rw [Input.integers_getElem?, hf] at hn
      obtain rfl := Option.some.inj hn
      have hmem := List.mem_of_getElem? hf
      have hle := BitField.totalWidth_take_add_le hf
      exact ⟨Input.integer_spelled (hpos f hmem),
        Input.integer_computed (hwidths f hmem) (by omega) hbits⟩
    · have hstep' := found_field hj hlimit hbits hfound'
      rw [if_pos hfit] at hstep'
      subst hstep'
      refine ⟨⟨fun _ => ⟨_, rfl⟩, fun _ => ⟨_, rfl⟩⟩, fun m m' hm hm' => ?_⟩
      obtain rfl := Except.ok.inj hm
      obtain rfl := Except.ok.inj hm'
      refine ⟨rfl, _, input.integers start.bitPosition fields, rfl, rfl, ?_⟩
      rw [(Input.integer_spelled htotal).raw, Input.joined_integers hpos]
  · refine ⟨⟨fun ⟨m, hm⟩ => ?_, fun h => absurd h hfit⟩, fun m hm => ?_,
      fun j signed step' hj hfound' => ?_⟩
    · cases hm
    · cases hm
    · have hstep' := found_field hj hlimit hbits hfound'
      rw [if_neg hfit] at hstep'
      subst hstep'
      refine ⟨⟨fun ⟨m, hm⟩ => ?_, fun ⟨m, hm⟩ => ?_⟩, fun m m' hm => ?_⟩
      · cases hm
      · cases hm
      · cases hm

/-- Three bits and nine more, with a sign, and twelve bits at once. -/
def halves : Grammar Unit Unit where
  id := 0
  entries := #[.node (.bits 3 false), .node (.bits 9 true), .node (.sequence [0, 1]),
    .node (.bits 12 false)]
  targets := #[]
  child_lt := by decide
  slot_lt := by
    intro i h slot he
    have hmem := Array.getElem_mem h
    rw [he] at hmem
    simp only [List.mem_toArray, List.mem_cons, reduceCtorEq, List.not_mem_nil, or_false] at hmem
  target_lt := by decide

/-- What the two fields match, which begin inside a byte. -/
def halvesMatch : Match Unit :=
  .of (.atByte 2) (.sequence [.integer (.unsigned 5 3), .integer (.signed (-68) 9)])

/-- The two fields end with the input. -/
theorem fields_partition_halves : halves.IsNode 2 (.sequence [0, 1])
    ∧ List.Forall₂ halves.IsField [0, 1] [⟨3, false⟩, ⟨9, true⟩]
    ∧ [(⟨3, false⟩ : BitField), ⟨9, true⟩] ≠ []
    ∧ (∀ f ∈ [(⟨3, false⟩ : BitField), ⟨9, true⟩], 1 ≤ f.width ∧ f.width ≤ 64)
    ∧ (#[0x0b, 0xbc] : Array UInt8).size < 2 ^ 61
    ∧ (Cursor.atByte 2).Spans (Input.stop ⟨#[0x0b, 0xbc]⟩)
    ∧ halves.Found ⟨#[0x0b, 0xbc]⟩ 2 ⟨0, 4⟩ (.atByte 2) (.ok halvesMatch) ∧
    ((∃ m, (.ok halvesMatch : Step Unit) = .ok m) ↔
        4 + totalWidth [⟨3, false⟩, ⟨9, true⟩] ≤ 16)
      ∧ (∀ m, (.ok halvesMatch : Step Unit) = .ok m →
        m.stop = .ofBitPosition (4 + totalWidth [⟨3, false⟩, ⟨9, true⟩])
          ∧ ∃ ns : List Integer, m.value = some (.sequence (ns.map .integer)) ∧ ns.length = 2
            ∧ ∀ (k : Nat) n f, ns[k]? = some n → [(⟨3, false⟩ : BitField), ⟨9, true⟩][k]? = some f →
              n.SpelledBy ⟨#[0x0b, 0xbc]⟩ (4 + totalWidth ([⟨3, false⟩, ⟨9, true⟩].take k)) f
                ∧ n.ComputedFrom ⟨#[0x0b, 0xbc]⟩
                  (4 + totalWidth ([⟨3, false⟩, ⟨9, true⟩].take k)) f)
      ∧ ∀ j signed step', halves.IsField j ⟨totalWidth [⟨3, false⟩, ⟨9, true⟩], signed⟩ →
        halves.Found ⟨#[0x0b, 0xbc]⟩ j ⟨0, 4⟩ (.atByte 2) step' →
          ((∃ m, step' = .ok m) ↔ ∃ m, (.ok halvesMatch : Step Unit) = .ok m)
            ∧ ∀ m m', (.ok halvesMatch : Step Unit) = .ok m → step' = .ok m' → m'.stop = m.stop
              ∧ ∃ n ns, m'.value = some (.integer n) ∧ m.value = some (.sequence (ns.map .integer))
                ∧ n.raw = Integer.joined ns :=
  have hparts : List.Forall₂ halves.IsField [0, 1] [⟨3, false⟩, ⟨9, true⟩] :=
    .cons rfl (.cons rfl .nil)
  have hlimit : (Cursor.atByte 2).Spans (Input.stop ⟨#[0x0b, 0xbc]⟩) :=
    ⟨by decide, by decide, by decide⟩
  have hfound : halves.Found ⟨#[0x0b, 0xbc]⟩ 2 ⟨0, 4⟩ (.atByte 2) (.ok halvesMatch) :=
    .of_fresh {} 0 () (by decide +kernel)
  ⟨rfl, hparts, by decide, by decide, by decide, hlimit, hfound,
    fields_partition rfl hparts (by decide) (by decide) (by decide) hlimit hfound⟩

end Packrat.Grammar
