import Packrat.Proofs.Input.Fields
import Packrat.Proofs.Semantics.Reads

/-!
# Proofs/Semantics/Fields — entries that read bit fields

An entry that reads a field of so many bits (`Grammar.Field`) matches where the window has room for
them and the number that they spell is accepted. Fields in a row read the fields of one number
(`Grammar.FieldsAll`), whether or not they begin or end between bytes; a sequence of them that fills
whole bytes does what a scan does (`reads_fields`).
-/

namespace Packrat

variable {υ σ : Type}

/-- The number that some bits spell. -/
def Input.field (input : Input) (position width : Nat) : Fin (2 ^ width) :=
  ⟨input.leading (position + width) % 2 ^ width, Nat.mod_lt _ (Nat.two_pow_pos width)⟩

/-- The numbers that bits in a row spell. -/
def Input.fields (input : Input) : (position : Nat) → (ws : List Nat) → Fields ws
  | _, [] => ()
  | position, w :: ws => (input.field position w, input.fields (position + w) ws)

/-- Fields in a row are those of the number that all the bits spell. -/
theorem Input.fields_eq_unpack {input : Input} {position : Nat} {ws : List Nat}
    (h : position + ws.sum ≤ 8 * input.bytes.size) :
    input.fields position ws = .unpack ws (input.leading (position + ws.sum)) := by
  induction ws generalizing position with
  | nil => rfl
  | cons w ws ih =>
    rw [List.sum_cons, ← Nat.add_assoc] at h
    have hleading := leading_shiftRight h
    rw [Nat.shiftRight_eq_div_pow] at hleading
    rw [fields, ih h, List.sum_cons, ← Nat.add_assoc]
    refine Prod.ext (Fin.ext ?_) rfl
    change input.leading (position + w) % 2 ^ w = _ / 2 ^ ws.sum % 2 ^ w
    rw [hleading]

namespace Grammar

variable {g : Grammar υ σ} {i j w : Nat}

/-- The entry reads a field, if the number is accepted; `view` gives its values. -/
structure Field (g : Grammar υ σ) (i w : Nat) (accepts : Fin (2 ^ w) → Bool)
    (view : Fin (2 ^ w) → Option (Value υ)) : Prop extends g.Types i view where
  exact : ∀ {input start limit step}, limit.Spans input.stop → 8 * input.bytes.size < wordBound →
    g.Settles input i start limit step →
    (start.bitPosition + w ≤ limit.bitPosition ∧ accepts (input.field start.bitPosition w)
        ∧ step = .ok ⟨.ofBitPosition (start.bitPosition + w),
          view (input.field start.bitPosition w)⟩) ∨
      ¬(start.bitPosition + w ≤ limit.bitPosition ∧ accepts (input.field start.bitPosition w))
        ∧ ∃ f, step = .error f

theorem field_bits (he : g.entries[i]? = some (.node (.bits w false))) :
    g.Field i w (fun _ => true) fun n => some (.word n w) := by
  refine ⟨types_bits he, fun {input start limit step} hlimit hsize hs => ?_⟩
  have hword : start.bitPosition + w ≤ limit.bitPosition → start.bitPosition + w < wordBound :=
    fun hfit => Nat.lt_of_le_of_lt (Nat.le_trans hfit hlimit.bitPosition_le) hsize
  obtain ⟨hread, rfl⟩ | ⟨raw, stop, hread, rfl⟩ := Rule.yields_bits.1 ((settles_node he).1 hs)
  · rw [Input.readBits?_eq w hlimit] at hread
    refine .inr ⟨fun hfit => ?_, _, rfl⟩
    rw [if_pos ⟨hword hfit.1, hfit.1⟩] at hread
    cases hread
  · rw [Input.readBits?_eq w hlimit, Option.ite_none_right_eq_some] at hread
    obtain ⟨⟨-, hfit⟩, hread⟩ := hread
    cases hread
    exact .inl ⟨hfit, rfl, rfl⟩

/-- A test that is made of each number. -/
theorem Field.satisfying {test : Value υ → Except CallbackError Bool}
    (he : g.entries[i]? = some (.node (.satisfying j (.ofFunction test))))
    {view : Fin (2 ^ w) → Option (Value υ)} (h : g.Field j w (fun _ => true) view)
    {accepts : Fin (2 ^ w) → Bool} (htest : ∀ n, test ((view n).getD .none) = .ok (accepts n)) :
    g.Field i w accepts view := by
  refine ⟨(h.toTypes.satisfying he htest).map Subtype.val fun _ => rfl, ?_⟩
  intro input start limit step hlimit hsize hs
  obtain ⟨f, hf, rfl⟩ | ⟨m, hm, hanswer⟩ := Rule.yields_satisfying.1 ((settles_node he).1 hs)
  · obtain ⟨-, -, hstep⟩ | ⟨hfit, -⟩ := h.exact hlimit hsize (Rule.yields_child.1 hf)
    · cases hstep
    · exact .inr ⟨fun hfit' => hfit ⟨hfit'.1, rfl⟩, f, rfl⟩
  · obtain ⟨hfit, -, hstep⟩ | ⟨-, f, hstep⟩ := h.exact hlimit hsize (Rule.yields_child.1 hm)
    · obtain rfl := Except.ok.inj hstep
      have htest := htest (input.field start.bitPosition w)
      obtain ⟨e, ⟨_, hrefused⟩, -⟩ | ⟨⟨_, haccepted⟩, rfl⟩ | ⟨⟨_, haccepted⟩, rfl⟩ := hanswer
      · cases htest.symm.trans hrefused
      · exact .inl ⟨hfit, (Except.ok.inj (htest.symm.trans haccepted)), rfl⟩
      · have hno := Except.ok.inj (htest.symm.trans haccepted)
        exact .inr ⟨fun hfit' => Bool.false_ne_true (hno.symm.trans hfit'.2), _, rfl⟩
    · cases hstep

/-- A field that is not kept. -/
theorem Field.ignore (he : g.entries[i]? = some (.node (.ignore j)))
    {accepts : Fin (2 ^ w) → Bool} {view : Fin (2 ^ w) → Option (Value υ)}
    (h : g.Field j w accepts view) : g.Field i w accepts fun _ => none := by
  refine ⟨(h.toTypes.ignore he).map (fun _ => 0) fun _ => rfl, ?_⟩
  intro input start limit step hlimit hsize hs
  obtain ⟨f, hf, rfl⟩ | ⟨m, hm, rfl⟩ := Rule.yields_ignore.1 ((settles_node he).1 hs)
  · obtain ⟨-, -, hstep⟩ | ⟨hfit, -⟩ := h.exact hlimit hsize (Rule.yields_child.1 hf)
    · cases hstep
    · exact .inr ⟨hfit, f, rfl⟩
  · obtain ⟨hfit, haccepts, hstep⟩ | ⟨-, f, hstep⟩ := h.exact hlimit hsize (Rule.yields_child.1 hm)
    · obtain rfl := Except.ok.inj hstep
      exact .inl ⟨hfit, haccepts, rfl⟩
    · cases hstep

/-! ## In a row -/

/-- Entries in a row read fields in a row. -/
structure FieldsAll (g : Grammar υ σ) (parts ws : List Nat) (accepts : Fields ws → Bool)
    (view : Fields ws → List (Value υ)) : Prop extends g.TypesAll parts view where
  exact : ∀ {input start cursor limit values step}, limit.Spans input.stop →
    8 * input.bytes.size < wordBound → cursor.Spans limit →
    (Rule.sequenceFrom start (parts.map (Rule.child (σ := σ))) cursor values).Yields
      (g.Settles input) limit step →
    (cursor.bitPosition + ws.sum ≤ limit.bitPosition ∧ accepts (input.fields cursor.bitPosition ws)
        ∧ step = .ok ⟨.ofBitPosition (cursor.bitPosition + ws.sum),
          some (.sequence (values.toList ++ view (input.fields cursor.bitPosition ws)))⟩) ∨
      ¬(cursor.bitPosition + ws.sum ≤ limit.bitPosition
          ∧ accepts (input.fields cursor.bitPosition ws))
        ∧ ∃ f, step = .error f

theorem fieldsAll_nil (g : Grammar υ σ) : g.FieldsAll [] [] (fun _ => true) fun _ => [] := by
  refine ⟨typesAll_nil g, ?_⟩
  intro input start cursor limit values step hlimit hsize hcursor hs
  obtain rfl : Except.ok (Match.of cursor (.sequence values.toList)) = step := hs
  refine .inl ⟨hcursor.bitPosition_le, rfl, ?_⟩
  rw [List.sum_nil, Nat.add_zero, Cursor.ofBitPosition_bitPosition hcursor.left, List.append_nil]
  rfl

theorem FieldsAll.cons {parts ws : List Nat} {accepts : Fin (2 ^ w) → Bool}
    {view : Fin (2 ^ w) → Option (Value υ)} {accepts' : Fields ws → Bool}
    {view' : Fields ws → List (Value υ)} (h : g.Field i w accepts view)
    (hs : g.FieldsAll parts ws accepts' view') :
    g.FieldsAll (i :: parts) (w :: ws) (fun a => accepts a.1 && accepts' a.2)
      fun a => (view a.1).toList ++ view' a.2 := by
  refine ⟨.cons h.toTypes hs.toTypesAll, ?_⟩
  intro input start cursor limit values step hlimit hsize hcursor hy
  rw [List.sum_cons, ← Nat.add_assoc]
  obtain ⟨f, hf, rfl⟩ | ⟨m, hm, hy⟩ := Rule.yields_sequenceFrom_cons.1 hy
  · obtain ⟨-, -, hstep⟩ | ⟨hfit, -⟩ := h.exact hlimit hsize (Rule.yields_child.1 hf)
    · cases hstep
    · refine .inr ⟨fun hfit' => hfit ⟨by omega, ?_⟩, _, rfl⟩
      exact (Bool.and_eq_true_iff.1 hfit'.2).1
  · obtain ⟨hfit, haccepts, hstep⟩ | ⟨-, f, hstep⟩ := h.exact hlimit hsize (Rule.yields_child.1 hm)
    · obtain rfl := Except.ok.inj hstep
      have hcursor' : (Cursor.ofBitPosition (cursor.bitPosition + w)).Spans limit := by
        refine .of_bitPosition_le (Nat.mod_lt _ (by decide)) hcursor.right ?_
        rwa [Cursor.bitPosition_ofBitPosition]
      have hrest := hs.exact hlimit hsize hcursor' hy
      rw [Cursor.bitPosition_ofBitPosition] at hrest
      obtain ⟨hfit', haccepts', rfl⟩ | ⟨hfit', hstep⟩ := hrest
      · refine .inl ⟨hfit', Bool.and_eq_true_iff.2 ⟨haccepts, haccepts'⟩, ?_⟩
        rw [toList_collect, List.append_assoc]
        rfl
      · refine .inr ⟨fun h => hfit' ⟨h.1, ?_⟩, hstep⟩
        exact (Bool.and_eq_true_iff.1 h.2).2
    · cases hstep

/-- **Fields that fill whole bytes** are those of the number that the bytes spell. -/
theorem reads_fields {parts ws : List Nat} {accepts : Fields ws → Bool}
    {view : Fields ws → List (Value υ)} (he : g.entries[i]? = some (.node (.sequence parts)))
    (h : g.FieldsAll parts ws accepts view) (hbytes : 8 ∣ ws.sum) :
    g.Reads i (.filter accepts (.fields ws)) fun a => some (.sequence (view a)) := by
  refine .of_node he (types_sequence he h.toTypesAll) ?_
  intro input first last step hfirst hlast hsize hs
  obtain ⟨count, hcount⟩ := hbytes
  have hlength : (input.slice first last).length = last - first := Input.length_slice hlast
  have hlimit : (Cursor.atByte last).Spans input.stop :=
    .of_bitPosition_le (Nat.succ_pos 7) (Nat.succ_pos 7) (Nat.mul_le_mul_left 8 hlast)
  have hcursor : (Cursor.atByte first).Spans (.atByte last) :=
    .of_bitPosition_le (Nat.succ_pos 7) (Nat.succ_pos 7) (Nat.mul_le_mul_left 8 hfirst)
  have hexact := h.exact hlimit hsize hcursor hs
  rw [Cursor.bitPosition_atByte, Cursor.bitPosition_atByte, hcount, ← Nat.mul_add] at hexact
  rw [Scan.filter_apply, Scan.fields_apply hcount, hlength]
  by_cases hfit : first + count ≤ last
  · have hfields : input.fields (8 * first) ws
        = .unpack ws (bigEndian ((input.slice first last).take count)) := by
      rw [Input.fields_eq_unpack (by omega), Input.take_slice hfit, Input.slice,
        Input.bigEndian_extract (by omega) (by omega), hcount, Nat.add_sub_cancel_left, ← hcount,
        Fields.unpack_mod, hcount, Nat.mul_add]
    rw [if_pos (by omega), Option.bind_some, ← hfields, Input.drop_slice]
    dsimp only
    obtain ⟨-, haccepts, rfl⟩ | ⟨hrefused, hstep⟩ := hexact
    · rw [if_pos haccepts]
      refine ⟨first + count, Nat.le_add_right .., hfit, rfl, ?_⟩
      have hstop : Cursor.ofBitPosition (8 * (first + count)) = .atByte (first + count) :=
        Cursor.ofBitPosition_bitPosition (c := .atByte (first + count)) (Nat.succ_pos 7)
      rw [hstop]
      rfl
    · rw [if_neg fun haccepts => hrefused ⟨by omega, haccepts⟩]
      exact hstep
  · rw [if_neg (by omega)]
    obtain ⟨hfit', -⟩ | ⟨-, hstep⟩ := hexact
    · omega
    · exact hstep

end Grammar

end Packrat
