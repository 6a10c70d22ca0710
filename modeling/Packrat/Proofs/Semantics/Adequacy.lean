import Packrat.Proofs.Plan.Outcomes
import Packrat.Proofs.Semantics.Derives
import Packrat.Proofs.Semantics.Settles

/-!
# Proofs/Semantics/Adequacy — the rules of inference and the plans agree

An outcome can be derived by the rules of inference exactly when it is found by carrying out plans
without a memo (`derives_iff_settles`). The rules say nothing of plans, and the plans bound their
loops by the room that is left in the window: the two agree on loops because outcomes stay in the
window.
-/

namespace Packrat

variable {υ σ : Type} {g : Grammar υ σ} {input : Input} {limit start cursor : Cursor}
  {step : Step υ}

/-! ## Blanks -/

theorem Input.blanks_skipBlanks {count : Nat} (h : input.bytes.size ≤ cursor.byte + count) :
    input.Blanks limit cursor (Rule.skipBlanks input limit count cursor) := by
  induction count generalizing cursor with
  | zero =>
    refine .stop fun b hread => ?_
    have hsize := (Array.getElem?_eq_some_iff.1 (Input.byteAt?_eq_some.1 hread).2.2.2).1
    omega
  | succ count ih =>
    rw [Rule.skipBlanks]
    split
    · next b hread =>
      split
      · next hb => exact .skip hread hb (ih (by simp only [Cursor.atByte]; omega))
      · next hb =>
        refine .stop fun b' hread' => ?_
        obtain rfl := Option.some.inj (hread.symm.trans hread')
        exact hb
    · next hread => exact .stop fun b hb => absurd (hb.symm.trans hread) (Option.some_ne_none b)

/-- The blanks that follow end at one cursor. -/
theorem Input.Blanks.unique {rest rest' : Cursor} (h : input.Blanks limit cursor rest)
    (h' : input.Blanks limit cursor rest') : rest = rest' := by
  induction h with
  | stop hstop =>
    cases h' with
    | stop => rfl
    | skip hread hb => exact absurd hb (hstop _ hread)
  | skip hread hb hrest ih =>
    cases h' with
    | stop hstop => exact absurd hb (hstop _ hread)
    | skip hread' hb' hrest' => exact ih hrest'

/-! ## From plans to rules -/

/-- A separator, if there is one, and an item. -/
def Rule.element (item : Nat) : Option Nat → Rule υ σ
  | none => .child item
  | some sep => .separated (.child item) (.child sep)

theorem Rule.bounded_element (item : Nat) (sep : Option Nat) :
    (Rule.element item sep : Rule υ σ).Bounded limit := by
  cases sep with
  | none => exact bounded_child limit item
  | some sep => exact (bounded_child limit item).separated (bounded_child limit sep)

theorem Rule.strict_element (item : Nat) (sep : Option Nat) :
    (Rule.element item sep : Rule υ σ).Strict (fun _ => True) fun _ _ => True := by
  cases sep with
  | none => exact strict_child trivial
  | some sep => exact Strict.separated (strict_child trivial) (strict_child trivial)

namespace Grammar

/-- What can be derived for children inside their windows. -/
def Derived (g : Grammar υ σ) (input : Input) : Outcomes υ := fun index start limit step =>
  g.Derives input limit (.entry index start) step ∧ Step.Within start limit step
    ∧ Step.fatal? step = none

theorem derived_calm (g : Grammar υ σ) (input : Input) : (g.Derived input).Calm :=
  fun _ _ _ _ h => h.2.2

theorem derived_calm_child (index : Nat) :
    (Rule.child index : Rule υ σ).Calm (g.Derived input) limit :=
  Rule.calm_child (derived_calm g input) index

theorem derives_row {parts : List Nat} {values : Array (Value υ)}
    (h : (Rule.sequenceFrom start (parts.map .child) cursor values : Plan υ σ (Step υ)).Yields
      (g.Derived input) limit step) :
    g.Derives input limit (.row start parts cursor values) step := by
  induction parts generalizing cursor values with
  | nil =>
    obtain rfl := h
    exact .row_nil
  | cons p parts ih =>
    rw [List.map_cons, Rule.yields_sequenceFrom_cons] at h
    simp only [Rule.yields_child] at h
    obtain ⟨f, hp, rfl⟩ | ⟨m, hp, hrest⟩ := h
    · exact .row_fail hp.1
    · exact .row_cons hp.1 (ih hrest)

theorem derives_firstOf {alternatives : List Nat} {best : Option Fail}
    (h : (Rule.choiceFrom start (alternatives.map .child) best : Plan υ σ (Step υ)).Yields
      (g.Derived input) limit step) :
    g.Derives input limit (.firstOf start alternatives best) step := by
  induction alternatives generalizing best with
  | nil =>
    obtain rfl := h
    cases best with
    | none => exact .firstOf_none
    | some f => exact .firstOf_some
  | cons p alternatives ih =>
    rw [List.map_cons, Rule.yields_choiceFrom_cons (derived_calm_child p)] at h
    simp only [Rule.yields_child] at h
    obtain ⟨f, hp, hrest⟩ | ⟨m, hp, rfl⟩ := h
    · exact .firstOf_next hp.1 (ih hrest)
    · exact .firstOf_ok hp.1

theorem derives_element {item : Nat} {sep : Option Nat}
    (h : (Rule.element item sep cursor : Plan υ σ (Step υ)).Yields (g.Derived input) limit step) :
    g.Derives input limit (.element item sep cursor) step := by
  cases sep with
  | none => exact .element_plain (Rule.yields_child.1 h).1
  | some sep =>
    rw [Rule.element, Rule.yields_separated] at h
    simp only [Rule.yields_child] at h
    obtain ⟨f, hs, rfl⟩ | ⟨m, hs, hi⟩ := h
    · exact .element_unseparated hs.1
    · exact .element_separated hs.1 hi.1

/-- An item that consumes something leaves less room. -/
theorem derives_more {item : Nat} {sep : Option Nat} {room : Nat} {values : Array (Value υ)}
    (h : (Rule.continueFrom (.element item sep) room cursor values : Plan υ σ (Step υ)).Yields
      (g.Derived input) limit step) (hcursor : cursor.Spans limit)
    (hroom : limit.bitPosition ≤ cursor.bitPosition + room) :
    g.Derives input limit (.more item sep cursor values) step := by
  induction room using Nat.strongRecOn generalizing cursor values with
  | ind room ih =>
    rw [Rule.yields_continueFrom ((Rule.strict_element item sep).calm (derived_calm g input))] at h
    obtain ⟨f, he, rfl⟩ | ⟨m, he, h⟩ := h
    · exact .more_stop (derives_element he)
    · have hm := (he.within (Rule.bounded_element item sep cursor hcursor)
        fun _ _ _ _ _ _ h => ⟨h, h.2.1⟩).2
      obtain ⟨hstill, rfl⟩ | ⟨hgo, h⟩ := h
      · exact .more_still (derives_element he) hstill
      · have hbits : cursor.bitPosition < m.stop.bitPosition :=
          (Cursor.lt_iff_bitPosition_lt hm.1.left hm.1.right).1 hgo
        have hlimit := hm.2.bitPosition_le
        obtain ⟨rfl, -⟩ | ⟨rest, rfl, hrest⟩ := h
        · omega
        · have hmore := ih rest (Nat.lt_succ_self rest) hrest hm.2 (by omega)
          exact .more_go (derives_element he) hgo hmore

theorem derives_times {item count : Nat} {values : Array (Value υ)}
    (h : (Rule.repeatFrom (.child item) count cursor values : Plan υ σ (Step υ)).Yields
      (g.Derived input) limit step) :
    g.Derives input limit (.times item count cursor values) step := by
  induction count generalizing cursor values with
  | zero =>
    obtain rfl := h
    exact .times_zero
  | succ count ih =>
    rw [Rule.yields_repeatFrom_succ] at h
    simp only [Rule.yields_child] at h
    obtain ⟨f, hp, rfl⟩ | ⟨m, hp, hrest⟩ := h
    · exact .times_fail hp.1
    · exact .times_succ hp.1 (ih hrest)

theorem derives_repetition {i item : Nat} {node : Node Nat υ σ} {sep : Option Nat} {needed : Bool}
    (he : g.IsNode i node) (hnode : node.repetition? = some (item, sep, needed))
    (h : (Rule.repeated (.child item) (.element item sep) needed start : Plan υ σ (Step υ)).Yields
      (g.Derived input) limit step) : g.Derives input limit (.entry i start) step := by
  rw [Rule.yields_repeated (derived_calm_child item)] at h
  simp only [Rule.yields_child] at h
  obtain ⟨f, hp, ⟨rfl, rfl⟩ | ⟨rfl, rfl⟩⟩ | ⟨m, hp, ⟨hstill, rfl⟩ | ⟨hgo, hmore⟩⟩ := h
  · exact .repeat_missing he hnode hp.1
  · exact .repeat_none he hnode hp.1
  · exact .repeat_still he hnode hp.1 hstill
  · exact .repeat_more he hnode hp.1 hgo (derives_more hmore hp.2.1.2 (by omega))

/-- What the rule of a combinator makes of derived outcomes can be derived. -/
theorem derives_of_yields {i : Nat} {node : Node Nat υ σ} (he : g.IsNode i node)
    (h : (node.rule input start).Yields (g.Derived input) limit step) :
    g.Derives input limit (.entry i start) step := by
  cases node with
  | token bytes =>
    obtain ⟨hr, rfl⟩ | ⟨hr, rfl⟩ := Rule.yields_token.1 h
    · exact .token_fail he hr
    · exact .token_ok he hr
  | byte b =>
    obtain ⟨hr, rfl⟩ | ⟨b, hr, hb, rfl⟩ := Rule.yields_byteIf.1 h
    · exact .byte_fail he rfl hr
    · exact .byte_ok he rfl hr hb
  | byteRange low high =>
    obtain ⟨hr, rfl⟩ | ⟨b, hr, hb, rfl⟩ := Rule.yields_byteIf.1 h
    · exact .byte_fail he rfl hr
    · exact .byte_ok he rfl hr hb
  | byteIn set =>
    obtain ⟨hr, rfl⟩ | ⟨b, hr, hb, rfl⟩ := Rule.yields_byteIf.1 h
    · exact .byte_fail he rfl hr
    · exact .byte_ok he rfl hr hb
  | bits width signed =>
    obtain ⟨hr, rfl⟩ | ⟨raw, stop, hr, rfl⟩ := Rule.yields_bits.1 h
    · exact .bits_fail he hr
    · cases signed with
      | true => exact .signed he hr
      | false => exact .unsigned he hr
  | atEnd =>
    obtain ⟨hend, rfl⟩ | ⟨hend, rfl⟩ := Rule.yields_atEnd.1 h
    · exact .atEnd_ok he hend
    · exact .atEnd_fail he hend
  | never =>
    obtain rfl := h
    exact .never he
  | empty =>
    obtain rfl := h
    exact .empty he
  | intRange p low high =>
    simp only [Node.rule, Rule.yields_intRange, Rule.yields_child, Rule.InRange,
      value_bind_integer?] at h
    obtain ⟨f, hp, rfl⟩ | ⟨m, hp, ⟨⟨n, hn, hlow, hhigh⟩, rfl⟩ | ⟨hn, rfl⟩⟩ := h
    · exact .intRange_fail he hp.1
    · exact .intRange_ok he hp.1 hn hlow hhigh
    · exact .intRange_outside he hp.1 fun n hm hrange => hn ⟨n, hm, hrange⟩
  | whitespace p =>
    have hskip : input.Blanks limit start
        (Rule.skipBlanks input limit (input.bytes.size - start.byte) start) :=
      Input.blanks_skipBlanks (by omega)
    simp only [Node.rule, Rule.yields_whitespace, Rule.yields_child] at h
    obtain ⟨f, hp, rfl⟩ | ⟨m, hp, rfl⟩ := h
    · exact .whitespace_fail he hskip hp.1
    · exact .whitespace_ok he hskip hp.1
  | left a b =>
    simp only [Node.rule, Rule.yields_left, Rule.yields_child] at h
    obtain ⟨f, ha, rfl⟩ | ⟨ma, ha, ⟨f, hb, rfl⟩ | ⟨mb, hb, rfl⟩⟩ := h
    · exact .left_first he ha.1
    · exact .left_second he ha.1 hb.1
    · exact .left_ok he ha.1 hb.1
  | right a b =>
    simp only [Node.rule, Rule.yields_right, Rule.yields_child] at h
    obtain ⟨f, ha, rfl⟩ | ⟨ma, ha, ⟨f, hb, rfl⟩ | ⟨mb, hb, rfl⟩⟩ := h
    · exact .right_first he ha.1
    · exact .right_second he ha.1 hb.1
    · exact .right_ok he ha.1 hb.1
  | middle a b c =>
    simp only [Node.rule, Rule.yields_middle, Rule.yields_child] at h
    obtain ⟨f, ha, rfl⟩ | ⟨ma, ha, ⟨f, hb, rfl⟩ | ⟨mb, hb, ⟨f, hc, rfl⟩ | ⟨mc, hc, rfl⟩⟩⟩ := h
    · exact .middle_first he ha.1
    · exact .middle_second he ha.1 hb.1
    · exact .middle_third he ha.1 hb.1 hc.1
    · exact .middle_ok he ha.1 hb.1 hc.1
  | sequence ps => exact .sequence he (derives_row h)
  | choice ps => exact .choice he (derives_firstOf h)
  | butnot a b =>
    simp only [Node.rule, Rule.yields_butnot (derived_calm_child b), Rule.yields_child] at h
    obtain ⟨f, ha, rfl⟩ | ⟨ma, ha, ⟨f, hb, rfl⟩ | ⟨mb, hb, ⟨hle, rfl⟩ | ⟨hle, rfl⟩⟩⟩ := h
    · exact .butnot_fail he ha.1
    · exact .butnot_ok he ha.1 hb.1
    · exact .butnot_refused he ha.1 hb.1 hle
    · exact .butnot_shorter he ha.1 hb.1 hle
  | difference a b =>
    simp only [Node.rule, Rule.yields_difference (derived_calm_child b), Rule.yields_child] at h
    obtain ⟨f, ha, rfl⟩ | ⟨ma, ha, ⟨f, hb, rfl⟩ | ⟨mb, hb, rfl⟩⟩ := h
    · exact .difference_fail he ha.1
    · exact .difference_ok he ha.1 hb.1
    · exact .difference_refused he ha.1 hb.1
  | xor a b =>
    simp only [Node.rule, Rule.yields_xor (derived_calm_child a) (derived_calm_child b),
      Rule.yields_child] at h
    obtain ⟨f, ha, ⟨g', hb, rfl⟩ | ⟨mb, hb, rfl⟩⟩ | ⟨ma, ha, ⟨g', hb, rfl⟩ | ⟨mb, hb, rfl⟩⟩ := h
    · exact .xor_neither he ha.1 hb.1
    · exact .xor_second he ha.1 hb.1
    · exact .xor_first he ha.1 hb.1
    · exact .xor_both he ha.1 hb.1
  | many p => exact derives_repetition he rfl h
  | many1 p => exact derives_repetition he rfl h
  | repeatN p count => exact .repeatN he (derives_times h)
  | optional p =>
    simp only [Node.rule, Rule.yields_optional (derived_calm_child p), Rule.yields_child] at h
    obtain ⟨f, hp, rfl⟩ | ⟨m, hp, rfl⟩ := h
    · exact .optional_none he hp.1
    · exact .optional_some he hp.1
  | ignore p =>
    simp only [Node.rule, Rule.yields_ignore, Rule.yields_child] at h
    obtain ⟨f, hp, rfl⟩ | ⟨m, hp, rfl⟩ := h
    · exact .ignore_fail he hp.1
    · exact .ignore_ok he hp.1
  | sepBy item sep => exact derives_repetition he rfl h
  | sepBy1 item sep => exact derives_repetition he rfl h
  | lengthValue a b =>
    simp only [Node.rule, Rule.yields_lengthValue, Rule.yields_child, Rule.yields_childWithin] at h
    obtain ⟨f, ha, rfl⟩ | ⟨ml, ha, ⟨hw, rfl⟩ | ⟨stop, hw, ⟨f, hb, rfl⟩ | ⟨mv, hb, h⟩⟩⟩ := h
    · exact .lengthValue_length he ha.1
    · exact .lengthValue_window he ha.1 hw
    · exact .lengthValue_value he ha.1 hw hb.1
    · obtain ⟨heq, rfl⟩ | ⟨hne, rfl⟩ := h
      · exact .lengthValue_ok he ha.1 hw hb.1 heq
      · exact .lengthValue_short he ha.1 hw hb.1 hne
  | and p =>
    simp only [Node.rule, Rule.yields_and, Rule.yields_child] at h
    obtain ⟨f, hp, rfl⟩ | ⟨m, hp, rfl⟩ := h
    · exact .and_fail he hp.1
    · exact .and_ok he hp.1
  | not p =>
    simp only [Node.rule, Rule.yields_not (derived_calm_child p), Rule.yields_child] at h
    obtain ⟨f, hp, rfl⟩ | ⟨m, hp, rfl⟩ := h
    · exact .not_ok he hp.1
    · exact .not_fail he hp.1
  | action p act =>
    simp only [Node.rule, Rule.yields_action, Rule.yields_child] at h
    obtain ⟨f, hp, rfl⟩ | ⟨m, hp, ⟨e, ha, rfl⟩ | ⟨v, ha, rfl⟩⟩ := h
    · exact .action_fail he hp.1
    · exact .action_refused he hp.1 ha
    · exact .action_ok he hp.1 ha
  | satisfying p accepts =>
    simp only [Node.rule, Rule.yields_satisfying, Rule.yields_child] at h
    obtain ⟨f, hp, rfl⟩ | ⟨m, hp, ⟨e, ha, rfl⟩ | ⟨ha, rfl⟩ | ⟨ha, rfl⟩⟩ := h
    · exact .satisfying_fail he hp.1
    · exact .satisfying_refused he hp.1 ha
    · exact .satisfying_ok he hp.1 ha
    · exact .satisfying_not he hp.1 ha

/-- **Outcomes of plans can be derived.** -/
theorem SettlesIn.derives {n i : Nat} (h : g.SettlesIn input n i start limit step)
    (hstart : start.Spans limit) : g.Derives input limit (.entry i start) step := by
  induction n generalizing i start limit step with
  | zero => exact h.elim
  | succ n ih =>
    rw [SettlesIn] at h
    split at h
    · next node he =>
      refine derives_of_yields he (h.within (node.bounded_rule input limit start hstart)
        fun c s l r hs _ hc => ?_).1
      exact ⟨⟨ih hc hs, hc.within hs, hc.fatal?_eq_none⟩, hc.within hs⟩
    · next slot he =>
      obtain ⟨target, ht, h⟩ := h
      exact .indirect he ht (ih h hstart)
    · exact h.elim

end Grammar

/-! ## From rules to plans -/

/-- Where a goal is derived. -/
def Goal.place : Goal υ → Cursor
  | entry _ cursor | row _ _ cursor _ | firstOf cursor _ _ | element _ _ cursor | more _ _ cursor _
  | times _ _ cursor _ => cursor

/-- The outcome of a goal, found by carrying out plans. A loop has it if it has room enough. -/
def Goal.Settles (g : Grammar υ σ) (input : Input) (limit : Cursor) : Goal υ → Step υ → Prop
  | entry i start, step => g.Settles input i start limit step
  | row start parts cursor values, step =>
    (Rule.sequenceFrom start (parts.map .child) cursor values : Plan υ σ (Step υ)).Yields
      (g.Settles input) limit step
  | firstOf start alternatives best, step =>
    (Rule.choiceFrom start (alternatives.map .child) best : Plan υ σ (Step υ)).Yields
      (g.Settles input) limit step
  | element item sep cursor, step =>
    (Rule.element item sep cursor : Plan υ σ (Step υ)).Yields (g.Settles input) limit step
  | more item sep cursor values, step =>
    ∀ room, limit.bitPosition ≤ cursor.bitPosition + room →
      (Rule.continueFrom (.element item sep) room cursor values : Plan υ σ (Step υ)).Yields
        (g.Settles input) limit step
  | times item count cursor values, step =>
    (Rule.repeatFrom (.child item) count cursor values : Plan υ σ (Step υ)).Yields
      (g.Settles input) limit step

namespace Goal.Settles

variable {index : Nat} {m : Match υ}

theorem child (h : (Goal.entry index start).Settles g input limit step) :
    (Rule.child index start : Plan υ σ (Step υ)).Yields (g.Settles input) limit step :=
  Rule.yields_child.2 h

/-- A match stops inside the window. -/
theorem stop (h : (Goal.entry index start).Settles g input limit (.ok m))
    (hstart : start.Spans limit) : m.stop.Spans limit :=
  (Grammar.Settles.within h hstart).2

end Goal.Settles

namespace Grammar

theorem settles_calm_element (item : Nat) (sep : Option Nat) :
    (Rule.element item sep : Rule υ σ).Calm (g.Settles input) limit :=
  (Rule.strict_element item sep).calm (settles_calm g input)

/-- An outcome of an item of a repetition lies in the window. -/
theorem within_element {item : Nat} {sep : Option Nat} (hcursor : cursor.Spans limit)
    (h : (Rule.element item sep cursor : Plan υ σ (Step υ)).Yields (g.Settles input) limit step) :
    Step.Within cursor limit step :=
  (h.within (Rule.bounded_element item sep cursor hcursor)
    fun _ _ _ _ hs _ h => ⟨h, h.within hs⟩).2

/-- A combinator that repeats, as a repetition of elements. -/
theorem settles_repetition {i item : Nat} {node : Node Nat υ σ} {sep : Option Nat} {needed : Bool}
    (he : g.IsNode i node) (hnode : node.repetition? = some (item, sep, needed))
    (h : (Rule.repeated (.child item) (.element item sep) needed start : Plan υ σ (Step υ)).Yields
      (g.Settles input) limit step) : g.Settles input i start limit step := by
  refine (settles_node he).2 ?_
  cases node with
  | many p =>
    obtain ⟨rfl, rfl, rfl⟩ : p = item ∧ none = sep ∧ false = needed := by
      simpa [Node.repetition?] using hnode
    exact h
  | many1 p =>
    obtain ⟨rfl, rfl, rfl⟩ : p = item ∧ none = sep ∧ true = needed := by
      simpa [Node.repetition?] using hnode
    exact h
  | sepBy p s =>
    obtain ⟨rfl, rfl, rfl⟩ : p = item ∧ some s = sep ∧ false = needed := by
      simpa [Node.repetition?] using hnode
    exact h
  | sepBy1 p s =>
    obtain ⟨rfl, rfl, rfl⟩ : p = item ∧ some s = sep ∧ true = needed := by
      simpa [Node.repetition?] using hnode
    exact h
  | _ => exact nomatch hnode

/-- A combinator of a single byte reads what it accepts. -/
theorem settles_byte {i : Nat} {node : Node Nat υ σ} {accepts : UInt8 → Bool}
    (he : g.IsNode i node) (hnode : node.accepts? = some accepts)
    (h : (Rule.byteIf input accepts start : Plan υ σ (Step υ)).Yields (g.Settles input) limit
      step) :
    g.Settles input i start limit step := by
  refine (settles_node he).2 ?_
  cases node with
  | byte b =>
    obtain rfl := Option.some.inj hnode
    exact h
  | byteRange low high =>
    obtain rfl := Option.some.inj hnode
    exact h
  | byteIn set =>
    obtain rfl := Option.some.inj hnode
    exact h
  | _ => exact nomatch hnode

/-- **What can be derived is found by carrying out plans.** -/
theorem Derives.settles {goal : Goal υ} (h : g.Derives input limit goal step)
    (hplace : goal.place.Spans limit) : goal.Settles g input limit step := by
  induction h with
  | indirect he ht h ih => exact (settles_indirect he ht).2 (ih hplace)
  | token_ok he hr => exact (settles_node he).2 (Rule.yields_token.2 (.inr ⟨hr, rfl⟩))
  | token_fail he hr => exact (settles_node he).2 (Rule.yields_token.2 (.inl ⟨hr, rfl⟩))
  | byte_ok he ha hr hb =>
    exact settles_byte he ha (Rule.yields_byteIf.2 (.inr ⟨_, hr, hb, rfl⟩))
  | byte_fail he ha hr => exact settles_byte he ha (Rule.yields_byteIf.2 (.inl ⟨hr, rfl⟩))
  | signed he hr => exact (settles_node he).2 (Rule.yields_bits.2 (.inr ⟨_, _, hr, rfl⟩))
  | unsigned he hr => exact (settles_node he).2 (Rule.yields_bits.2 (.inr ⟨_, _, hr, rfl⟩))
  | bits_fail he hr => exact (settles_node he).2 (Rule.yields_bits.2 (.inl ⟨hr, rfl⟩))
  | atEnd_ok he h => exact (settles_node he).2 (Rule.yields_atEnd.2 (.inl ⟨h, rfl⟩))
  | atEnd_fail he h => exact (settles_node he).2 (Rule.yields_atEnd.2 (.inr ⟨h, rfl⟩))
  | never he => exact (settles_node he).2 rfl
  | empty he => exact (settles_node he).2 rfl
  | left_first he ha iha =>
    have ha := iha hplace
    exact (settles_node he).2 (Rule.yields_left.2 (.inl ⟨_, ha.child, rfl⟩))
  | left_second he ha hb iha ihb =>
    have ha := iha hplace
    have hb := ihb (ha.stop hplace)
    exact (settles_node he).2 (Rule.yields_left.2 (.inr ⟨_, ha.child, .inl ⟨_, hb.child, rfl⟩⟩))
  | left_ok he ha hb iha ihb =>
    have ha := iha hplace
    have hb := ihb (ha.stop hplace)
    exact (settles_node he).2 (Rule.yields_left.2 (.inr ⟨_, ha.child, .inr ⟨_, hb.child, rfl⟩⟩))
  | right_first he ha iha =>
    have ha := iha hplace
    exact (settles_node he).2 (Rule.yields_right.2 (.inl ⟨_, ha.child, rfl⟩))
  | right_second he ha hb iha ihb =>
    have ha := iha hplace
    have hb := ihb (ha.stop hplace)
    exact (settles_node he).2 (Rule.yields_right.2 (.inr ⟨_, ha.child, .inl ⟨_, hb.child, rfl⟩⟩))
  | right_ok he ha hb iha ihb =>
    have ha := iha hplace
    have hb := ihb (ha.stop hplace)
    exact (settles_node he).2 (Rule.yields_right.2 (.inr ⟨_, ha.child, .inr ⟨_, hb.child, rfl⟩⟩))
  | middle_first he ha iha =>
    have ha := iha hplace
    exact (settles_node he).2 (Rule.yields_middle.2 (.inl ⟨_, ha.child, rfl⟩))
  | middle_second he ha hb iha ihb =>
    have ha := iha hplace
    have hb := ihb (ha.stop hplace)
    exact (settles_node he).2 (Rule.yields_middle.2 (.inr ⟨_, ha.child, .inl ⟨_, hb.child, rfl⟩⟩))
  | middle_third he ha hb hc iha ihb ihc =>
    have ha := iha hplace
    have hstop := ha.stop hplace
    have hc := ihc ((ihb hstop).stop hstop)
    exact (settles_node he).2 (Rule.yields_middle.2
      (.inr ⟨_, ha.child, .inr ⟨_, (ihb hstop).child, .inl ⟨_, hc.child, rfl⟩⟩⟩))
  | middle_ok he ha hb hc iha ihb ihc =>
    have ha := iha hplace
    have hstop := ha.stop hplace
    have hc := ihc ((ihb hstop).stop hstop)
    exact (settles_node he).2 (Rule.yields_middle.2
      (.inr ⟨_, ha.child, .inr ⟨_, (ihb hstop).child, .inr ⟨_, hc.child, rfl⟩⟩⟩))
  | sequence he h ih => exact (settles_node he).2 (ih hplace)
  | row_nil => rfl
  | row_fail h ih => exact Rule.yields_sequenceFrom_cons.2 (.inl ⟨_, (ih hplace).child, rfl⟩)
  | row_cons h hrest ih ihRest =>
    have h := ih hplace
    have hrest := ihRest (h.stop hplace)
    exact Rule.yields_sequenceFrom_cons.2 (.inr ⟨_, h.child, hrest⟩)
  | whitespace_fail he hskip h ih =>
    obtain rfl := hskip.unique (Input.blanks_skipBlanks (Nat.sub_le_iff_le_add'.1 (Nat.le_refl _)))
    have hp := ih (Rule.spans_skipBlanks input _ hplace).2
    exact (settles_node he).2 (Rule.yields_whitespace.2 (.inl ⟨_, hp.child, rfl⟩))
  | whitespace_ok he hskip h ih =>
    obtain rfl := hskip.unique (Input.blanks_skipBlanks (Nat.sub_le_iff_le_add'.1 (Nat.le_refl _)))
    have hp := ih (Rule.spans_skipBlanks input _ hplace).2
    exact (settles_node he).2 (Rule.yields_whitespace.2 (.inr ⟨_, hp.child, rfl⟩))
  | ignore_fail he h ih =>
    have h := ih hplace
    exact (settles_node he).2 (Rule.yields_ignore.2 (.inl ⟨_, h.child, rfl⟩))
  | ignore_ok he h ih =>
    have h := ih hplace
    exact (settles_node he).2 (Rule.yields_ignore.2 (.inr ⟨_, h.child, rfl⟩))
  | intRange_fail he h ih =>
    have h := ih hplace
    exact (settles_node he).2 (Rule.yields_intRange.2 (.inl ⟨_, h.child, rfl⟩))
  | intRange_ok he h hn hlow hhigh ih =>
    have h := ih hplace
    exact (settles_node he).2 (Rule.yields_intRange.2 (.inr ⟨_, h.child,
      .inl ⟨⟨_, value_bind_integer?.2 hn, hlow, hhigh⟩, rfl⟩⟩))
  | intRange_outside he h hn ih =>
    have h := ih hplace
    refine (settles_node he).2 (Rule.yields_intRange.2 (.inr ⟨_, h.child, .inr ⟨?_, rfl⟩⟩))
    rintro ⟨n, hm, hrange⟩
    exact hn n (value_bind_integer?.1 hm) hrange
  | choice he h ih => exact (settles_node he).2 (ih hplace)
  | firstOf_none => rfl
  | firstOf_some => rfl
  | firstOf_ok h ih =>
    have h := ih hplace
    exact (Rule.yields_choiceFrom_cons (settles_calm_child _)).2 (.inr ⟨_, h.child, rfl⟩)
  | firstOf_next h hrest ih ihRest =>
    have h := ih hplace
    exact (Rule.yields_choiceFrom_cons (settles_calm_child _)).2 (.inl ⟨_, h.child, ihRest hplace⟩)
  | butnot_fail he ha iha =>
    have ha := iha hplace
    exact (settles_node he).2 ((Rule.yields_butnot (settles_calm_child _)).2
      (.inl ⟨_, ha.child, rfl⟩))
  | butnot_ok he ha hb iha ihb =>
    have ha := iha hplace
    have hb := ihb hplace
    exact (settles_node he).2 ((Rule.yields_butnot (settles_calm_child _)).2
      (.inr ⟨_, ha.child, .inl ⟨_, hb.child, rfl⟩⟩))
  | butnot_shorter he ha hb hle iha ihb =>
    have ha := iha hplace
    have hb := ihb hplace
    exact (settles_node he).2 ((Rule.yields_butnot (settles_calm_child _)).2
      (.inr ⟨_, ha.child, .inr ⟨_, hb.child, .inr ⟨hle, rfl⟩⟩⟩))
  | butnot_refused he ha hb hle iha ihb =>
    have ha := iha hplace
    have hb := ihb hplace
    exact (settles_node he).2 ((Rule.yields_butnot (settles_calm_child _)).2
      (.inr ⟨_, ha.child, .inr ⟨_, hb.child, .inl ⟨hle, rfl⟩⟩⟩))
  | difference_fail he ha iha =>
    have ha := iha hplace
    exact (settles_node he).2 ((Rule.yields_difference (settles_calm_child _)).2
      (.inl ⟨_, ha.child, rfl⟩))
  | difference_ok he ha hb iha ihb =>
    have ha := iha hplace
    have hb := ihb hplace
    exact (settles_node he).2 ((Rule.yields_difference (settles_calm_child _)).2
      (.inr ⟨_, ha.child, .inl ⟨_, hb.child, rfl⟩⟩))
  | difference_refused he ha hb iha ihb =>
    have ha := iha hplace
    have hb := ihb hplace
    exact (settles_node he).2 ((Rule.yields_difference (settles_calm_child _)).2
      (.inr ⟨_, ha.child, .inr ⟨_, hb.child, rfl⟩⟩))
  | xor_first he ha hb iha ihb =>
    have ha := iha hplace
    have hb := ihb hplace
    exact (settles_node he).2 ((Rule.yields_xor (settles_calm_child _) (settles_calm_child _)).2
      (.inr ⟨_, ha.child, .inl ⟨_, hb.child, rfl⟩⟩))
  | xor_second he ha hb iha ihb =>
    have ha := iha hplace
    have hb := ihb hplace
    exact (settles_node he).2 ((Rule.yields_xor (settles_calm_child _) (settles_calm_child _)).2
      (.inl ⟨_, ha.child, .inr ⟨_, hb.child, rfl⟩⟩))
  | xor_both he ha hb iha ihb =>
    have ha := iha hplace
    have hb := ihb hplace
    exact (settles_node he).2 ((Rule.yields_xor (settles_calm_child _) (settles_calm_child _)).2
      (.inr ⟨_, ha.child, .inr ⟨_, hb.child, rfl⟩⟩))
  | xor_neither he ha hb iha ihb =>
    have ha := iha hplace
    have hb := ihb hplace
    exact (settles_node he).2 ((Rule.yields_xor (settles_calm_child _) (settles_calm_child _)).2
      (.inl ⟨_, ha.child, .inl ⟨_, hb.child, rfl⟩⟩))
  | repeat_none he hn h ih =>
    have h := ih hplace
    exact settles_repetition he hn ((Rule.yields_repeated (settles_calm_child _)).2
      (.inl ⟨_, h.child, .inr ⟨rfl, rfl⟩⟩))
  | repeat_missing he hn h ih =>
    have h := ih hplace
    exact settles_repetition he hn ((Rule.yields_repeated (settles_calm_child _)).2
      (.inl ⟨_, h.child, .inl ⟨rfl, rfl⟩⟩))
  | repeat_still he hn h hstill ih =>
    have h := ih hplace
    exact settles_repetition he hn ((Rule.yields_repeated (settles_calm_child _)).2
      (.inr ⟨_, h.child, .inl ⟨hstill, rfl⟩⟩))
  | repeat_more he hn h hgo hmore ih ihMore =>
    have h := ih hplace
    have hmore := ihMore (h.stop hplace) _
      (Nat.sub_le_iff_le_add'.1 (Nat.le_refl _))
    exact settles_repetition he hn ((Rule.yields_repeated (settles_calm_child _)).2
      (.inr ⟨_, h.child, .inr ⟨hgo, hmore⟩⟩))
  | element_plain h ih => exact (ih hplace).child
  | element_unseparated h ih => exact Rule.yields_separated.2 (.inl ⟨_, (ih hplace).child, rfl⟩)
  | element_separated hs h ihs ih =>
    have hs := ihs hplace
    have hi := ih (hs.stop hplace)
    exact Rule.yields_separated.2 (.inr ⟨_, hs.child, hi.child⟩)
  | more_stop h ih =>
    intro room hroom
    exact (Rule.yields_continueFrom (settles_calm_element _ _)).2 (.inl ⟨_, ih hplace, rfl⟩)
  | more_still h hstill ih =>
    intro room hroom
    exact (Rule.yields_continueFrom (settles_calm_element _ _)).2
      (.inr ⟨_, ih hplace, .inl ⟨hstill, rfl⟩⟩)
  | @more_go limit item sep cursor values m step h hgo hmore ih ihMore =>
    have h := ih hplace
    intro room hroom
    have hplace : cursor.Spans limit := hplace
    obtain ⟨hm, hstop⟩ := within_element hplace h
    have hbits := (Cursor.lt_iff_bitPosition_lt hm.left hm.right).1 hgo
    have hlimit := hstop.bitPosition_le
    -- Something was consumed inside the window, so there was room.
    obtain ⟨rest, rfl⟩ : ∃ rest, room = rest + 1 := ⟨room - 1, by omega⟩
    have hrest : limit.bitPosition ≤ m.stop.bitPosition + rest := by omega
    exact (Rule.yields_continueFrom (settles_calm_element _ _)).2
      (.inr ⟨_, ih hplace, .inr ⟨hgo, .inr ⟨rest, rfl, ihMore hstop rest hrest⟩⟩⟩)
  | repeatN he h ih => exact (settles_node he).2 (ih hplace)
  | times_zero => rfl
  | times_fail h ih => exact Rule.yields_repeatFrom_succ.2 (.inl ⟨_, (ih hplace).child, rfl⟩)
  | times_succ h hrest ih ihRest =>
    have h := ih hplace
    have hrest := ihRest (h.stop hplace)
    exact Rule.yields_repeatFrom_succ.2 (.inr ⟨_, h.child, hrest⟩)
  | optional_none he h ih =>
    have h := ih hplace
    exact (settles_node he).2 ((Rule.yields_optional (settles_calm_child _)).2
      (.inl ⟨_, h.child, rfl⟩))
  | optional_some he h ih =>
    have h := ih hplace
    exact (settles_node he).2 ((Rule.yields_optional (settles_calm_child _)).2
      (.inr ⟨_, h.child, rfl⟩))
  | and_fail he h ih =>
    have h := ih hplace
    exact (settles_node he).2 (Rule.yields_and.2 (.inl ⟨_, h.child, rfl⟩))
  | and_ok he h ih =>
    have h := ih hplace
    exact (settles_node he).2 (Rule.yields_and.2 (.inr ⟨_, h.child, rfl⟩))
  | not_ok he h ih =>
    have h := ih hplace
    exact (settles_node he).2 ((Rule.yields_not (settles_calm_child _)).2 (.inl ⟨_, h.child, rfl⟩))
  | not_fail he h ih =>
    have h := ih hplace
    exact (settles_node he).2 ((Rule.yields_not (settles_calm_child _)).2 (.inr ⟨_, h.child, rfl⟩))
  | lengthValue_length he ha iha =>
    have ha := iha hplace
    exact (settles_node he).2 (Rule.yields_lengthValue.2 (.inl ⟨_, ha.child, rfl⟩))
  | lengthValue_window he ha hw iha =>
    have ha := iha hplace
    exact (settles_node he).2 (Rule.yields_lengthValue.2 (.inr ⟨_, ha.child, .inl ⟨hw, rfl⟩⟩))
  | lengthValue_value he ha hw hb iha ihb =>
    have ha := iha hplace
    have hb := ihb (Rule.spans_windowEnd? (ha.stop hplace) hw).1
    exact (settles_node he).2 (Rule.yields_lengthValue.2 (.inr ⟨_, ha.child,
      .inr ⟨_, hw, .inl ⟨_, Rule.yields_childWithin.2 hb, rfl⟩⟩⟩))
  | lengthValue_short he ha hw hb hne iha ihb =>
    have ha := iha hplace
    have hb := ihb (Rule.spans_windowEnd? (ha.stop hplace) hw).1
    exact (settles_node he).2 (Rule.yields_lengthValue.2 (.inr ⟨_, ha.child,
      .inr ⟨_, hw, .inr ⟨_, Rule.yields_childWithin.2 hb, .inr ⟨hne, rfl⟩⟩⟩⟩))
  | lengthValue_ok he ha hw hb heq iha ihb =>
    have ha := iha hplace
    have hb := ihb (Rule.spans_windowEnd? (ha.stop hplace) hw).1
    exact (settles_node he).2 (Rule.yields_lengthValue.2 (.inr ⟨_, ha.child,
      .inr ⟨_, hw, .inr ⟨_, Rule.yields_childWithin.2 hb, .inl ⟨heq, rfl⟩⟩⟩⟩))
  | action_fail he h ih =>
    have h := ih hplace
    exact (settles_node he).2 (Rule.yields_action.2 (.inl ⟨_, h.child, rfl⟩))
  | action_ok he h ha ih =>
    have h := ih hplace
    exact (settles_node he).2 (Rule.yields_action.2 (.inr ⟨_, h.child, .inr ⟨_, ha, rfl⟩⟩))
  | action_refused he h ha ih =>
    have h := ih hplace
    exact (settles_node he).2 (Rule.yields_action.2 (.inr ⟨_, h.child, .inl ⟨_, ha, rfl⟩⟩))
  | satisfying_fail he h ih =>
    have h := ih hplace
    exact (settles_node he).2 (Rule.yields_satisfying.2 (.inl ⟨_, h.child, rfl⟩))
  | satisfying_ok he h ha ih =>
    have h := ih hplace
    exact (settles_node he).2 (Rule.yields_satisfying.2 (.inr ⟨_, h.child, .inr (.inl ⟨ha, rfl⟩)⟩))
  | satisfying_not he h ha ih =>
    have h := ih hplace
    exact (settles_node he).2 (Rule.yields_satisfying.2 (.inr ⟨_, h.child, .inr (.inr ⟨ha, rfl⟩)⟩))
  | satisfying_refused he h ha ih =>
    have h := ih hplace
    exact (settles_node he).2 (Rule.yields_satisfying.2 (.inr ⟨_, h.child, .inl ⟨_, ha, rfl⟩⟩))

/-- **The rules of inference and the plans agree**, in every window. -/
theorem derives_iff_settles {i : Nat} (hstart : start.Spans limit) :
    g.Derives input limit (.entry i start) step ↔ g.Settles input i start limit step := by
  constructor
  · exact fun h => h.settles hstart
  · rintro ⟨n, h⟩
    exact h.derives hstart

end Grammar

end Packrat
