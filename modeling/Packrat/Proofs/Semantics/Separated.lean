import Packrat.Proofs.Semantics.Repetition

/-!
# Proofs/Semantics/Separated — separated lists

A list with separators is an item and then pairs of a separator and an item. Spelled out, it is a
row of the item and a repetition of such pairs (`separated_amounts`). The two part in one case: a
repetition stops behind an element that consumes nothing, so a list with an empty first item ends
there, even where a separator and an item follow (`separated_shorter`).
-/

namespace Packrat.Grammar

variable {υ σ : Type} {g : Grammar υ σ} {input : Input} {start cursor limit : Cursor}
  {step : Step υ} {item sep pair rest whole list₁ list₀ : Nat}

open Match (values)

/-! ## A separator and an item -/

/-- The item matches behind a match of the separator. -/
def Behind (g : Grammar υ σ) (input : Input) (limit : Cursor) (sep item : Nat) (cursor : Cursor)
    (step : Step υ) : Prop :=
  ∃ m, g.EndsAs input sep cursor limit (.ok m) ∧ g.EndsAs input item m.stop limit step

theorem behind_of_derives (hpure : g.PureCallbacks) (hcursor : cursor.Spans limit) {m : Match υ}
    (h : g.Derives input limit (.element item (some sep) cursor) (.ok m)) :
    g.Behind input limit sep item cursor (.ok m) := by
  cases h with
  | element_separated hsep hitem =>
    exact ⟨_, hsep.ends hpure hcursor, hitem.ends hpure (hsep.within hcursor).2⟩

/-- A pair that matches is an element of the list. -/
theorem derives_element_of_pair (hpair : g.IsNode pair (.right sep item))
    (hcursor : cursor.Spans limit) {m : Match υ}
    (h : g.Derives input limit (.entry pair cursor) (.ok m)) :
    g.Derives input limit (.element item (some sep) cursor) (.ok m) := by
  rw [derives_iff_yields hpair hcursor, Node.rule, Rule.yields_right] at h
  simp only [Rule.yields_child] at h
  obtain ⟨f, -, hf⟩ | ⟨ms, hsep, ⟨f, -, hf⟩ | ⟨mi, hitem, hm⟩⟩ := h
  · cases hf
  · cases hf
  · obtain rfl := Except.ok.inj hm
    exact .element_separated hsep.1 hitem.1

/-- Where the pair fails the list goes on no further. -/
theorem derives_element_of_pair_error (hpair : g.IsNode pair (.right sep item))
    (hcursor : cursor.Spans limit) {f : Fail}
    (h : g.Derives input limit (.entry pair cursor) (.error f)) :
    ∃ f', g.Derives input limit (.element item (some sep) cursor) (.error f') := by
  rw [derives_iff_yields hpair hcursor, Node.rule, Rule.yields_right] at h
  simp only [Rule.yields_child] at h
  obtain ⟨f', hsep, -⟩ | ⟨ms, hsep, ⟨f', hitem, -⟩ | ⟨mi, -, hm⟩⟩ := h
  · exact ⟨f', .element_unseparated hsep.1⟩
  · exact ⟨f', .element_separated hsep.1 hitem.1⟩
  · cases hm

/-- Pairs that are matched greedily are the elements of the list. -/
theorem greedy_elements {ms : List (Match υ)} (hpair : g.IsNode pair (.right sep item))
    (hcursor : cursor.Spans limit)
    (h : Greedy (fun c s => g.Derives input limit (.entry pair c) s) cursor ms) :
    Greedy (fun c s => g.Derives input limit (.element item (some sep) c) s) cursor ms :=
  h.congr hcursor (fun _ _ hc hs => hs.within hc)
    (fun _ _ hc hm => derives_element_of_pair hpair hc hm)
    fun _ _ hc hf => derives_element_of_pair_error hpair hc hf

/-! ## The list spelled out -/

theorem derives_sequence_iff {i : Nat} {parts : List Nat} (he : g.IsNode i (.sequence parts))
    (hstart : start.Spans limit) : g.Derives input limit (.entry i start) step ↔
      g.Derives input limit (.row start parts start #[]) step :=
  ⟨fun h => derives_row ((derives_iff_yields he hstart).1 h), .sequence he⟩

/-- The item does not match, or it does and pairs follow greedily. -/
theorem derives_spelled (hrest : g.IsNode rest (.many pair))
    (hwhole : g.IsNode whole (.sequence [item, rest])) (hstart : start.Spans limit)
    (h : g.Derives input limit (.entry whole start) step) :
    (∃ f, g.Derives input limit (.entry item start) (.error f)
        ∧ step = .error (f.reportedAt start)) ∨
      ∃ m more, g.Derives input limit (.entry item start) (.ok m)
        ∧ Greedy (fun c s => g.Derives input limit (.entry pair c) s) m.stop more
        ∧ step = .ok (.of (stopBehind m.stop more)
          (.sequence (m.value.toList ++ [.sequence (values more)]))) := by
  cases (derives_sequence_iff hwhole hstart).1 h with
  | row_fail hitem => exact .inl ⟨_, hitem, rfl⟩
  | @row_cons _ _ _ _ _ _ m _ hitem hrow =>
    have hstop : m.stop.Spans limit := (hitem.within hstart).2
    refine .inr ?_
    cases hrow with
    | row_fail hmany =>
      -- A repetition that needs no item does not fail.
      obtain ⟨ms, -, hms⟩ := (derives_many_iff hrest hstop).1 hmany
      cases hms
    | row_cons hmany hrow =>
      obtain ⟨more, hmore, hms⟩ := (derives_many_iff hrest hstop).1 hmany
      obtain rfl := Except.ok.inj hms
      cases hrow
      refine ⟨m, more, hitem, hmore, ?_⟩
      rw [toList_collect, toList_collect_empty]
      rfl

/-- Matches of a list with separators, from its first item on: the elements are there if the first
item consumes something. -/
theorem derives_separated {i : Nat} {n : Node Nat υ σ} {needed : Bool} {m : Match υ}
    {more : List (Match υ)} (he : g.IsNode i n)
    (hn : n.repetition? = some (item, some sep, needed)) (hpair : g.IsNode pair (.right sep item))
    (hstart : start.Spans limit) (hitem : g.Derives input limit (.entry item start) (.ok m))
    (hmore : Greedy (fun c s => g.Derives input limit (.entry pair c) s) m.stop more) :
    g.Derives input limit (.entry i start)
      (.ok (.listed start (m :: if start < m.stop then more else []))) := by
  refine (derives_repetition_iff he hn hstart).2 (.inr ⟨m, _, hitem, ?_, ?_, rfl⟩)
  · intro hgo
    rw [if_pos hgo]
    exact greedy_elements hpair (hitem.within hstart).2 hmore
  · intro hstill
    exact if_neg hstill

/-- **Separated lists mean an item, and pairs of a separator and an item.** Where the row of the
item and the repeated pairs ends, short of a fatal failure, the lists end alike. If the item fails
the row and the list that needs one fail alike, and the other list is empty. If it matches they all
match, the lists with the values of the same elements, and a separator is consumed only with an item
behind it. But an item that has consumed nothing is the whole list, whatever pairs follow. -/
theorem separated_amounts (hpure : g.PureCallbacks) (hpair : g.IsNode pair (.right sep item))
    (hrest : g.IsNode rest (.many pair)) (hwhole : g.IsNode whole (.sequence [item, rest]))
    (hlist₁ : g.IsNode list₁ (.sepBy1 item sep)) (hlist₀ : g.IsNode list₀ (.sepBy item sep))
    (hstart : start.Spans limit) (hfound : g.Found input whole start limit step)
    (hf : Step.fatal? step = none) :
    (∃ f, g.EndsAs input item start limit (.error f)
        ∧ step = .error (f.reportedAt start)
        ∧ g.EndsAs input list₁ start limit step
        ∧ g.EndsAs input list₀ start limit (.ok (.of start (.sequence [])))) ∨
      ∃ m more ms, g.EndsAs input item start limit (.ok m)
        ∧ g.EndsAs input rest m.stop limit (.ok (.listed m.stop more))
        ∧ step = .ok (.of (stopBehind m.stop more)
          (.sequence (m.value.toList ++ [.sequence (values more)])))
        ∧ g.EndsAs input list₁ start limit
          (.ok (.of (stopBehind m.stop ms) (.sequence (m.value.toList ++ values ms))))
        ∧ g.EndsAs input list₀ start limit
          (.ok (.of (stopBehind m.stop ms) (.sequence (m.value.toList ++ values ms))))
        ∧ InRow (g.Behind input limit sep item) m.stop ms
        ∧ (start < m.stop ∨ (∃ f, g.EndsAs input pair m.stop limit (.error f)) → ms = more)
        ∧ (m.stop = start → ms = []) := by
  have hends := hfound.ends (lt_size_of_entry hwhole) hf hpure hstart
  obtain ⟨f, hitem, rfl⟩ | ⟨m, more, hitem, hmore, rfl⟩ :=
    derives_spelled hrest hwhole hstart hends.derives
  · exact .inl ⟨f, hitem.ends hpure hstart, rfl,
      (Derives.repeat_missing hlist₁ rfl hitem).ends hpure hstart,
      (Derives.repeat_none hlist₀ rfl hitem).ends hpure hstart⟩
  · have hspans : start.Spans m.stop ∧ m.stop.Spans limit := hitem.within hstart
    have hlist : ∀ {i needed} {n : Node Nat υ σ}, g.IsNode i n →
        n.repetition? = some (item, some sep, needed) → g.EndsAs input i start limit
          (.ok (.listed start (m :: if start < m.stop then more else []))) :=
      fun he hn => (derives_separated he hn hpair hstart hitem hmore).ends hpure hstart
    have hvalues : ∀ ms, Match.listed start (m :: ms)
        = .of (stopBehind m.stop ms) (.sequence (m.value.toList ++ values ms)) := by
      intro ms
      rw [Match.listed, Match.values_cons]
      rfl
    refine .inr ⟨m, more, if start < m.stop then more else [], hitem.ends hpure hstart,
      ((derives_many_iff hrest hspans.2).2 ⟨more, hmore, rfl⟩).ends hpure hspans.2, rfl,
      hvalues _ ▸ hlist hlist₁ rfl, hvalues _ ▸ hlist hlist₀ rfl, ?_, ?_, ?_⟩
    · split
      · exact (greedy_elements hpair hspans.2 hmore).inRow.mono hspans.2
          (fun c s hc h => h.within_element hc) fun c m hc h => behind_of_derives hpure hc h
      · trivial
    · rintro (hgo | ⟨f, hfail⟩)
      · exact if_pos hgo
      · cases hmore with
        | failed => exact ite_self []
        | still h => cases h.unique hpure hspans.2 hfail.derives
        | go h => cases h.unique hpure hspans.2 hfail.derives
    · intro hsame
      exact if_neg (hsame ▸ Std.lt_irrefl)

/-- A letter, and two commas with nothing behind them. -/
theorem separated_amounts_letters : lists.PureCallbacks ∧ lists.IsNode 5 (.right 1 2)
    ∧ lists.IsNode 6 (.many 5) ∧ lists.IsNode 7 (.sequence [2, 6])
    ∧ lists.IsNode 3 (.sepBy1 2 1) ∧ lists.IsNode 4 (.sepBy 2 1)
    ∧ Cursor.start.Spans (.atByte 3)
    ∧ lists.Found ⟨#[0x61, 0x2c, 0x2c]⟩ 7 .start (.atByte 3)
      (.ok (.of (.atByte 3) (.sequence [.word 0x61 8, .sequence [.none, .none]]))) ∧
    ((∃ f, lists.EndsAs ⟨#[0x61, 0x2c, 0x2c]⟩ 2 .start (.atByte 3) (.error f)
        ∧ (.ok (.of (.atByte 3) (.sequence [.word 0x61 8, .sequence [.none, .none]])) : Step Unit)
          = .error (f.reportedAt .start)
        ∧ lists.EndsAs ⟨#[0x61, 0x2c, 0x2c]⟩ 3 .start (.atByte 3)
          (.ok (.of (.atByte 3) (.sequence [.word 0x61 8, .sequence [.none, .none]])))
        ∧ lists.EndsAs ⟨#[0x61, 0x2c, 0x2c]⟩ 4 .start (.atByte 3)
          (.ok (.of .start (.sequence [])))) ∨
      ∃ m more ms, lists.EndsAs ⟨#[0x61, 0x2c, 0x2c]⟩ 2 .start (.atByte 3) (.ok m)
        ∧ lists.EndsAs ⟨#[0x61, 0x2c, 0x2c]⟩ 6 m.stop (.atByte 3) (.ok (.listed m.stop more))
        ∧ .ok (.of (.atByte 3) (.sequence [.word 0x61 8, .sequence [.none, .none]]))
          = (.ok (.of (stopBehind m.stop more)
            (.sequence (m.value.toList ++ [.sequence (values more)]))) : Step Unit)
        ∧ lists.EndsAs ⟨#[0x61, 0x2c, 0x2c]⟩ 3 .start (.atByte 3)
          (.ok (.of (stopBehind m.stop ms) (.sequence (m.value.toList ++ values ms))))
        ∧ lists.EndsAs ⟨#[0x61, 0x2c, 0x2c]⟩ 4 .start (.atByte 3)
          (.ok (.of (stopBehind m.stop ms) (.sequence (m.value.toList ++ values ms))))
        ∧ InRow (lists.Behind ⟨#[0x61, 0x2c, 0x2c]⟩ (.atByte 3) 1 2) m.stop ms
        ∧ (Cursor.start < m.stop ∨
          (∃ f, lists.EndsAs ⟨#[0x61, 0x2c, 0x2c]⟩ 5 m.stop (.atByte 3) (.error f)) → ms = more)
        ∧ (m.stop = .start → ms = [])) :=
  have hstart : Cursor.start.Spans (.atByte 3) := ⟨by decide, by decide, by decide⟩
  have hfound : lists.Found ⟨#[0x61, 0x2c, 0x2c]⟩ 7 .start (.atByte 3)
      (.ok (.of (.atByte 3) (.sequence [.word 0x61 8, .sequence [.none, .none]]))) :=
    .of_fresh {} 0 () (by decide +kernel)
  ⟨pureCallbacks_lists, rfl, rfl, rfl, rfl, rfl, hstart, hfound,
    separated_amounts pureCallbacks_lists rfl rfl rfl rfl rfl hstart hfound rfl⟩

/-- **An empty first item ends the list.** On a comma and a letter the row of an optional letter and
the repeated pairs goes on to the end, and the list with separators ends in front of the comma. -/
theorem separated_shorter : lists.PureCallbacks ∧ lists.IsNode 5 (.right 1 2)
    ∧ lists.IsNode 6 (.many 5) ∧ lists.IsNode 7 (.sequence [2, 6])
    ∧ lists.IsNode 3 (.sepBy1 2 1) ∧
    ∃ m m', lists.EndsAs ⟨#[0x2c, 0x61]⟩ 7 .start (.atByte 2) (.ok m)
      ∧ lists.EndsAs ⟨#[0x2c, 0x61]⟩ 3 .start (.atByte 2) (.ok m')
      ∧ m.value = some (.sequence [.none, .sequence [.word 0x61 8]])
      ∧ m'.value = some (.sequence [.none])
      ∧ m'.stop < m.stop := by
  have hstart : Cursor.start.Spans (.atByte 2) := ⟨by decide, by decide, by decide⟩
  have hwhole : lists.Found ⟨#[0x2c, 0x61]⟩ 7 .start (.atByte 2)
      (.ok (.of (.atByte 2) (.sequence [.none, .sequence [.word 0x61 8]]))) :=
    .of_fresh {} 0 () (by decide +kernel)
  have hlist : lists.Found ⟨#[0x2c, 0x61]⟩ 3 .start (.atByte 2)
      (.ok (.of .start (.sequence [.none]))) :=
    .of_fresh {} 0 () (by decide +kernel)
  exact ⟨pureCallbacks_lists, rfl, rfl, rfl, rfl, _, _,
    hwhole.ends (by decide) rfl pureCallbacks_lists hstart,
    hlist.ends (by decide) rfl pureCallbacks_lists hstart, rfl, rfl, by decide⟩

end Packrat.Grammar
