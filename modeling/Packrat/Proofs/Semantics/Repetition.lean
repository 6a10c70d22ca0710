import Packrat.Proofs.Engine.Loops
import Packrat.Proofs.Semantics.Found
import Packrat.Proofs.Semantics.Types

/-!
# Proofs/Semantics/Repetition — repetition is greedy and maximal

What a repetition matches is a list of matches, one behind the other (`InRow`), up to the first
element that fails or consumes nothing (`Greedy`). Derivations of repetitions, with separators or
without, and of counted repetitions come down to such lists (`derives_repetition_iff`,
`derives_times_iff`).

Main statement: `many_maximal`, the repetition against the counted one, the non-empty one and
itself.
-/

namespace Packrat

variable {υ σ : Type}

/-! ## Matches in a row -/

/-- Where matches stop that come one behind the other, from a cursor on. -/
def stopBehind (cursor : Cursor) : List (Match υ) → Cursor
  | [] => cursor
  | m :: ms => stopBehind m.stop ms

namespace Match

/-- The values of matches; absent ones are left out. -/
def values (ms : List (Match υ)) : List (Value υ) := ms.filterMap (·.value)

/-- The match of a list, made of the matches of its elements. -/
def listed (start : Cursor) (ms : List (Match υ)) : Match υ :=
  .of (stopBehind start ms) (.sequence (values ms))

@[simp]
theorem values_nil : values ([] : List (Match υ)) = [] := rfl

@[simp]
theorem values_cons (m : Match υ) (ms : List (Match υ)) :
    values (m :: ms) = m.value.toList ++ values ms := by
  rw [values, List.filterMap_cons]
  cases m.value <;> rfl

end Match

open Match (values)

theorem stopBehind_concat (cursor : Cursor) (ms : List (Match υ)) (m : Match υ) :
    stopBehind cursor (ms ++ [m]) = m.stop := by
  induction ms generalizing cursor with
  | nil => rfl
  | cons m' ms ih => exact ih m'.stop

/-- The element matches again and again, from a cursor on: these are its matches. -/
def InRow (element : Cursor → Step υ → Prop) : Cursor → List (Match υ) → Prop
  | _, [] => True
  | cursor, m :: ms => element cursor (.ok m) ∧ InRow element m.stop ms

/-- The matches of an element, one behind the other, up to the first cursor where it fails or
consumes nothing. -/
inductive Greedy (element : Cursor → Step υ → Prop) : Cursor → List (Match υ) → Prop
  /-- The element fails. -/
  | failed {cursor f} (h : element cursor (.error f)) : Greedy element cursor []
  /-- It matches, but consumes nothing. -/
  | still {cursor m} (h : element cursor (.ok m)) (hstill : ¬cursor < m.stop) :
      Greedy element cursor [m]
  /-- It consumes something. -/
  | go {cursor m ms} (h : element cursor (.ok m)) (hgo : cursor < m.stop)
      (hrest : Greedy element m.stop ms) : Greedy element cursor (m :: ms)

variable {element element' : Cursor → Step υ → Prop} {start cursor limit : Cursor}
  {ms : List (Match υ)}

/-- What holds of matches in a window holds of matches in a row there. -/
theorem InRow.mono (h : InRow element cursor ms) (hcursor : cursor.Spans limit)
    (hwithin : ∀ c s, c.Spans limit → element c s → Step.Within c limit s)
    (hmatch : ∀ c m, c.Spans limit → element c (.ok m) → element' c (.ok m)) :
    InRow element' cursor ms := by
  induction ms generalizing cursor with
  | nil => trivial
  | cons m ms ih =>
    obtain ⟨hm, hrest⟩ := h
    exact ⟨hmatch _ _ hcursor hm, ih hrest (hwithin _ _ hcursor hm).2⟩

/-- Matches in a row stop inside the window. -/
theorem InRow.spans (h : InRow element cursor ms) (hcursor : cursor.Spans limit)
    (hwithin : ∀ c s, c.Spans limit → element c s → Step.Within c limit s) :
    cursor.Spans (stopBehind cursor ms) ∧ (stopBehind cursor ms).Spans limit := by
  induction ms generalizing cursor with
  | nil => exact ⟨hcursor.self, hcursor⟩
  | cons m ms ih =>
    obtain ⟨hm, hrest⟩ := h
    obtain ⟨hstop, hlimit⟩ : cursor.Spans m.stop ∧ m.stop.Spans limit := hwithin _ _ hcursor hm
    obtain ⟨hbehind, hend⟩ := ih hrest hlimit
    exact ⟨hstop.trans hbehind, hend⟩

/-- What holds where nothing is left to match, where the element fails, and in front of what it
holds of, holds of so many matches in a row, and of fewer in front of a failure. -/
theorem InRow.counted {P : Nat → Cursor → Array (Value υ) → Step υ → Prop}
    {report : Cursor → Fail → Fail} {count : Nat} {values : Array (Value υ)} {step : Step υ}
    (hall : ∀ {c vs}, P 0 c vs (.ok (.of c (.sequence vs.toList))))
    (hshort : ∀ {k c vs f}, element c (.error f) → P (k + 1) c vs (.error (report c f)))
    (hmore : ∀ {k c vs m s}, element c (.ok m) → P k m.stop (m.collect vs) s →
      P (k + 1) c vs s)
    (h : InRow element cursor ms)
    (hstep : (ms.length = count ∧ step = .ok (.of (stopBehind cursor ms)
        (.sequence (values.toList ++ Match.values ms)))) ∨
      ms.length < count ∧ ∃ f, element (stopBehind cursor ms) (.error f)
        ∧ step = .error (report (stopBehind cursor ms) f)) : P count cursor values step := by
  induction ms generalizing cursor values count with
  | nil =>
    obtain ⟨rfl, rfl⟩ | ⟨hlt, f, hf, rfl⟩ := hstep
    · rw [Match.values_nil, List.append_nil]
      exact hall
    · obtain ⟨count, rfl⟩ := Nat.exists_eq_succ_of_ne_zero (Nat.ne_of_gt hlt)
      exact hshort hf
  | cons m ms ih =>
    obtain ⟨hm, hrest⟩ := h
    obtain ⟨rfl, rfl⟩ | ⟨hlt, f, hf, rfl⟩ := hstep
    · refine hmore hm (ih hrest (.inl ⟨rfl, ?_⟩))
      rw [Grammar.toList_collect, Match.values_cons, List.append_assoc]
      rfl
    · obtain ⟨count, rfl⟩ := Nat.exists_eq_succ_of_ne_zero (Nat.ne_of_gt (Nat.zero_lt_of_lt hlt))
      exact hmore hm (ih hrest (.inr ⟨Nat.lt_of_succ_lt_succ hlt, f, hf, rfl⟩))

namespace Greedy

theorem inRow (h : Greedy element cursor ms) : InRow element cursor ms := by
  induction h with
  | failed h => trivial
  | still h hstill => exact ⟨h, trivial⟩
  | go h hgo hrest ih => exact ⟨h, ih⟩

/-- **Behind the matches the element fails, or the last of them has consumed nothing.** -/
theorem maximal (h : Greedy element cursor ms) :
    (∃ f, element (stopBehind cursor ms) (.error f)) ∨
      ∃ before m, ms = before ++ [m] ∧ InRow element cursor before
        ∧ element (stopBehind cursor before) (.ok m) ∧ ¬stopBehind cursor before < m.stop := by
  induction h with
  | failed h => exact .inl ⟨_, h⟩
  | still h hstill => exact .inr ⟨[], _, rfl, trivial, h, hstill⟩
  | @go cursor m ms h hgo hrest ih =>
    obtain hfail | ⟨before, m', rfl, hrow, hm', hstill⟩ := ih
    · exact .inl hfail
    · exact .inr ⟨m :: before, m', rfl, ⟨h, hrow⟩, hm', hstill⟩

/-- Elements that match alike, and fail at the same cursors, are repeated alike. -/
theorem congr (h : Greedy element cursor ms) (hcursor : cursor.Spans limit)
    (hwithin : ∀ c s, c.Spans limit → element c s → Step.Within c limit s)
    (hmatch : ∀ c m, c.Spans limit → element c (.ok m) → element' c (.ok m))
    (hfail : ∀ c f, c.Spans limit → element c (.error f) → ∃ f', element' c (.error f')) :
    Greedy element' cursor ms := by
  induction h with
  | failed h =>
    obtain ⟨f', hf'⟩ := hfail _ _ hcursor h
    exact .failed hf'
  | still h hstill => exact .still (hmatch _ _ hcursor h) hstill
  | go h hgo hrest ih =>
    exact .go (hmatch _ _ hcursor h) hgo (ih (hwithin _ _ hcursor h).2)

end Greedy

/-- What stops no further than it started has consumed nothing. -/
theorem Cursor.Spans.eq_of_not_lt {a b : Cursor} (h : a.Spans b) (hlt : ¬a < b) : b = a :=
  Std.le_antisymm (Std.not_lt.1 hlt) h.le

namespace Grammar

variable {g : Grammar υ σ} {input : Input} {step : Step υ} {i x item : Nat} {sep : Option Nat}
  {needed : Bool} {n : Node Nat υ σ}

/-! ## Elements -/

theorem derives_element_none {s : Step υ} :
    g.Derives input limit (.element item none cursor) s ↔
      g.Derives input limit (.entry item cursor) s := by
  refine ⟨fun h => ?_, .element_plain⟩
  cases h with
  | element_plain h => exact h

theorem Derives.within_element (h : g.Derives input limit (.element item sep cursor) step)
    (hcursor : cursor.Spans limit) : Step.Within cursor limit step :=
  Grammar.within_element hcursor (h.settles hcursor)

/-! ## Repetitions -/

/-- What is left of a repetition matches greedily. -/
theorem derives_more_iff {values : Array (Value υ)} :
    g.Derives input limit (.more item sep cursor values) step ↔
      ∃ ms, Greedy (fun c s => g.Derives input limit (.element item sep c) s) cursor ms
        ∧ step = .ok (.of (stopBehind cursor ms)
          (.sequence (values.toList ++ Match.values ms))) := by
  constructor
  · intro h
    generalize hgoal : Goal.more item sep cursor values = goal at h
    induction h generalizing cursor values with
    | more_stop h =>
      cases hgoal
      exact ⟨[], .failed h, by rw [Match.values_nil, List.append_nil]; rfl⟩
    | @more_still _ _ _ _ _ m h hstill =>
      cases hgoal
      refine ⟨[m], .still h hstill, ?_⟩
      rw [toList_collect, Match.values_cons, Match.values_nil, List.append_nil]
      rfl
    | @more_go _ _ _ _ _ m _ h hgo hmore _ ihMore =>
      cases hgoal
      obtain ⟨ms, hms, rfl⟩ := ihMore rfl
      refine ⟨m :: ms, .go h hgo hms, ?_⟩
      rw [toList_collect, Match.values_cons, List.append_assoc]
      rfl
    | _ => cases hgoal
  · rintro ⟨ms, h, rfl⟩
    induction h generalizing values with
    | failed h =>
      rw [Match.values_nil, List.append_nil]
      exact .more_stop h
    | still h hstill =>
      rw [Match.values_cons, Match.values_nil, List.append_nil, ← toList_collect]
      exact .more_still h hstill
    | go h hgo hrest ih =>
      rw [Match.values_cons, ← List.append_assoc, ← toList_collect]
      exact .more_go h hgo ih

theorem toList_collect_empty (m : Match υ) : (m.collect #[]).toList = m.value.toList :=
  toList_collect #[] m

/-- **A repetition is its first item and what follows greedily**, if the first item consumes
something. -/
theorem derives_repetition_iff (he : g.IsNode i n) (hn : n.repetition? = some (item, sep, needed))
    (hstart : start.Spans limit) : g.Derives input limit (.entry i start) step ↔
      (∃ f, g.Derives input limit (.entry item start) (.error f)
        ∧ step = if needed then .error (f.reportedAt start) else .ok (.listed start [])) ∨
      ∃ m ms, g.Derives input limit (.entry item start) (.ok m)
        ∧ (start < m.stop →
          Greedy (fun c s => g.Derives input limit (.element item sep c) s) m.stop ms)
        ∧ (¬start < m.stop → ms = [])
        ∧ step = .ok (.listed start (m :: ms)) := by
  constructor
  · intro h
    rw [derives_iff_yields he hstart, Node.rule_eq_repeated hn,
      Rule.yields_repeated (derived_calm_child item)] at h
    simp only [Rule.yields_child] at h
    obtain ⟨f, hitem, ⟨rfl, rfl⟩ | ⟨rfl, rfl⟩⟩ | ⟨m, hitem, ⟨hstill, rfl⟩ | ⟨hgo, hmore⟩⟩ := h
    · exact .inl ⟨f, hitem.1, rfl⟩
    · exact .inl ⟨f, hitem.1, rfl⟩
    · refine .inr ⟨m, [], hitem.1, fun hgo => absurd hgo hstill, fun _ => rfl, ?_⟩
      rw [toList_collect_empty, Match.listed, Match.values_cons, Match.values_nil,
        List.append_nil]
      rfl
    · obtain ⟨ms, hms, rfl⟩ := derives_more_iff.1 (derives_more hmore hitem.2.1.2 (by omega))
      refine .inr ⟨m, ms, hitem.1, fun _ => hms, fun hstill => absurd hgo hstill, ?_⟩
      rw [toList_collect_empty, Match.listed, Match.values_cons]
      rfl
  · rintro (⟨f, hitem, rfl⟩ | ⟨m, ms, hitem, hms, hnone, rfl⟩)
    · cases needed with
      | true => exact .repeat_missing he hn hitem
      | false => exact .repeat_none he hn hitem
    · rw [Match.listed, Match.values_cons, ← toList_collect_empty]
      by_cases hgo : start < m.stop
      · exact .repeat_more he hn hitem hgo (derives_more_iff.2 ⟨ms, hms hgo, rfl⟩)
      · obtain rfl := hnone hgo
        rw [Match.values_nil, List.append_nil]
        exact .repeat_still he hn hitem hgo

/-- **A repetition without separators matches greedily**, and fails only if an item is needed and
there is none. -/
theorem derives_unseparated_iff (he : g.IsNode i n) (hn : n.repetition? = some (x, none, needed))
    (hstart : start.Spans limit) : g.Derives input limit (.entry i start) step ↔
      ∃ ms, Greedy (fun c s => g.Derives input limit (.entry x c) s) start ms
        ∧ (((needed = true ∧ ms = []) ∧ ∃ f, g.Derives input limit (.entry x start) (.error f)
            ∧ step = .error (f.reportedAt start)) ∨
          ¬(needed = true ∧ ms = []) ∧ step = .ok (.listed start ms)) := by
  rw [derives_repetition_iff he hn hstart]
  simp only [derives_element_none]
  constructor
  · rintro (⟨f, hx, rfl⟩ | ⟨m, ms, hx, hms, hnone, rfl⟩)
    · refine ⟨[], .failed hx, ?_⟩
      cases needed with
      | true => exact .inl ⟨⟨rfl, rfl⟩, f, hx, rfl⟩
      | false => exact .inr ⟨fun h => Bool.false_ne_true h.1, rfl⟩
    · refine ⟨m :: ms, ?_, .inr ⟨fun h => List.cons_ne_nil m ms h.2, rfl⟩⟩
      by_cases hgo : start < m.stop
      · exact .go hx hgo (hms hgo)
      · obtain rfl := hnone hgo
        exact .still hx hgo
  · rintro ⟨ms, hms, ⟨⟨rfl, rfl⟩, f, hx, rfl⟩ | ⟨hneeded, rfl⟩⟩
    · exact .inl ⟨f, hx, rfl⟩
    · cases hms with
      | @failed _ f hx =>
        obtain rfl : needed = false := Bool.eq_false_iff.2 fun h => hneeded ⟨h, rfl⟩
        exact .inl ⟨f, hx, rfl⟩
      | still hx hstill =>
        exact .inr ⟨_, [], hx, fun hgo => absurd hgo hstill, fun _ => rfl, rfl⟩
      | go hx hgo hrest =>
        exact .inr ⟨_, _, hx, fun _ => hrest, fun hstill => absurd hgo hstill, rfl⟩

/-- A repetition that needs no item matches greedily. -/
theorem derives_many_iff (he : g.IsNode i (.many x)) (hstart : start.Spans limit) :
    g.Derives input limit (.entry i start) step ↔
      ∃ ms, Greedy (fun c s => g.Derives input limit (.entry x c) s) start ms
        ∧ step = .ok (.listed start ms) := by
  rw [derives_unseparated_iff he rfl hstart]
  simp

/-! ## Counted repetitions -/

/-- **A counted repetition is so many matches in a row**, or fewer in front of a failure. -/
theorem derives_times_iff {count : Nat} {values : Array (Value υ)} :
    g.Derives input limit (.times x count cursor values) step ↔
      ∃ ms, InRow (fun c s => g.Derives input limit (.entry x c) s) cursor ms
        ∧ ((ms.length = count ∧ step = .ok (.of (stopBehind cursor ms)
            (.sequence (values.toList ++ Match.values ms)))) ∨
          ms.length < count
            ∧ ∃ f, g.Derives input limit (.entry x (stopBehind cursor ms)) (.error f)
              ∧ step = .error (f.reportedAt (stopBehind cursor ms))) := by
  constructor
  · intro h
    induction count generalizing cursor values with
    | zero =>
      cases h
      refine ⟨[], trivial, .inl ⟨rfl, ?_⟩⟩
      rw [Match.values_nil, List.append_nil]
      rfl
    | succ count ih =>
      cases h with
      | times_fail hx => exact ⟨[], trivial, .inr ⟨Nat.succ_pos count, _, hx, rfl⟩⟩
      | @times_succ _ _ _ _ _ m _ hx hrest =>
        obtain ⟨ms, hms, ⟨rfl, rfl⟩ | ⟨hlt, f, hf, rfl⟩⟩ := ih hrest
        · refine ⟨m :: ms, ⟨hx, hms⟩, .inl ⟨rfl, ?_⟩⟩
          rw [toList_collect, Match.values_cons, List.append_assoc]
          rfl
        · exact ⟨m :: ms, ⟨hx, hms⟩, .inr ⟨Nat.succ_lt_succ hlt, f, hf, rfl⟩⟩
  · rintro ⟨ms, hms, hstep⟩
    exact hms.counted (P := fun k c vs s => g.Derives input limit (.times x k c vs) s)
      .times_zero .times_fail .times_succ hstep

theorem derives_repeatN_iff {count : Nat} (he : g.IsNode i (.repeatN x count))
    (hstart : start.Spans limit) : g.Derives input limit (.entry i start) step ↔
      g.Derives input limit (.times x count start #[]) step := by
  refine ⟨fun h => ?_, .repeatN he⟩
  exact derives_times ((derives_iff_yields he hstart).1 h)

/-! ## Greedy and maximal -/

/-- **Repetition is greedy and maximal.** What a repetition matches is a number of matches of its
item in a row, the same as if they were counted. Behind them the item fails, or the last of them has
consumed nothing. If there is a match at all, the repetition that needs one matches the same, and
otherwise it fails where it started. Another repetition behind the matches consumes nothing. -/
theorem many_maximal (hpure : g.PureCallbacks) (hmany : g.IsNode i (.many x))
    (hstart : start.Spans limit) (hfound : g.Found input i start limit step)
    (hf : Step.fatal? step = none) :
    ∃ ms, step = .ok (.listed start ms)
      ∧ InRow (fun c s => g.EndsAs input x c limit s) start ms
      ∧ (∀ j, g.IsNode j (.repeatN x ms.length) → g.EndsAs input j start limit step)
      ∧ ((∃ f, g.EndsAs input x (stopBehind start ms) limit (.error f)) ∨
        ∃ before m, ms = before ++ [m] ∧ m.stop = stopBehind start before)
      ∧ (∀ j, g.IsNode j (.many1 x) → if ms = []
          then ∃ f, f.position = start ∧ g.EndsAs input j start limit (.error f)
          else g.EndsAs input j start limit step)
      ∧ ∃ more, g.EndsAs input i (stopBehind start ms) limit
          (.ok (.listed (stopBehind start ms) more))
        ∧ stopBehind (stopBehind start ms) more = stopBehind start ms := by
  have hends := hfound.ends (lt_size_of_entry hmany) hf hpure hstart
  obtain ⟨ms, hms, rfl⟩ := (derives_many_iff hmany hstart).1 hends.derives
  have hwithin : ∀ c s, c.Spans limit → g.Derives input limit (.entry x c) s →
      Step.Within c limit s := fun c s hc h => h.within hc
  obtain ⟨-, hstop⟩ := hms.inRow.spans hstart hwithin
  refine ⟨ms, rfl, hms.inRow.mono hstart hwithin fun c s hc h => h.ends hpure hc, ?_, ?_, ?_, ?_⟩
  · intro j hj
    have htimes : g.Derives input limit (.times x ms.length start #[]) (.ok (.listed start ms)) :=
      derives_times_iff.2 ⟨ms, hms.inRow, .inl ⟨rfl, rfl⟩⟩
    exact (Derives.repeatN hj htimes).ends hpure hstart
  · obtain ⟨f, hfail⟩ | ⟨before, m, hlast, hbefore, hm, hstill⟩ := hms.maximal
    · exact .inl ⟨f, hfail.ends hpure hstop⟩
    · obtain ⟨-, hspans⟩ := hbefore.spans hstart hwithin
      exact .inr ⟨before, m, hlast, (hm.within hspans).1.eq_of_not_lt hstill⟩
  · intro j hj
    split
    · next hnone =>
      obtain rfl := hnone
      obtain ⟨f, hfail⟩ : ∃ f, g.Derives input limit (.entry x start) (.error f) := by
        cases hms with
        | failed h => exact ⟨_, h⟩
      exact ⟨f.reportedAt start, rfl, (Derives.repeat_missing hj rfl hfail).ends hpure hstart⟩
    · next hsome =>
      exact ((derives_unseparated_iff hj rfl hstart).2
        ⟨ms, hms, .inr ⟨fun h => hsome h.2, rfl⟩⟩).ends hpure hstart
  · have hagain : ∀ more, Greedy (fun c s => g.Derives input limit (.entry x c) s)
        (stopBehind start ms) more → g.EndsAs input i (stopBehind start ms) limit
          (.ok (.listed (stopBehind start ms) more)) :=
      fun more h => ((derives_many_iff hmany hstop).2 ⟨more, h, rfl⟩).ends hpure hstop
    obtain ⟨f, hfail⟩ | ⟨before, m, rfl, hbefore, hm, hstill⟩ := hms.maximal
    · exact ⟨[], hagain [] (.failed hfail), rfl⟩
    · -- The last match has consumed nothing, so the item matches the same once more.
      obtain ⟨-, hspans⟩ := hbefore.spans hstart hwithin
      have hsame : m.stop = stopBehind start before :=
        (hm.within hspans).1.eq_of_not_lt hstill
      have hbehind : stopBehind start (before ++ [m]) = stopBehind start before :=
        (stopBehind_concat start before m).trans hsame
      rw [hbehind] at hagain ⊢
      exact ⟨[m], hagain [m] (.still hm hstill), hsame⟩

/-! ## Lists of optional letters -/

/-- Lists of letters that may be missing, with commas between them and without, and pairs of
letters. -/
def lists : Grammar Unit Unit where
  id := 0
  entries := #[.node (.byte 0x61), .node (.byte 0x2c), .node (.optional 0), .node (.sepBy1 2 1),
    .node (.sepBy 2 1), .node (.right 1 2), .node (.many 5), .node (.sequence [2, 6]),
    .node (.many 2), .node (.repeatN 0 2), .node (.sequence [0, 0])]
  targets := #[]
  child_lt := by decide
  slot_lt := by
    intro i h slot he
    have hmem := Array.getElem_mem h
    rw [he] at hmem
    simp only [List.mem_toArray, List.mem_cons, reduceCtorEq, List.not_mem_nil, or_false] at hmem
  target_lt := by decide

theorem pureCallbacks_lists : lists.PureCallbacks := by
  intro i node he
  have hmem := Array.mem_of_getElem? he
  simp only [lists, List.mem_toArray, List.mem_cons, Entry.node.injEq, List.not_mem_nil,
    or_false] at hmem
  obtain rfl | rfl | rfl | rfl | rfl | rfl | rfl | rfl | rfl | rfl | rfl := hmem <;> trivial

/-- Two letters, and a third one that is missing. -/
theorem many_maximal_letters : lists.PureCallbacks ∧ lists.IsNode 8 (.many 2)
    ∧ Cursor.start.Spans (.atByte 2)
    ∧ lists.Found ⟨#[0x61, 0x61]⟩ 8 .start (.atByte 2)
      (.ok (.of (.atByte 2) (.sequence [.word 0x61 8, .word 0x61 8, .none]))) ∧
    ∃ ms, (.ok (.of (.atByte 2) (.sequence [.word 0x61 8, .word 0x61 8, .none])) : Step Unit)
          = .ok (.listed .start ms)
      ∧ InRow (fun c s => lists.EndsAs ⟨#[0x61, 0x61]⟩ 2 c (.atByte 2) s) .start ms
      ∧ (∀ j, lists.IsNode j (.repeatN 2 ms.length) →
          lists.EndsAs ⟨#[0x61, 0x61]⟩ j .start (.atByte 2)
            (.ok (.of (.atByte 2) (.sequence [.word 0x61 8, .word 0x61 8, .none]))))
      ∧ ((∃ f, lists.EndsAs ⟨#[0x61, 0x61]⟩ 2 (stopBehind .start ms) (.atByte 2) (.error f)) ∨
        ∃ before m, ms = before ++ [m] ∧ m.stop = stopBehind .start before)
      ∧ (∀ j, lists.IsNode j (.many1 2) → if ms = []
          then ∃ f, f.position = .start
            ∧ lists.EndsAs ⟨#[0x61, 0x61]⟩ j .start (.atByte 2) (.error f)
          else lists.EndsAs ⟨#[0x61, 0x61]⟩ j .start (.atByte 2)
            (.ok (.of (.atByte 2) (.sequence [.word 0x61 8, .word 0x61 8, .none]))))
      ∧ ∃ more, lists.EndsAs ⟨#[0x61, 0x61]⟩ 8 (stopBehind .start ms) (.atByte 2)
          (.ok (.listed (stopBehind .start ms) more))
        ∧ stopBehind (stopBehind .start ms) more = stopBehind .start ms :=
  have hstart : Cursor.start.Spans (.atByte 2) := ⟨by decide, by decide, by decide⟩
  have hfound : lists.Found ⟨#[0x61, 0x61]⟩ 8 .start (.atByte 2)
      (.ok (.of (.atByte 2) (.sequence [.word 0x61 8, .word 0x61 8, .none]))) :=
    .of_fresh {} 0 () (by decide +kernel)
  ⟨pureCallbacks_lists, rfl, hstart, hfound,
    many_maximal pureCallbacks_lists rfl hstart hfound rfl⟩

end Grammar

end Packrat
