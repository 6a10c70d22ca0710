import Packrat.Proofs.Input.Scan
import Packrat.Proofs.Semantics.Types

/-!
# Proofs/Semantics/Reads — entries that do what a scan does

`Grammar.Reads g i f view` says that from byte boundary to byte boundary the entry at `i` does what
the scan `f` does with the bytes in between: it matches what the scan reads, stops where the scan
stops, and its value is a view of what was read; and it fails where the scan fails. For each
combinator over whole bytes there is a scan made of the scans of its parts.
-/

namespace Packrat

variable {υ σ α β : Type}

/-- The outcome is what the scan of the bytes from `first` to `last` came to. -/
def Step.Follows (input : Input) (first last : Nat) (view : α → Option (Value υ)) (step : Step υ) :
    Option (α × List UInt8) → Prop
  | some (a, rest) => ∃ mid, first ≤ mid ∧ mid ≤ last ∧ rest = input.slice mid last
      ∧ step = .ok ⟨.atByte mid, view a⟩
  | none => ∃ f, step = .error f

/-- What is read first is put in front. -/
theorem Step.Follows.prepend {input : Input} {first mid last : Nat} {f : Scan α} {g : α → β}
    {view : α → Option (Value υ)} {view' : β → Option (Value υ)} {step : Step υ}
    (h : step.Follows input mid last view (f (input.slice mid last))) (hmid : first ≤ mid)
    (hview : ∀ a, view a = view' (g a)) :
    step.Follows input first last view' ((g <$> f) (input.slice mid last)) := by
  rw [Scan.map_apply]
  cases hf : f (input.slice mid last) with
  | none =>
    rw [hf] at h
    exact h
  | some ar =>
    rw [hf] at h
    obtain ⟨stop, hstop, hstop', hrest, hstep⟩ := h
    exact ⟨stop, Nat.le_trans hmid hstop, hstop', hrest, by rw [hstep, hview]⟩

namespace Grammar

/-- Between byte boundaries the entry does what the scan does; `view` gives its values. -/
structure Reads (g : Grammar υ σ) (i : Nat) (f : Scan α) (view : α → Option (Value υ)) : Prop
    extends g.Types i view where
  exact : ∀ {input first last step}, first ≤ last → last ≤ input.bytes.size →
    8 * input.bytes.size < wordBound →
    g.Settles input i (.atByte first) (.atByte last) step →
    step.Follows input first last view (f (input.slice first last))

variable {g : Grammar υ σ} {i j k : Nat} {f : Scan α} {f' : Scan β} {view : α → Option (Value υ)}
  {view' : β → Option (Value υ)} {input : Input} {first last : Nat} {step : Step υ}

theorem Reads.of_node {n : Node Nat υ σ} (he : g.entries[i]? = some (.node n))
    (htypes : g.Types i view) (h : ∀ {input first last step}, first ≤ last →
      last ≤ input.bytes.size → 8 * input.bytes.size < wordBound →
      (n.rule input (.atByte first)).Yields (g.Settles input) (.atByte last) step →
      step.Follows input first last view (f (input.slice first last))) : g.Reads i f view where
  toTypes := htypes
  exact hfirst hlast hsize hs := h hfirst hlast hsize ((settles_node he).1 hs)

/-- The entry matches just when the scan reads something. -/
theorem Reads.cases (h : g.Reads i f view) (hfirst : first ≤ last)
    (hlast : last ≤ input.bytes.size) (hsize : 8 * input.bytes.size < wordBound)
    (hs : g.Settles input i (.atByte first) (.atByte last) step) :
    (∃ fail, step = .error fail ∧ f (input.slice first last) = none) ∨
      ∃ a mid, step = .ok ⟨.atByte mid, view a⟩ ∧ first ≤ mid ∧ mid ≤ last
        ∧ f (input.slice first last) = some (a, input.slice mid last) := by
  have hexact := h.exact hfirst hlast hsize hs
  cases hf : f (input.slice first last) with
  | none =>
    rw [hf] at hexact
    obtain ⟨fail, hfail⟩ := hexact
    exact .inl ⟨fail, hfail, rfl⟩
  | some ar =>
    rw [hf] at hexact
    obtain ⟨mid, hfirst', hlast', hrest, hstep⟩ := hexact
    exact .inr ⟨ar.1, mid, hstep, hfirst', hlast', congrArg some (Prod.ext rfl hrest)⟩

/-- A failure of the entry is one of the scan. -/
theorem Reads.eq_none (h : g.Reads i f view) (hfirst : first ≤ last)
    (hlast : last ≤ input.bytes.size) (hsize : 8 * input.bytes.size < wordBound) {fail : Fail}
    (hs : g.Settles input i (.atByte first) (.atByte last) (.error fail)) :
    f (input.slice first last) = none := by
  obtain ⟨_, -, hf⟩ | ⟨_, _, hstep, -⟩ := h.cases hfirst hlast hsize hs
  · exact hf
  · cases hstep

/-- A match of the entry is something read by the scan. -/
theorem Reads.eq_some (h : g.Reads i f view) (hfirst : first ≤ last)
    (hlast : last ≤ input.bytes.size) (hsize : 8 * input.bytes.size < wordBound) {m : Match υ}
    (hs : g.Settles input i (.atByte first) (.atByte last) (.ok m)) :
    ∃ a mid, m = ⟨.atByte mid, view a⟩ ∧ first ≤ mid ∧ mid ≤ last
      ∧ f (input.slice first last) = some (a, input.slice mid last) := by
  obtain ⟨_, hstep, -⟩ | ⟨a, mid, hstep, hrest⟩ := h.cases hfirst hlast hsize hs
  · cases hstep
  · exact ⟨a, mid, Except.ok.inj hstep, hrest⟩

/-- Another view of what is read. -/
theorem Reads.map (h : g.Reads i f view) (e : α → β) (he : ∀ a, view a = view' (e a)) :
    g.Reads i (e <$> f) view' where
  toTypes := h.toTypes.map e he
  exact hfirst hlast hsize hs := by
    rw [Scan.map_apply]
    obtain ⟨fail, rfl, hf⟩ | ⟨a, mid, rfl, hmid, hmid', hf⟩ := h.cases hfirst hlast hsize hs
    · rw [hf]
      exact ⟨fail, rfl⟩
    · rw [hf]
      exact ⟨mid, hmid, hmid', rfl, by rw [he]⟩

theorem Reads.congr (h : g.Reads i f view) {e : Scan α} (he : f = e) : g.Reads i e view := he ▸ h

/-! ## Leaves -/

theorem reads_uint {count : Nat} (he : g.entries[i]? = some (.node (.uint count))) :
    g.Reads i (.number count) fun n => some (.word n (8 * count)) := by
  refine .of_node he (types_bits he) fun {input first last step} hfirst hlast hsize hs => ?_
  have hlength : (input.slice first last).length = last - first := Input.length_slice hlast
  obtain ⟨hread, rfl⟩ | ⟨raw, stop, hread, rfl⟩ := Rule.yields_bits.1 hs
  · rw [Input.readBits?_atByte hsize hlast] at hread
    split at hread
    · cases hread
    · rw [Scan.number, dif_neg (by omega)]
      exact ⟨_, rfl⟩
  · rw [Input.readBits?_atByte hsize hlast] at hread
    split at hread
    · next hfit =>
      cases hread
      rw [Scan.number, dif_pos (by omega)]
      refine ⟨first + count, Nat.le_add_right .., hfit, Input.drop_slice count, ?_⟩
      simp only [Input.take_slice hfit]
      rfl
    · cases hread

theorem reads_byte {b : UInt8} (he : g.entries[i]? = some (.node (.byte b))) :
    g.Reads i (.byte b) fun _ => some (.word b.toNat 8) := by
  refine .of_node he (types_byte he) fun {input first last step} hfirst hlast hsize hs => ?_
  have hread : input.byteAt? (.atByte first) (.atByte last) = (input.slice first last).head? :=
    Input.byteAt?_atByte (by omega) hlast
  have hrest : (input.slice first last).drop 1 = input.slice (first + 1) last := Input.drop_slice 1
  have hlength : (input.slice first last).length = last - first := Input.length_slice hlast
  cases hslice : input.slice first last with
  | nil =>
    rw [hslice] at hread
    obtain ⟨-, rfl⟩ | ⟨found, hfound, -⟩ := Rule.yields_byteIf.1 hs
    · exact ⟨_, rfl⟩
    · cases hread.symm.trans hfound
  | cons found l =>
    rw [hslice] at hread hrest hlength
    obtain ⟨hnone, rfl⟩ | ⟨found', hfound, hb, rfl⟩ := Rule.yields_byteIf.1 hs
    · rw [Scan.byte, if_neg fun h => hnone found hread (beq_iff_eq.2 h)]
      exact ⟨_, rfl⟩
    · obtain rfl := Option.some.inj (hread.symm.trans hfound)
      obtain rfl := eq_of_beq hb
      rw [Scan.byte, if_pos rfl]
      rw [List.length_cons] at hlength
      exact ⟨first + 1, Nat.le_succ first, by omega, hrest, rfl⟩

/-! ## In a row -/

/-- Entries in a row do what the scan does. -/
structure ReadsAll (g : Grammar υ σ) (parts : List Nat) (f : Scan α) (view : α → List (Value υ)) :
    Prop extends g.TypesAll parts view where
  exact : ∀ {input start first last values step}, first ≤ last → last ≤ input.bytes.size →
    8 * input.bytes.size < wordBound →
    (Rule.sequenceFrom start (parts.map (Rule.child (σ := σ))) (.atByte first) values).Yields
      (g.Settles input) (.atByte last) step →
    step.Follows input first last (fun a => some (.sequence (values.toList ++ view a)))
      (f (input.slice first last))

theorem readsAll_nil (g : Grammar υ σ) : g.ReadsAll [] (pure ()) fun _ : Unit => [] := by
  refine ⟨typesAll_nil g, ?_⟩
  intro input start first last values step hfirst hlast hsize hs
  obtain rfl : Except.ok (Match.of (.atByte first) (.sequence values.toList)) = step := hs
  exact ⟨first, Nat.le_refl first, hfirst, rfl, by rw [List.append_nil]; rfl⟩

theorem ReadsAll.cons {parts : List Nat} {rest : β → List (Value υ)} (h : g.Reads i f view)
    (hs : g.ReadsAll parts f' rest) :
    g.ReadsAll (i :: parts) (.pair f f')
      fun a : α × β => (view a.1).toList ++ rest a.2 := by
  refine ⟨.cons h.toTypes hs.toTypesAll, ?_⟩
  intro input start first last values step hfirst hlast hsize hy
  rw [Scan.pair, Scan.bind_apply]
  obtain ⟨fail, hf, rfl⟩ | ⟨m, hm, hy⟩ := Rule.yields_sequenceFrom_cons.1 hy
  · rw [h.eq_none hfirst hlast hsize (Rule.yields_child.1 hf)]
    exact ⟨_, rfl⟩
  · obtain ⟨a, mid, rfl, hmid, hmid', hf⟩ :=
      h.eq_some hfirst hlast hsize (Rule.yields_child.1 hm)
    have hrest := hs.exact hmid' hlast hsize hy
    rw [hf, Option.bind_some]
    dsimp only
    rw [Scan.bind_apply]
    cases hf' : f' (input.slice mid last) with
    | none =>
      rw [hf'] at hrest
      exact hrest
    | some br =>
      rw [hf'] at hrest
      obtain ⟨stop, hstop, hstop', hslice, rfl⟩ := hrest
      refine ⟨stop, Nat.le_trans hmid hstop, hstop', hslice, ?_⟩
      dsimp only
      rw [toList_collect, List.append_assoc]

theorem reads_sequence {parts : List Nat} {views : α → List (Value υ)}
    (he : g.entries[i]? = some (.node (.sequence parts))) (h : g.ReadsAll parts f views) :
    g.Reads i f fun a => some (.sequence (views a)) :=
  .of_node he (types_sequence he h.toTypesAll) fun hfirst hlast hsize hs =>
    h.exact hfirst hlast hsize hs

theorem Reads.intRange {low high : Int}
    (he : g.entries[i]? = some (.node (.intRange j low high))) {number : α → Integer}
    (h : g.Reads j f fun a => some (.integer (number a))) {accepts : α → Bool}
    (haccepts : ∀ a, accepts a ↔ low ≤ (number a).toInt ∧ (number a).toInt ≤ high) :
    g.Reads i (.filter accepts f) fun a => some (.integer (number a)) := by
  refine .of_node he ((h.toTypes.intRange he).map Subtype.val fun _ => rfl) ?_
  intro input first last step hfirst hlast hsize hs
  rw [Scan.filter_apply]
  obtain ⟨fail, hf, rfl⟩ | ⟨m, hm, hrange⟩ := Rule.yields_intRange.1 hs
  · rw [h.eq_none hfirst hlast hsize (Rule.yields_child.1 hf)]
    exact ⟨_, rfl⟩
  · obtain ⟨a, mid, rfl, hmid, hmid', hf⟩ :=
      h.eq_some hfirst hlast hsize (Rule.yields_child.1 hm)
    have hin : Rule.InRange low high (⟨.atByte mid, some (.integer (number a))⟩ : Match υ) ↔
        accepts a := by
      rw [haccepts]
      exact ⟨fun ⟨n, hn, h⟩ => Option.some.inj hn ▸ h, fun h => ⟨_, rfl, h⟩⟩
    rw [hf, Option.bind_some]
    obtain ⟨ha, rfl⟩ | ⟨ha, rfl⟩ := hrange
    · rw [hin] at ha
      simp only [ha, if_true]
      exact ⟨mid, hmid, hmid', rfl, rfl⟩
    · rw [hin] at ha
      simp only [ha]
      exact ⟨_, rfl⟩

/-! ## Alternatives and repetition -/

theorem follows_choiceFrom {parts : List Nat} {fs : List (Scan α)}
    (h : List.Forall₂ (fun c f => g.Reads c f view) parts fs) {best : Option Fail}
    (hfirst : first ≤ last) (hlast : last ≤ input.bytes.size)
    (hsize : 8 * input.bytes.size < wordBound) {start : Cursor} (hstart : start = .atByte first)
    (hs : (Rule.choiceFrom start (parts.map (Rule.child (σ := σ))) best).Yields (g.Settles input)
      (.atByte last) step) :
    step.Follows input first last view (Scan.first fs (input.slice first last)) := by
  subst hstart
  induction h generalizing best with
  | nil => exact ⟨_, hs.symm⟩
  | @cons c f parts fs hc _ ih =>
    rw [Scan.first_cons]
    obtain ⟨fail, hf, hs⟩ | ⟨m, hm, rfl⟩ :=
      (Rule.yields_choiceFrom_cons (settles_calm_child c)).1 hs
    · rw [hc.eq_none hfirst hlast hsize (Rule.yields_child.1 hf)]
      exact ih hs
    · obtain ⟨a, mid, rfl, hmid, hmid', hf⟩ :=
        hc.eq_some hfirst hlast hsize (Rule.yields_child.1 hm)
      rw [hf]
      exact ⟨mid, hmid, hmid', rfl, rfl⟩

theorem types_of_forall₂ {parts : List Nat} {fs : List (Scan α)}
    (h : List.Forall₂ (fun c f => g.Reads c f view) parts fs) : ∀ c ∈ parts, g.Types c view := by
  induction h with
  | nil => exact fun _ hc => nomatch hc
  | cons hc _ ih => exact List.forall_mem_cons.2 ⟨hc.toTypes, ih⟩

theorem reads_choice {parts : List Nat} {fs : List (Scan α)}
    (he : g.entries[i]? = some (.node (.choice parts)))
    (h : List.Forall₂ (fun c f => g.Reads c f view) parts fs) : g.Reads i (.first fs) view :=
  .of_node he (types_choice he (types_of_forall₂ h)) fun hfirst hlast hsize hs =>
    follows_choiceFrom h hfirst hlast hsize rfl hs

/-- What is read takes the cursor on. -/
theorem lt_of_consumes (hf : f.Consumes) {a : α} {mid : Nat} (hmid : mid ≤ last)
    (hlast : last ≤ input.bytes.size)
    (h : f (input.slice first last) = some (a, input.slice mid last)) : first < mid := by
  have hless := hf _ _ _ h
  rw [Input.length_slice hlast, Input.length_slice hlast] at hless
  omega

theorem Reads.continueFrom (h : g.Reads j f view) (hf : f.Consumes) (hfirst : first ≤ last)
    (hlast : last ≤ input.bytes.size) (hsize : 8 * input.bytes.size < wordBound) {room : Nat}
    (hroom : last - first ≤ room) {values : Array (Value υ)} {as : List α}
    (hvalues : values.toList = as.filterMap view)
    (hs : (Rule.continueFrom (Rule.child (σ := σ) j) room (.atByte first) values).Yields
      (g.Settles input) (.atByte last) step) :
    step.Follows input first last (fun bs => some (.sequence ((as ++ bs).filterMap view)))
      (Scan.many f (input.slice first last)) := by
  induction room using Nat.strongRecOn generalizing first values as with
  | ind room ih =>
    rw [Scan.many_apply hf]
    obtain ⟨fail, hfail, rfl⟩ | ⟨m, hm, hnext⟩ :=
      (Rule.yields_continueFrom (settles_calm_child j)).1 hs
    · rw [h.eq_none hfirst hlast hsize (Rule.yields_child.1 hfail)]
      refine ⟨first, Nat.le_refl first, hfirst, rfl, ?_⟩
      rw [hvalues]
      dsimp only
      rw [List.append_nil]
      rfl
    · obtain ⟨a, mid, rfl, hmid, hmid', ha⟩ :=
        h.eq_some hfirst hlast hsize (Rule.yields_child.1 hm)
      have hlt := lt_of_consumes hf hmid' hlast ha
      have hcursor : Cursor.atByte first < .atByte mid := Cursor.lt_def.2 (.inl hlt)
      obtain ⟨hstay, -⟩ | ⟨-, ⟨rfl, -⟩ | ⟨rest, rfl, hmore⟩⟩ := hnext
      · exact absurd hcursor hstay
      · omega
      · have hcollect : (Match.collect values ⟨.atByte mid, view a⟩).toList
            = (as ++ [a]).filterMap view := by
          rw [toList_collect, hvalues, filterMap_concat]
        have hrest := ih rest (Nat.lt_succ_self rest) hmid' (by omega) hcollect hmore
        rw [ha]
        exact hrest.prepend hmid fun bs => by rw [List.append_assoc, List.singleton_append]

/-- The first turn of a repetition. -/
theorem Reads.repeated (h : g.Reads j f view) (hf : f.Consumes) (hfirst : first ≤ last)
    (hlast : last ≤ input.bytes.size) (hsize : 8 * input.bytes.size < wordBound) {needed : Bool}
    (hs : (Rule.repeated (Rule.child (σ := σ) j) (Rule.child j) needed (.atByte first)).Yields
      (g.Settles input) (.atByte last) step) :
    (f (input.slice first last) = none ∧ ((needed = true ∧ ∃ fail, step = .error fail)
        ∨ needed = false ∧ step = .ok (.of (.atByte first) (.sequence [])))) ∨
      ∃ a mid, f (input.slice first last) = some (a, input.slice mid last)
        ∧ step.Follows input first last (fun as => some (.sequence (as.filterMap view)))
          (((a :: ·) <$> Scan.many f) (input.slice mid last)) := by
  obtain ⟨fail, hfail, hstep⟩ | ⟨m, hm, hnext⟩ := (Rule.yields_repeated (settles_calm_child j)).1 hs
  · refine .inl ⟨h.eq_none hfirst hlast hsize (Rule.yields_child.1 hfail), ?_⟩
    exact hstep.imp (fun hstep => ⟨hstep.1, _, hstep.2.symm⟩) fun hstep => ⟨hstep.1, hstep.2.symm⟩
  · obtain ⟨a, mid, rfl, hmid, hmid', ha⟩ :=
      h.eq_some hfirst hlast hsize (Rule.yields_child.1 hm)
    have hlt := lt_of_consumes hf hmid' hlast ha
    have hcursor : Cursor.atByte first < .atByte mid := Cursor.lt_def.2 (.inl hlt)
    obtain ⟨hstay, -⟩ | ⟨-, hmore⟩ := hnext
    · exact absurd hcursor hstay
    · have hcollect : (Match.collect #[] ⟨.atByte mid, view a⟩).toList = [a].filterMap view := by
        rw [toList_collect]
        exact (filterMap_concat [] a).symm
      have hroom : last - mid
          ≤ (Cursor.atByte last).bitPosition - (Cursor.atByte mid).bitPosition := by
        rw [Cursor.bitPosition_atByte, Cursor.bitPosition_atByte]
        omega
      have hrest := h.continueFrom hf hmid' hlast hsize hroom hcollect hmore
      exact .inr ⟨a, mid, ha, hrest.prepend hmid fun bs => rfl⟩

theorem Reads.many (he : g.entries[i]? = some (.node (.many j))) (h : g.Reads j f view)
    (hf : f.Consumes) :
    g.Reads i (.many f) fun as => some (.sequence (as.filterMap view)) := by
  refine .of_node he (h.toTypes.many he) fun {input first last step} hfirst hlast hsize hs => ?_
  rw [Scan.many_apply hf]
  obtain ⟨hnone, ⟨hneeded, -⟩ | ⟨-, rfl⟩⟩ | ⟨a, mid, ha, hrest⟩ :=
    h.repeated hf hfirst hlast hsize hs
  · cases hneeded
  · rw [hnone]
    exact ⟨first, Nat.le_refl first, hfirst, rfl, rfl⟩
  · rw [ha]
    exact hrest

theorem Reads.many1 (he : g.entries[i]? = some (.node (.many1 j))) (h : g.Reads j f view)
    (hf : f.Consumes) :
    g.Reads i (.many1 f) fun as => some (.sequence (as.filterMap view)) := by
  refine .of_node he (h.toTypes.many1 he) fun {input first last step} hfirst hlast hsize hs => ?_
  rw [Scan.many1_apply]
  obtain ⟨hnone, ⟨-, hfail⟩ | ⟨hneeded, -⟩⟩ | ⟨a, mid, ha, hrest⟩ :=
    h.repeated hf hfirst hlast hsize hs
  · rw [hnone]
    exact hfail
  · cases hneeded
  · rw [ha]
    exact hrest

/-! ## Windows and callbacks -/

/-- The window that a count opens between byte boundaries. -/
theorem windowEnd?_atByte {value : Option (Value υ)} {count mid : Nat}
    (hcount : value.bind Value.word? = some count) (hlast : last < wordBound) :
    Rule.windowEnd? ⟨.atByte mid, value⟩ (.atByte last)
      = if mid + count ≤ last then some (.atByte (mid + count)) else none := by
  have hle : Cursor.atByte (mid + count) ≤ .atByte last ↔ mid + count ≤ last := by
    simp only [Cursor.le_def, Cursor.atByte]
    omega
  refine Option.ext fun stop => ?_
  simp only [Rule.windowEnd?, hcount, bind, pure, ↓guard_eq_ite, Option.bind_some,
    Option.bind_eq_some_iff, Option.ite_none_right_eq_some, Cursor.advanceBytes?]
  constructor
  · rintro ⟨_, ⟨-, hstop⟩, _, ⟨hfit, -⟩, heq⟩
    obtain rfl := Option.some.inj hstop
    exact ⟨hle.1 hfit, heq⟩
  · rintro ⟨hfit, hstop⟩
    exact ⟨_, ⟨Nat.lt_of_le_of_lt hfit hlast, rfl⟩, (), ⟨hle.2 hfit, trivial⟩, hstop⟩

theorem Reads.lengthValue (he : g.entries[i]? = some (.node (.lengthValue j k)))
    (hl : g.Reads j f view) (hv : g.Reads k f' view') {count : α → Nat}
    (hcount : ∀ a, (view a).bind Value.word? = some (count a)) :
    g.Reads i (.counted count f f') view' := by
  refine .of_node he (hl.toTypes.lengthValue he hv.toTypes) ?_
  intro input first last step hfirst hlast hsize hs
  rw [Scan.counted_apply]
  obtain ⟨fail, hfail, rfl⟩ | ⟨ml, hml, hs⟩ := Rule.yields_lengthValue.1 hs
  · rw [hl.eq_none hfirst hlast hsize (Rule.yields_child.1 hfail)]
    exact ⟨_, rfl⟩
  · obtain ⟨a, mid, rfl, hmid, hmid', ha⟩ :=
      hl.eq_some hfirst hlast hsize (Rule.yields_child.1 hml)
    rw [ha, Option.bind_some]
    dsimp only
    rw [Input.length_slice hlast, Input.drop_slice]
    rw [windowEnd?_atByte (hcount a) (by omega)] at hs
    by_cases hfit : mid + count a ≤ last
    · rw [if_pos (by omega), Input.take_slice hfit]
      rw [if_pos hfit] at hs
      obtain ⟨hnone, -⟩ | ⟨stop, hstop, hs⟩ := hs
      · cases hnone
      · obtain rfl := Option.some.inj hstop
        have hlast' : mid + count a ≤ input.bytes.size := Nat.le_trans hfit hlast
        obtain ⟨fail, hfail, rfl⟩ | ⟨mv, hmv, hmatch⟩ := hs
        · rw [hv.eq_none (Nat.le_add_right ..) hlast' hsize (Rule.yields_childWithin.1 hfail)]
          exact ⟨_, rfl⟩
        · obtain ⟨b, stop, rfl, hstop, hstop', hb⟩ :=
            hv.eq_some (Nat.le_add_right ..) hlast' hsize (Rule.yields_childWithin.1 hmv)
          rw [hb]
          have hempty : input.slice stop (mid + count a) = [] ↔ stop = mid + count a := by
            rw [← List.length_eq_zero_iff, Input.length_slice hlast']
            omega
          obtain ⟨heq, rfl⟩ | ⟨hne, rfl⟩ := hmatch
          · have hstop : stop = mid + count a := congrArg Cursor.byte heq
            subst hstop
            rw [hempty.2 rfl]
            exact ⟨mid + count a, by omega, hfit, rfl, rfl⟩
          · have hne : stop ≠ mid + count a := fun h => hne (congrArg Cursor.atByte h)
            cases hleft : input.slice stop (mid + count a) with
            | nil => exact absurd (hempty.1 hleft) hne
            | cons _ _ => exact ⟨_, rfl⟩
    · rw [if_neg (by omega)]
      rw [if_neg hfit] at hs
      obtain ⟨-, rfl⟩ | ⟨stop, hstop, -⟩ := hs
      · exact ⟨_, rfl⟩
      · cases hstop

theorem Reads.action {make : Value υ → Except CallbackError (Value υ)}
    (he : g.entries[i]? = some (.node (.action j (.ofFunction make)))) (h : g.Reads j f view)
    {made : α → Value υ} (hmake : ∀ a, make ((view a).getD .none) = .ok (made a)) :
    g.Reads i f fun a => some (made a) := by
  refine .of_node he (h.toTypes.action he hmake)
    fun {input first last step} hfirst hlast hsize hs => ?_
  obtain ⟨fail, hfail, rfl⟩ | ⟨m, hm, hanswer⟩ := Rule.yields_action.1 hs
  · rw [h.eq_none hfirst hlast hsize (Rule.yields_child.1 hfail)]
    exact ⟨_, rfl⟩
  · obtain ⟨a, mid, rfl, hmid, hmid', ha⟩ :=
      h.eq_some hfirst hlast hsize (Rule.yields_child.1 hm)
    obtain ⟨e, ⟨_, he⟩, -⟩ | ⟨v, ⟨_, hv⟩, rfl⟩ := hanswer
    · cases (hmake a).symm.trans he
    · obtain rfl := Except.ok.inj ((hmake a).symm.trans hv)
      rw [ha]
      exact ⟨mid, hmid, hmid', rfl, rfl⟩

/-! ## Runs -/

/-- **A run reads what the scan of its input reads**, whatever the settings. -/
theorem Reads.run_of_eq_some {root : Handle} (h : g.Reads root.index f view)
    (hpure : g.PureCallbacks) (hroot : g.Owns root) (input : Input)
    (hsize : 8 * input.bytes.size < wordBound) {a : α} {rest : List UInt8}
    (hscan : f input.bytes.toList = some (a, rest)) (config : Config) (host : σ) :
    ∃ report, g.run config root input host = .ok report ∧
      report.result = .ok ⟨.atByte (input.bytes.size - rest.length), (view a).getD .none⟩ := by
  have hwhole : input.slice 0 input.bytes.size = input.bytes.toList :=
    Input.slice_eq_drop_take.trans (List.take_of_length_le (Nat.le_of_eq Array.length_toList))
  obtain ⟨step, hs, hrun⟩ := run_sane hpure hroot h.sane input host
  obtain ⟨report, hreport, hresult, -⟩ := hrun config
  refine ⟨report, hreport, hresult.trans ?_⟩
  obtain ⟨fail, -, hf⟩ | ⟨a', mid, rfl, -, hmid, hf⟩ :=
    h.cases (Nat.zero_le _) (Nat.le_refl _) hsize hs
  · rw [hwhole, hscan] at hf
    cases hf
  · rw [hwhole, hscan] at hf
    obtain ⟨rfl, rfl⟩ := Prod.mk.inj (Option.some.inj hf)
    rw [Input.length_slice (Nat.le_refl _), Nat.sub_sub_self hmid]
    rfl

end Grammar

end Packrat
