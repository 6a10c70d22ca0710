import Packrat.Proofs.Plan.Outcomes

/-!
# Proofs/Plan/Carriers — where a combinator's value comes from

`Node.carriers` names the children that a combinator's value may come from. It is right about
integers: where the matches of those children carry integers, so do the matches of the combinator,
whatever its other children and its callback do (`Node.integer_of_carriers`).
-/

namespace Packrat

variable {υ σ : Type}

/-- The match carries an integer. -/
def Match.IsInteger (m : Match υ) : Prop := ∃ n, m.value = some (.integer n)

/-- Every match of the entry carries an integer. -/
def Outcomes.Integral (R : Outcomes υ) (index : Nat) : Prop :=
  ∀ start limit m, R index start limit (.ok m) → m.IsInteger

variable {R : Outcomes υ} {input : Input} {limit start : Cursor} {m : Match υ}

namespace Rule

/-- A byte that is read is an integer. -/
theorem integer_of_byteIf {accepts : UInt8 → Bool}
    (h : (byteIf input accepts start : Plan υ σ (Step υ)).Yields R limit (.ok m)) :
    m.IsInteger := by
  obtain ⟨-, hm⟩ | ⟨b, -, -, hm⟩ := yields_byteIf.1 h
  · cases hm
  · cases hm
    exact ⟨_, rfl⟩

/-- The alternative that matches is one of them. -/
theorem integer_of_choiceFrom (hR : R.Calm) {alternatives : List Nat} {best : Option Fail}
    (hs : ∀ c ∈ alternatives, R.Integral c)
    (h : (choiceFrom start (alternatives.map child) best : Plan υ σ (Step υ)).Yields R limit
      (.ok m)) : m.IsInteger := by
  induction alternatives generalizing best with
  | nil => cases h
  | cons alternative alternatives ih =>
    rw [List.map_cons, yields_choiceFrom_cons (calm_child hR alternative)] at h
    obtain ⟨f, -, hrest⟩ | ⟨m', hm', hm⟩ := h
    · exact ih (fun c hc => hs c (List.mem_cons_of_mem _ hc)) hrest
    · cases hm
      exact hs alternative List.mem_cons_self _ _ _ (yields_child.1 hm')

end Rule

open Rule

/-- **A combinator's matches carry integers if those do that its value may come from.** -/
theorem Node.integer_of_carriers {node : Node Nat υ σ} {sources : List Nat}
    (h : node.carriers = some sources) (hR : R.Calm) (hs : ∀ c ∈ sources, R.Integral c)
    (hm : (node.rule input start).Yields R limit (.ok m)) : m.IsInteger := by
  cases node with
  | byte b => exact integer_of_byteIf hm
  | byteRange low high => exact integer_of_byteIf hm
  | byteIn set => exact integer_of_byteIf hm
  | bits width signed =>
    obtain ⟨-, hm⟩ | ⟨raw, stop, -, hm⟩ := yields_bits.1 hm
    · cases hm
    · cases hm
      exact ⟨_, rfl⟩
  | intRange base low high =>
    obtain ⟨f, -, hm⟩ | ⟨m, -, ⟨⟨n, hn, -⟩, hm⟩ | ⟨-, hm⟩⟩ := yields_intRange.1 hm
    · cases hm
    · cases hm
      exact ⟨n, value_bind_integer?.1 hn⟩
    · cases hm
  | whitespace p =>
    cases h
    obtain ⟨f, -, hm⟩ | ⟨m, hp, hm⟩ := yields_whitespace.1 hm
    · cases hm
    · cases hm
      exact hs p List.mem_cons_self _ _ _ (yields_child.1 hp)
  | left a b =>
    cases h
    obtain ⟨f, -, hm⟩ | ⟨ma, ha, ⟨f, -, hm⟩ | ⟨mb, -, hm⟩⟩ := yields_left.1 hm
    · cases hm
    · cases hm
    · cases hm
      obtain ⟨n, hn⟩ := hs a List.mem_cons_self _ _ _ (yields_child.1 ha)
      exact ⟨n, hn⟩
  | right a b =>
    cases h
    obtain ⟨f, -, hm⟩ | ⟨ma, -, ⟨f, -, hm⟩ | ⟨mb, hb, hm⟩⟩ := yields_right.1 hm
    · cases hm
    · cases hm
    · cases hm
      exact hs b List.mem_cons_self _ _ _ (yields_child.1 hb)
  | middle a b c =>
    cases h
    obtain ⟨f, -, hm⟩ | ⟨ma, -, ⟨f, -, hm⟩ | ⟨mb, hb, ⟨f, -, hm⟩ | ⟨mc, -, hm⟩⟩⟩ :=
      yields_middle.1 hm
    · cases hm
    · cases hm
    · cases hm
    · cases hm
      obtain ⟨n, hn⟩ := hs b List.mem_cons_self _ _ _ (yields_child.1 hb)
      exact ⟨n, hn⟩
  | choice alternatives =>
    cases h
    exact integer_of_choiceFrom hR hs hm
  | butnot a b =>
    cases h
    obtain ⟨f, -, hm⟩ | ⟨ma, ha, ⟨f, -, hm⟩ | ⟨mb, -, ⟨-, hm⟩ | ⟨-, hm⟩⟩⟩ :=
      (yields_butnot (calm_child hR b)).1 hm
    · cases hm
    · cases hm
      exact hs a List.mem_cons_self _ _ _ (yields_child.1 ha)
    · cases hm
    · cases hm
      exact hs a List.mem_cons_self _ _ _ (yields_child.1 ha)
  | difference a b =>
    cases h
    obtain ⟨f, -, hm⟩ | ⟨ma, ha, ⟨f, -, hm⟩ | ⟨mb, -, hm⟩⟩ :=
      (yields_difference (calm_child hR b)).1 hm
    · cases hm
    · cases hm
      exact hs a List.mem_cons_self _ _ _ (yields_child.1 ha)
    · cases hm
  | xor a b =>
    cases h
    obtain ⟨f, -, ⟨f', -, hm⟩ | ⟨mb, hb, hm⟩⟩ | ⟨ma, ha, ⟨f, -, hm⟩ | ⟨mb, -, hm⟩⟩ :=
      (yields_xor (calm_child hR a) (calm_child hR b)).1 hm
    · cases hm
    · cases hm
      exact hs b (List.mem_cons_of_mem _ List.mem_cons_self) _ _ _ (yields_child.1 hb)
    · cases hm
      exact hs a List.mem_cons_self _ _ _ (yields_child.1 ha)
    · cases hm
  | lengthValue length value =>
    cases h
    obtain ⟨f, -, hm⟩ | ⟨ml, -, ⟨-, hm⟩ | ⟨stop, -, ⟨f, -, hm⟩ | ⟨mv, hv, ⟨-, hm⟩ | ⟨-, hm⟩⟩⟩⟩ :=
      yields_lengthValue.1 hm
    · cases hm
    · cases hm
    · cases hm
    · cases hm
      exact hs value List.mem_cons_self _ _ _ (yields_childWithin.1 hv)
    · cases hm
  | satisfying p accepts =>
    cases h
    obtain ⟨f, -, hm⟩ | ⟨m, hp, ⟨e, -, hm⟩ | ⟨-, hm⟩ | ⟨-, hm⟩⟩ := yields_satisfying.1 hm
    · cases hm
    · cases hm
    · cases hm
      exact hs p List.mem_cons_self _ _ _ (yields_child.1 hp)
    · cases hm
  | _ => cases h

end Packrat
