import Mathlib.Data.List.Forall2

/-!
# Proofs/Answers — asking for each of a list

A function that may refuse is asked for each item of a list in turn. All answers together are those
to the items (`mapM_eq_ok`), which there are if there is one to each (`exists_forall₂`), and the
first refusal is that of the whole (`mapM_eq_error`).
-/

namespace Packrat

variable {α β ε : Type} {f : α → Except ε β} {as : List α}

/-- There are answers to all just if there is one to each. -/
theorem exists_forall₂ {R : α → β → Prop} :
    (∃ bs, List.Forall₂ R as bs) ↔ ∀ a ∈ as, ∃ b, R a b := by
  induction as with
  | nil => simp
  | cons a as ih =>
    rw [List.forall_mem_cons, ← ih]
    constructor
    · rintro ⟨bs, hbs⟩
      cases hbs with
      | cons h hrest => exact ⟨⟨_, h⟩, _, hrest⟩
    · rintro ⟨⟨b, h⟩, bs, hrest⟩
      exact ⟨b :: bs, .cons h hrest⟩

theorem mapM_eq_ok {bs : List β} :
    as.mapM f = .ok bs ↔ List.Forall₂ (fun a b => f a = .ok b) as bs := by
  induction as generalizing bs with
  | nil => cases bs <;> simp [pure, Except.pure]
  | cons a as ih =>
    rw [List.mapM_cons, List.forall₂_cons_left_iff]
    cases hf : f a with
    | error e => simp [bind, Except.bind]
    | ok b =>
      cases hrest : as.mapM f with
      | error e => simp [bind, Except.bind, ← ih, hrest]
      | ok rest => simp [bind, Except.bind, pure, Except.pure, ← ih, hrest, eq_comm]

/-- The first error is that of the whole. -/
theorem mapM_eq_error {e : ε} :
    as.mapM f = .error e ↔ ∃ before a after, as = before ++ a :: after
      ∧ (∀ x ∈ before, ∃ b, f x = .ok b) ∧ f a = .error e := by
  constructor
  · intro h
    induction as with
    | nil => cases h
    | cons a as ih =>
      rw [List.mapM_cons] at h
      cases hf : f a with
      | error e' =>
        rw [hf] at h
        cases h
        exact ⟨[], a, as, rfl, List.forall_mem_nil _, hf⟩
      | ok b =>
        rw [hf] at h
        cases hrest : as.mapM f with
        | error e' =>
          obtain ⟨before, a', after, rfl, hbefore, ha'⟩ := ih (by rw [hrest] at h ⊢; cases h; rfl)
          exact ⟨a :: before, a', after, rfl, List.forall_mem_cons.2 ⟨⟨b, hf⟩, hbefore⟩, ha'⟩
        | ok rest =>
          rw [hrest] at h
          cases h
  · rintro ⟨before, a, after, rfl, hbefore, ha⟩
    induction before with
    | nil =>
      rw [List.nil_append, List.mapM_cons, ha]
      rfl
    | cons x before ih =>
      obtain ⟨⟨b, hb⟩, hbefore⟩ := List.forall_mem_cons.1 hbefore
      rw [List.cons_append, List.mapM_cons, hb, ih hbefore]
      rfl

end Packrat
