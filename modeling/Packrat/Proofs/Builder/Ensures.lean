import Mathlib.Data.List.Forall2
import Packrat.Proofs.Builder.Calls
import Packrat.Proofs.Semantics.Settles

/-!
# Proofs/Builder/Ensures — what a build ensures of the grammar

A build that succeeds ends in a grammar that has everything it asked for. `Build.Ensures g c P` says
that what the computation `c` gives satisfies `P`, provided that its builder goes on to be part of
`g`: so `P` may speak of the grammar that is not finished yet. `Ensures.bind` keeps what was ensured
as an assumption, and a build is gone through from its first call to its last with one rule a call.

The builds here make no placeholders, and call pure callbacks only (`Builder.Flat`).
-/

namespace Packrat

variable {υ σ α β : Type}

/-! ## Builders and grammars -/

/-- The grammar has the number and the entries of the builder. -/
structure Builder.Embeds (b : Builder υ σ) (g : Grammar υ σ) : Prop where
  owner : b.id = g.id
  entry : ∀ {i : Nat} {e}, b.entries[i]? = some e → g.entries[i]? = some e

theorem Builder.embeds_of_finish {b : Builder υ σ} {g : Grammar υ σ} (h : b.finish = .ok g) :
    b.Embeds g := by
  obtain ⟨hid, hentries, -⟩ := finish_eq_ok h
  exact ⟨hid.symm, fun he => hentries ▸ he⟩

/-- A grammar that has a builder's entries has those of an earlier one. -/
theorem Builder.Extends.embeds {b b' : Builder υ σ} {g : Grammar υ σ} (h : b.Extends b')
    (hg : b'.Embeds g) : b.Embeds g :=
  ⟨h.owner.symm.trans hg.owner, fun he => hg.entry (h.entry he)⟩

/-- There are no placeholders, and all callbacks are pure. -/
structure Builder.Flat (b : Builder υ σ) : Prop where
  targets : b.targets = #[]
  node : ∀ {i : Nat} {e}, b.entries[i]? = some e →
    ∃ n : Node Nat υ σ, e = .node n ∧ n.Calls fun _ f => f.IsPure

theorem Builder.flat_new (id : Nat) : (new id : Builder υ σ).Flat :=
  ⟨rfl, fun he => by simp [new] at he⟩

/-- A flat builder can be finished. -/
theorem Builder.Flat.exists_finish {b : Builder υ σ} (h : b.Flat) : ∃ g, b.finish = .ok g :=
  Builder.exists_finish fun o ho => by simp [h.targets] at ho

/-- The callbacks of the finished grammar are pure. -/
theorem Builder.Flat.pureCallbacks {b : Builder υ σ} {g : Grammar υ σ} (h : b.Flat)
    (hg : b.finish = .ok g) : g.PureCallbacks := by
  intro i n he
  obtain ⟨-, hentries, -⟩ := finish_eq_ok hg
  rw [hentries] at he
  obtain ⟨n', hn, hpure⟩ := h.node he
  obtain rfl := Entry.node.inj hn
  exact hpure

/-- The handle names the combinator in the grammar. -/
def Grammar.Has (g : Grammar υ σ) (h : Handle) (request : Node Handle υ σ) : Prop :=
  h.owner = g.id ∧ g.entries[h.index]? = some (.node (request.map Handle.index))

theorem Grammar.Has.owns {g : Grammar υ σ} {h : Handle} {request : Node Handle υ σ}
    (hhas : g.Has h request) : g.Owns h :=
  ⟨hhas.1, (Array.getElem?_eq_some_iff.1 hhas.2).1⟩

namespace Build

/-! ## What is ensured -/

/-- If the computation succeeds on the way to the grammar, then what it gives satisfies `P`. -/
structure Ensures (g : Grammar υ σ) (c : Build υ σ α) (P : α → Prop) : Prop where
  flat : ∀ b : Builder υ σ, b.Flat → (c.run.run b).2.Flat
  embeds : ∀ b : Builder υ σ, (c.run.run b).2.Embeds g → b.Embeds g
  gives : ∀ (b : Builder υ σ) a, (c.run.run b).2.Embeds g → (c.run.run b).1 = .ok a → P a

variable {g : Grammar υ σ} {c : Build υ σ α} {P : α → Prop}

theorem Ensures.imp {Q : α → Prop} (h : Ensures g c P) (hPQ : ∀ a, P a → Q a) : Ensures g c Q :=
  ⟨h.flat, h.embeds, fun b a hg ha => hPQ a (h.gives b a hg ha)⟩

theorem ensures_pure {a : α} (h : P a) : Ensures g (pure a) P :=
  ⟨fun _ hb => hb, fun _ hg => hg, fun _ _ _ ha => Except.ok.inj ha ▸ h⟩

/-- What was ensured may be assumed afterwards. -/
theorem Ensures.bind {f : α → Build υ σ β} {Q : β → Prop} (hc : Ensures g c P)
    (hf : ∀ a, Ensures g (f a) fun r => P a → Q r) : Ensures g (c >>= f) Q := by
  constructor
  · intro b hb
    rw [run_bind]
    have hflat := hc.flat b hb
    revert hflat
    rcases c.run.run b with ⟨e | a, b'⟩
    · exact id
    · exact (hf a).flat b'
  · intro b hg
    refine hc.embeds b ?_
    rw [run_bind] at hg
    revert hg
    rcases c.run.run b with ⟨e | a, b'⟩
    · exact id
    · exact (hf a).embeds b'
  · intro b r hg hr
    rw [run_bind] at hg hr
    have hgives := hc.gives b
    revert hg hr hgives
    rcases c.run.run b with ⟨e | a, b'⟩
    · exact fun _ hr => nomatch hr
    · exact fun hg hr hgives =>
        (hf a).gives b' r hg hr (hgives a ((hf a).embeds b' hg) rfl)

/-- A combinator that is added is in the grammar. -/
theorem ensures_add {request : Node Handle υ σ}
    (hpure : (request.map Handle.index).Calls fun _ f => f.IsPure) :
    Ensures g (add request) (g.Has · request) := by
  have hcases : ∀ b : Builder υ σ, (∃ e, (add request).run.run b = (.error e, b)) ∨
      ∃ h, (add request).run.run b
        = (.ok (b.handle b.size), b.append (request.map Handle.index) h) := by
    intro b
    obtain ⟨-, haccept⟩ | ⟨-, e, haccept⟩ := Builder.checks_accept b request
    · by_cases howns : ∀ c ∈ request.children, b.Owns c
      · exact .inr ⟨_, Builder.run_add_of_owns haccept howns⟩
      · exact .inl (Builder.run_add_of_not_owns haccept howns)
    · exact .inl ⟨e, by rw [add, run_bind, haccept]⟩
  constructor
  · intro b hb
    obtain ⟨e, hrun⟩ | ⟨h, hrun⟩ := hcases b
    · rw [hrun]
      exact hb
    · rw [hrun]
      refine ⟨hb.targets, fun {i e} he => ?_⟩
      rw [Builder.append, Array.getElem?_push] at he
      split at he
      · exact ⟨_, (Option.some.inj he).symm, hpure⟩
      · exact hb.node he
  · intro b hg
    obtain ⟨e, hrun⟩ | ⟨h, hrun⟩ := hcases b
    · rwa [hrun] at hg
    · rw [hrun] at hg
      exact (Builder.extends_append h).embeds hg
  · intro b a hg ha
    obtain ⟨e, hrun⟩ | ⟨h, hrun⟩ := hcases b
    · rw [hrun] at ha
      cases ha
    · rw [hrun] at hg ha
      obtain rfl := Except.ok.inj ha
      exact ⟨hg.owner, hg.entry (Builder.getElem?_append_size h)⟩

/-- The first call of a build. -/
theorem Ensures.add {request : Node Handle υ σ} {f : Handle → Build υ σ β} {Q : β → Prop}
    (hpure : (request.map Handle.index).Calls fun _ f => f.IsPure)
    (hf : ∀ h, Ensures g (f h) fun r => g.Has h request → Q r) :
    Ensures g (Build.add request >>= f) Q :=
  (ensures_add hpure).bind hf

theorem ensures_mapM {f : α → Build υ σ β} {R : α → β → Prop} {as : List α}
    (hf : ∀ a ∈ as, Ensures g (f a) (R a)) : Ensures g (as.mapM f) (List.Forall₂ R as) := by
  induction as with
  | nil => exact ensures_pure .nil
  | cons a as ih =>
    rw [List.mapM_cons]
    refine (hf a List.mem_cons_self).bind fun b => ?_
    refine (ih fun a ha => hf a (List.mem_cons_of_mem _ ha)).bind fun bs => ?_
    exact ensures_pure fun hbs hb => .cons hb hbs

/-- A build from nothing that succeeds can be finished, and the grammar has what was ensured. -/
theorem Ensures.finish {c : Build υ σ α} {P : Grammar υ σ → α → Prop}
    (h : ∀ g, Ensures g c (P g)) {id : Nat} {a : α} (hc : (c.run.run (.new id)).1 = .ok a) :
    ∃ g, (c.run.run (.new id)).2.finish = .ok g ∧ P g a ∧ g.PureCallbacks := by
  -- that the builder stays flat does not depend on the grammar
  obtain ⟨empty, -⟩ := (Builder.flat_new id : Builder.Flat (υ := υ) (σ := σ) _).exists_finish
  have hflat := (h empty).flat _ (Builder.flat_new id)
  obtain ⟨g, hg⟩ := hflat.exists_finish
  exact ⟨g, hg, (h g).gives _ a (Builder.embeds_of_finish hg) hc, hflat.pureCallbacks hg⟩

end Build

end Packrat
