import Mathlib.Logic.Function.Basic
import Packrat.Proofs.Builder.Calls
import Packrat.Proofs.Engine.Lookups

/-!
# Proofs/Builder/Representation — what every builder is like

Several builders may be at work at once, and a call on one may be given handles of any other
(`Builders.performAll`). Whatever is called, in whatever order, each builder stays *consistent*
(`Builder.Consistent`): children stand before their parent, arguments are acceptable, placeholders
have slots of their own, and targets are entries. And its entries and targets have an origin
(`Builders.Origin`): each was asked for by a call on this very builder, with handles of this builder
only.

Main statement: `representation`, which carries this on to runs of the finished grammar.
-/

namespace Packrat

variable {ι υ σ : Type}

/-! ## Consistent builders -/

/-- The arguments of a combinator are in order. -/
def Node.Proper {ρ : Type} : Node ρ υ σ → Prop
  | byteRange low high => low ≤ high
  | intRange _ low high => low ≤ high
  | bits width _ => 1 ≤ width ∧ width ≤ 64
  | sequence parts | choice parts => parts ≠ []
  | _ => True

theorem Node.proper_map {ρ ρ' : Type} (f : ρ → ρ') {node : Node ρ υ σ} (h : node.Proper) :
    (node.map f).Proper := by
  cases node with
  | sequence parts => exact fun hnil => h (List.map_eq_nil_iff.1 hnil)
  | choice parts => exact fun hnil => h (List.map_eq_nil_iff.1 hnil)
  | _ => exact h

namespace Builder

variable {b b' : Builder υ σ}

/-- What is acceptable to a builder is in order. -/
theorem Accepts.proper {request : Node Handle υ σ} (h : b.Accepts request) : request.Proper := by
  cases request with
  | byteRange low high => exact UInt8.not_lt.1 h
  | intRange base low high => exact Int.not_lt.1 h.2.1
  | bits width signed => exact ⟨Nat.pos_of_ne_zero h.1, Nat.not_lt.1 h.2⟩
  | sequence parts => exact h
  | choice parts => exact h
  | _ => trivial

/-- Entries refer to earlier entries, with arguments that are in order; placeholders have slots of
their own; targets are entries. -/
structure Consistent (b : Builder υ σ) : Prop where
  child_lt : ∀ {i : Nat} {n}, b.entries[i]? = some (.node n) → ∀ c ∈ n.children, c < i
  proper : ∀ {i : Nat} {n}, b.entries[i]? = some (.node n) → n.Proper
  slot_lt : ∀ {i : Nat} {slot}, b.entries[i]? = some (.indirect slot) →
    slot.index < b.targets.size
  slot_inj : ∀ {i j : Nat} {slot}, b.entries[i]? = some (.indirect slot) →
    b.entries[j]? = some (.indirect slot) → i = j
  target_lt : ∀ {s t : Nat}, b.targets[s]? = some (some t) → t < b.entries.size

/-- Three of the five are kept by the type of builders. -/
theorem Consistent.of (hproper : ∀ {i : Nat} {n}, b.entries[i]? = some (.node n) → n.Proper)
    (hslot : ∀ {i j : Nat} {slot}, b.entries[i]? = some (.indirect slot) →
      b.entries[j]? = some (.indirect slot) → i = j) : b.Consistent :=
  ⟨child_lt_of_getElem?, hproper, slot_lt_of_getElem?, hslot,
    fun h => b.target_lt _ (Array.mem_of_getElem? h)⟩

theorem consistent_new (id : Nat) : (new id : Builder υ σ).Consistent :=
  .of (fun h => by simp [new] at h) fun h => by simp [new] at h

/-- An entry behind a new one is an old one or the new one. -/
theorem getElem?_push_cases {α : Type} {xs : Array α} {x a : α} {i : Nat}
    (h : (xs.push x)[i]? = some a) : xs[i]? = some a ∨ i = xs.size ∧ a = x := by
  rw [Array.getElem?_push] at h
  split at h
  · next hi => exact .inr ⟨hi, (Option.some.inj h).symm⟩
  · exact .inl h

theorem Consistent.append (hb : b.Consistent) {node : Node Nat υ σ}
    (h : ∀ c ∈ node.children, c < b.entries.size) (hproper : node.Proper) :
    (b.append node h).Consistent := by
  refine .of (fun he => ?_) fun he he' => ?_
  · obtain he | ⟨-, he⟩ := getElem?_push_cases he
    · exact hb.proper he
    · cases he
      exact hproper
  · obtain he | ⟨-, he⟩ := getElem?_push_cases he
    · obtain he' | ⟨-, he'⟩ := getElem?_push_cases he'
      · exact hb.slot_inj he he'
      · cases he'
    · cases he

/-- The new slot is behind all slots that placeholders have. -/
theorem Consistent.appendPlaceholder (hb : b.Consistent) : b.appendPlaceholder.Consistent := by
  refine .of (fun he => ?_) fun he he' => ?_
  · obtain he | ⟨-, he⟩ := getElem?_push_cases he
    · exact hb.proper he
    · cases he
  · obtain he | ⟨hi, he⟩ := getElem?_push_cases he
    · obtain he' | ⟨-, he'⟩ := getElem?_push_cases he'
      · exact hb.slot_inj he he'
      · obtain rfl := Entry.indirect.inj he'
        exact absurd (hb.slot_lt he) (Nat.lt_irrefl _)
    · obtain he' | ⟨hj, -⟩ := getElem?_push_cases he'
      · obtain rfl := Entry.indirect.inj he
        exact absurd (hb.slot_lt he') (Nat.lt_irrefl _)
      · rw [hi, hj]

/-- **A call keeps a builder consistent**, whatever comes of it. -/
theorem Performs.consistent {call : Call υ σ} {answer : Except GrammarError Call.Answer}
    (h : b.Performs call answer b') (hb : b.Consistent) : b'.Consistent := by
  cases h with
  | added haccepts howns => exact hb.append _ (Node.proper_map _ haccepts.proper)
  | placed => exact hb.appendPlaceholder
  | bound => exact .of hb.proper hb.slot_inj
  | _ => exact hb

end Builder

/-! ## Several builders -/

/-- A call on one of several builders, and the answer. -/
structure Job (ι υ σ : Type) where
  builder : ι
  call : Call υ σ
  answer : Except GrammarError Call.Answer

namespace Builders

/-- Builders with nothing in them, by their numbers. -/
def new (number : ι → Nat) : ι → Builder υ σ := fun k => .new (number k)

/-- Performs calls on several builders one after the other: the jobs that were done, and the
builders after the last. -/
def performAll [DecidableEq ι] (builders : ι → Builder υ σ) :
    List (ι × Call υ σ) → List (Job ι υ σ) × (ι → Builder υ σ)
  | [] => ([], builders)
  | (k, call) :: calls =>
    let (answer, b) := (builders k).perform call
    let (jobs, builders) := performAll (Function.update builders k b) calls
    (⟨k, call, answer⟩ :: jobs, builders)

/-- Every entry and every target of the `k`-th builder was asked for by a job on it. The children
of a combinator were given as handles of this builder, of entries that were there by then, and so
was the target of a slot. -/
structure Origin (k : ι) (b : Builder υ σ) (jobs : List (Job ι υ σ)) : Prop where
  node : ∀ {i : Nat} {n}, b.entries[i]? = some (.node n) → ∃ request : Node Handle υ σ,
    n = request.map Handle.index ∧ ⟨k, .add request, .ok (.made (b.handle i))⟩ ∈ jobs
      ∧ ∀ c ∈ request.children, c.owner = b.id ∧ c.index < i
  placeholder : ∀ {i : Nat} {slot}, b.entries[i]? = some (.indirect slot) →
    ⟨k, .indirect, .ok (.made (b.handle i))⟩ ∈ jobs
  target : ∀ {s t : Nat}, b.targets[s]? = some (some t) → ∃ placeholder,
    b.slotOf? placeholder = some ⟨s⟩ ∧ ⟨k, .bind placeholder (b.handle t), .ok .bound⟩ ∈ jobs

variable {k : ι} {b b' : Builder υ σ} {jobs : List (Job ι υ σ)}

theorem origin_new (k : ι) (id : Nat) (jobs : List (Job ι υ σ)) :
    Origin k (.new id : Builder υ σ) jobs :=
  ⟨fun h => by simp [Builder.new] at h, fun h => by simp [Builder.new] at h,
    fun h => by simp [Builder.new] at h⟩

theorem Origin.more (h : Origin k b jobs) (job : Job ι υ σ) : Origin k b (jobs ++ [job]) where
  node he := by
    obtain ⟨request, hn, hjob, hchildren⟩ := h.node he
    exact ⟨request, hn, List.mem_append_left _ hjob, hchildren⟩
  placeholder he := List.mem_append_left _ (h.placeholder he)
  target ht := by
    obtain ⟨placeholder, hslot, hjob⟩ := h.target ht
    exact ⟨placeholder, hslot, List.mem_append_left _ hjob⟩

/-- A placeholder stays one while the builder grows. -/
theorem slotOf?_of_extends (h : b.Extends b') {placeholder : Handle} {slot : Slot}
    (hslot : b.slotOf? placeholder = some slot) : b'.slotOf? placeholder = some slot :=
  (h.slotOf?_eq (Builder.slotOf?_eq_some.1 hslot).1).trans hslot

/-- A target keeps its origin while the builder grows. -/
theorem Origin.target_of_extends (h : Origin k b jobs) (hext : b.Extends b') {s t : Nat}
    (ht : b.targets[s]? = some (some t)) : ∃ placeholder, b'.slotOf? placeholder = some ⟨s⟩
      ∧ ⟨k, .bind placeholder (b'.handle t), .ok .bound⟩ ∈ jobs := by
  obtain ⟨placeholder, hslot, hjob⟩ := h.target ht
  rw [Builder.handle, hext.owner]
  exact ⟨placeholder, slotOf?_of_extends hext hslot, hjob⟩

/-- A call gives what is new an origin, and leaves the rest its own. -/
theorem Origin.perform (h : Origin k b jobs) {call : Call υ σ}
    {answer : Except GrammarError Call.Answer} (hperforms : b.Performs call answer b') :
    Origin k b' (jobs ++ [⟨k, call, answer⟩]) := by
  have hmore := h.more ⟨k, call, answer⟩
  have hext := hperforms.extends
  have hnew : (⟨k, call, answer⟩ : Job ι υ σ) ∈ jobs ++ [⟨k, call, answer⟩] :=
    List.mem_concat_self
  cases hperforms with
  | @added request haccepts howns =>
    refine ⟨fun he => ?_, fun he => ?_, hmore.target_of_extends hext⟩
    · obtain he | ⟨rfl, hn⟩ := Builder.getElem?_push_cases he
      · exact hmore.node he
      · exact ⟨request, Entry.node.inj hn, hnew, howns⟩
    · obtain he | ⟨-, he⟩ := Builder.getElem?_push_cases he
      · exact hmore.placeholder he
      · cases he
  | placed =>
    refine ⟨fun he => ?_, fun he => ?_, fun ht => ?_⟩
    · obtain he | ⟨-, he⟩ := Builder.getElem?_push_cases he
      · exact hmore.node he
      · cases he
    · obtain he | ⟨rfl, -⟩ := Builder.getElem?_push_cases he
      · exact hmore.placeholder he
      · exact hnew
    · obtain ht | ⟨-, ht⟩ := Builder.getElem?_push_cases ht
      · exact hmore.target_of_extends hext ht
      · cases ht
  | @bound placeholder target slot howns hslot htarget hfree =>
    refine ⟨hmore.node, hmore.placeholder, fun {s t} ht => ?_⟩
    rw [Builder.bind, Array.getElem?_setIfInBounds] at ht
    split at ht
    · next hs =>
      obtain ⟨-, ht⟩ := (Option.ite_none_right_eq_some ..).1 ht
      obtain rfl := Option.some.inj (Option.some.inj ht)
      obtain rfl := hs
      refine ⟨placeholder, slotOf?_of_extends hext hslot, ?_⟩
      rw [show (b.bind slot target.index htarget.2).handle target.index = target from
        congrArg (Handle.mk · target.index) htarget.1.symm]
      exact hnew
    · exact hmore.target_of_extends hext ht
  | _ => exact hmore

/-- What holds of every builder at any time: it has its number, is consistent, and all that is in it
has an origin. -/
def Sound (number : ι → Nat) (builders : ι → Builder υ σ) (jobs : List (Job ι υ σ)) : Prop :=
  ∀ k, (builders k).id = number k ∧ (builders k).Consistent ∧ Origin k (builders k) jobs

theorem sound_new (number : ι → Nat) : Sound number (new number : ι → Builder υ σ) [] :=
  fun k => ⟨rfl, Builder.consistent_new _, origin_new k _ _⟩

variable [DecidableEq ι] {number : ι → Nat} {builders : ι → Builder υ σ}

/-- A call on one builder leaves the others alone. -/
theorem Sound.perform (h : Sound number builders jobs) {call : Call υ σ}
    {answer : Except GrammarError Call.Answer} (hperforms : (builders k).Performs call answer b') :
    Sound number (Function.update builders k b') (jobs ++ [⟨k, call, answer⟩]) := by
  intro j
  obtain ⟨hid, hconsistent, horigin⟩ := h j
  by_cases hj : j = k
  · subst hj
    rw [Function.update_self]
    exact ⟨hperforms.extends.owner.trans hid, hperforms.consistent hconsistent,
      horigin.perform hperforms⟩
  · rw [Function.update_of_ne hj]
    exact ⟨hid, hconsistent, horigin.more _⟩

theorem Sound.performAll (h : Sound number builders jobs) (calls : List (ι × Call υ σ)) :
    Sound number (performAll builders calls).2 (jobs ++ (performAll builders calls).1) := by
  induction calls generalizing builders jobs with
  | nil => rwa [Builders.performAll, List.append_nil]
  | cons first calls ih =>
    obtain ⟨k, call⟩ := first
    have := ih (h.perform ((builders k).performs call))
    rwa [List.append_assoc] at this

/-- **Every builder is in order, whatever was called on it and on others.** Its entries refer to
earlier entries of its own, its arguments are in order, its placeholders have slots of their own and
its targets are entries of its own; and a grammar that it is finished to never misses a look-up. -/
theorem representation (hnumber : Function.Injective number) (calls : List (ι × Call υ σ))
    (k : ι) :
    let done := performAll (new number) calls
    (done.2 k).Consistent ∧ Origin k (done.2 k) done.1
      ∧ (∀ (handle : Handle) (j : ι), (done.2 k).Owns handle → (done.2 j).Owns handle → j = k)
      ∧ ∀ g, (done.2 k).finish = .ok g → ∀ (trap : Matcher υ σ) (config : Config) (root : Handle)
          (input : Input) (host : σ), g.Owns root →
          g.runOr trap config root input host = g.run config root input host := by
  intro done
  have hsound : Sound number done.2 done.1 := (sound_new number).performAll calls
  obtain ⟨hid, hconsistent, horigin⟩ := hsound k
  refine ⟨hconsistent, horigin, fun handle j hk hj => ?_,
    fun g _ trap config root input host hroot => Grammar.runOr_eq trap config hroot input host⟩
  exact hnumber ((hsound j).1.symm.trans (hj.1.symm.trans (hk.1.trans hid)))

/-- Calls on two builders, numbered 0 and 1. The second one is given a handle of the first and
refuses it; the first one is made to refer to itself. -/
def entangled : List (Bool × Call Unit Unit) :=
  [(false, .indirect), (true, .indirect), (false, .add (.token [97])),
    (true, .add (.optional ⟨0, 1⟩)), (false, .add (.sequence [⟨0, 1⟩, ⟨0, 0⟩])),
    (false, .bind ⟨0, 0⟩ ⟨0, 2⟩)]

theorem representation_entangled :
    let done := performAll (new Bool.toNat) entangled
    Function.Injective Bool.toNat
      ∧ done.1.map (·.answer.toOption) = [some (.made ⟨0, 0⟩), some (.made ⟨1, 0⟩),
          some (.made ⟨0, 1⟩), none, some (.made ⟨0, 2⟩), some .bound]
      ∧ (done.2 false).Consistent ∧ Origin false (done.2 false) done.1
      ∧ ∃ g, (done.2 false).finish = .ok g ∧ ∀ trap config input host,
          g.runOr trap config ⟨0, 0⟩ input host = g.run config ⟨0, 0⟩ input host := by
  intro done
  have hinj : Function.Injective Bool.toNat := fun a b => by cases a <;> cases b <;> decide
  obtain ⟨hconsistent, horigin, -, hlookups⟩ := representation hinj entangled false
  have hbound : ∀ o ∈ (done.2 false).targets, o.isSome := by decide +kernel
  obtain ⟨g, hg⟩ := Builder.exists_finish hbound
  have howns : (done.2 false).Owns ⟨0, 0⟩ := by decide +kernel
  obtain ⟨hid, hentries, -⟩ := Builder.finish_eq_ok hg
  exact ⟨hinj, by decide +kernel, hconsistent, horigin, g, hg, fun trap config input host =>
    hlookups g hg trap config _ input host ⟨howns.1.trans hid.symm, hentries ▸ howns.2⟩⟩

end Builders

end Packrat
