import Packrat.Grammar.Call

/-!
# Proofs/Builder/Calls — what a call does to a builder

`Builder.Performs` is a call as a relation, with one rule for each thing that can come of it. What
`Builder.perform` does is always one of them (`performs`), so that a fact about builds is one case
analysis. Two such facts are here. Whatever is called, a builder keeps its entries and the targets
of its slots, and both may only get more (`extends_performAll`). And a call that fails leaves no
trace: the calls that succeed would have done the same by themselves (`performAll_taken`).
-/

namespace Packrat

variable {υ σ α β : Type}

namespace Build

/-! ## Carrying out computations -/

theorem run_bind (c : Build υ σ α) (f : α → Build υ σ β) (b : Builder υ σ) :
    (c >>= f).run.run b = match c.run.run b with
      | (.ok a, b') => (f a).run.run b'
      | (.error e, b') => (.error e, b') := by
  simp only [bind, ExceptT.bind, ExceptT.mk, ExceptT.run, StateT.bind, StateT.run]
  generalize c b = x
  obtain ⟨e | a, b'⟩ := x <;> rfl

theorem run_map (c : Build υ σ α) (f : α → β) (b : Builder υ σ) :
    (f <$> c).run.run b = match c.run.run b with
      | (.ok a, b') => (.ok (f a), b')
      | (.error e, b') => (.error e, b') := by
  simp only [Functor.map, ExceptT.map, ExceptT.mk, ExceptT.run, StateT.bind, StateT.run, bind]
  generalize c b = x
  obtain ⟨e | a, b'⟩ := x <;> rfl

theorem run_get (b : Builder υ σ) : (get : Build υ σ (Builder υ σ)).run.run b = (.ok b, b) := rfl

/-! ## Checks -/

/-- The computation only looks at the builder: it comes back if `P`, and throws otherwise. -/
def Checks (b : Builder υ σ) (c : Build υ σ Unit) (P : Prop) : Prop :=
  (P ∧ c.run.run b = (.ok (), b)) ∨ ¬P ∧ ∃ e, c.run.run b = (.error e, b)

section Checks

variable {b : Builder υ σ} {c c' : Build υ σ Unit} {P Q : Prop}

theorem Checks.pure : Checks b (pure ()) True := .inl ⟨trivial, rfl⟩

theorem Checks.seq (h : Checks b c P) (h' : Checks b c' Q) :
    Checks b (c >>= fun _ => c') (P ∧ Q) := by
  obtain ⟨hp, hc⟩ | ⟨hp, e, hc⟩ := h
  · obtain ⟨hq, hc'⟩ | ⟨hq, e, hc'⟩ := h'
    · exact .inl ⟨⟨hp, hq⟩, by rw [run_bind, hc]; exact hc'⟩
    · exact .inr ⟨fun h => hq h.2, e, by rw [run_bind, hc]; exact hc'⟩
  · exact .inr ⟨fun h => hp h.1, e, by rw [run_bind, hc]⟩

/-- What is refused is refused first. -/
theorem Checks.guard [Decidable Q] (hthrow : ∃ e, c.run.run b = (.error e, b))
    (h : Checks b c' P) : Checks b (if Q then c else c') (¬Q ∧ P) := by
  by_cases hq : Q
  · rw [if_pos hq]
    exact .inr ⟨fun h => h.1 hq, hthrow⟩
  · rw [if_neg hq]
    obtain ⟨hp, hc'⟩ | ⟨hp, hc'⟩ := h
    · exact .inl ⟨⟨hq, hp⟩, hc'⟩
    · exact .inr ⟨fun h => hp h.2, hc'⟩

theorem Checks.of_iff (h : Checks b c P) (hiff : P ↔ Q) : Checks b c Q := by
  rwa [Checks, ← hiff]

/-- The check of a property of the builder. -/
theorem run_unless (p : Builder υ σ → Prop) [DecidablePred p] (e : GrammarError)
    (b : Builder υ σ) : (do unless p (← get) do throw e : Build υ σ Unit).run.run b
      = (if p b then .ok () else .error e, b) := by
  rw [run_bind, run_get]
  by_cases hp : p b
  · simp only [hp, if_true]
    rfl
  · simp only [hp, if_false]
    rfl

theorem Checks.of_run [Decidable P] {e : GrammarError}
    (h : c.run.run b = (if P then .ok () else .error e, b)) : Checks b c P := by
  by_cases hp : P
  · exact .inl ⟨hp, by rw [h, if_pos hp]⟩
  · exact .inr ⟨hp, e, by rw [h, if_neg hp]⟩

end Checks

theorem run_own (b : Builder υ σ) (h : Handle) :
    (own h).run.run b = (if b.Owns h then .ok () else .error (.foreignParser h), b) :=
  run_unless (·.Owns h) _ b

theorem checks_own (b : Builder υ σ) (h : Handle) : Checks b (own h) (b.Owns h) :=
  .of_run (run_own b h)

theorem checks_integer (b : Builder υ σ) (combinator : String) (h : Handle) :
    Checks b (integer combinator h) (b.producesInteger h.index) :=
  .of_run (run_unless (·.producesInteger h.index) (.notIntegerProducing combinator h) b)

end Build

namespace Builder

/-- The arguments of a combinator are acceptable to the builder. -/
def Accepts (b : Builder υ σ) : Node Handle υ σ → Prop
  | .byteRange low high => ¬high < low
  | .bits width _ => width ≠ 0 ∧ ¬64 < width
  | .intRange base low high => b.Owns base ∧ ¬high < low ∧ b.producesInteger base.index
  | .lengthValue length _ => b.Owns length ∧ b.producesInteger length.index
  | .sequence parts | .choice parts => parts ≠ []
  | _ => True

open Build in
/-- Fault is found with just those arguments that are not acceptable. -/
theorem checks_accept (b : Builder υ σ) (request : Node Handle υ σ) :
    Checks b (accept request) (b.Accepts request) := by
  cases request with
  | byteRange low high => exact (Checks.guard ⟨_, rfl⟩ .pure).of_iff (and_iff_left trivial)
  | bits width signed =>
    exact (Checks.guard ⟨_, rfl⟩ (.guard ⟨_, rfl⟩ .pure)).of_iff
      (and_congr_right' (and_iff_left trivial))
  | intRange base low high =>
    exact (checks_own b base).seq (.guard ⟨_, rfl⟩ (checks_integer b _ base))
  | lengthValue length value => exact (checks_own b length).seq (checks_integer b _ length)
  | sequence parts =>
    cases parts with
    | nil => exact .inr ⟨fun h => h rfl, _, rfl⟩
    | cons part parts => exact .inl ⟨List.cons_ne_nil part parts, rfl⟩
  | choice alternatives =>
    cases alternatives with
    | nil => exact .inr ⟨fun h => h rfl, _, rfl⟩
    | cons part parts => exact .inl ⟨List.cons_ne_nil part parts, rfl⟩
  | _ => exact .inl ⟨trivial, rfl⟩

/-! ## Calls as a relation -/

theorem lt_of_owns {b : Builder υ σ} {request : Node Handle υ σ}
    (h : ∀ c ∈ request.children, b.Owns c) :
    ∀ i ∈ (request.map Handle.index).children, i < b.entries.size := by
  intro i hi
  rw [Node.children_map] at hi
  obtain ⟨c, hc, rfl⟩ := List.mem_map.1 hi
  exact (h c hc).2

section

variable {b : Builder υ σ} {request : Node Handle υ σ}
  (haccept : (Build.accept request).run.run b = (.ok (), b))

include haccept

theorem run_add_of_owns (h : ∀ c ∈ request.children, b.Owns c) :
    (Build.add request).run.run b
      = (.ok (b.handle b.size), b.append (request.map Handle.index) (lt_of_owns h)) := by
  rw [Build.add, Build.run_bind, haccept]
  simp only [Build.run_bind, Build.run_get]
  split
  · next stranger hstranger =>
    have hnot := List.find?_some hstranger
    exact absurd (h stranger (List.mem_of_find?_eq_some hstranger)) (of_decide_eq_true hnot)
  · rfl

theorem run_add_of_not_owns (h : ¬∀ c ∈ request.children, b.Owns c) :
    ∃ e, (Build.add request).run.run b = (.error e, b) := by
  rw [Build.add, Build.run_bind, haccept]
  simp only [Build.run_bind, Build.run_get]
  split
  · exact ⟨_, rfl⟩
  · next hnone =>
    refine absurd (fun c hc => Decidable.of_not_not fun hnot => ?_) h
    exact List.find?_eq_none.1 hnone c hc (decide_eq_true hnot)

end

/-- What may come of a call: the answer, and the builder afterwards. -/
inductive Performs : Builder υ σ → Call υ σ → Except GrammarError Call.Answer → Builder υ σ → Prop
  /-- The arguments are not acceptable, or a child belongs to another builder. -/
  | refused {b request e} (h : ¬(b.Accepts request ∧ ∀ c ∈ request.children, b.Owns c)) :
      Performs b (.add request) (.error e) b
  /-- A combinator is appended. -/
  | added {b request} (haccepts : b.Accepts request) (howns : ∀ c ∈ request.children, b.Owns c) :
      Performs b (.add request) (.ok (.made (b.handle b.size)))
        (b.append (request.map Handle.index) (lt_of_owns howns))
  /-- A placeholder is appended. -/
  | placed {b} : Performs b .indirect (.ok (.made (b.handle b.size))) b.appendPlaceholder
  /-- The placeholder belongs to another builder. -/
  | strange {b placeholder target} (h : ¬b.Owns placeholder) :
      Performs b (.bind placeholder target) (.error (.foreignParser placeholder)) b
  /-- The placeholder is none. -/
  | notIndirect {b placeholder target} (h : b.Owns placeholder)
      (hslot : b.slotOf? placeholder = none) :
      Performs b (.bind placeholder target) (.error (.notIndirect placeholder)) b
  /-- The target belongs to another builder. -/
  | strangeTarget {b placeholder target slot} (h : b.Owns placeholder)
      (hslot : b.slotOf? placeholder = some slot) (htarget : ¬b.Owns target) :
      Performs b (.bind placeholder target) (.error (.foreignParser target)) b
  /-- The slot has a target. -/
  | alreadyBound {b placeholder target slot} (h : b.Owns placeholder)
      (hslot : b.slotOf? placeholder = some slot) (htarget : b.Owns target)
      (hbound : (b.slotTarget? slot).isSome) :
      Performs b (.bind placeholder target) (.error (.alreadyBound slot)) b
  /-- The slot is given its target. -/
  | bound {b placeholder target slot} (h : b.Owns placeholder)
      (hslot : b.slotOf? placeholder = some slot) (htarget : b.Owns target)
      (hfree : ¬(b.slotTarget? slot).isSome) :
      Performs b (.bind placeholder target) (.ok .bound) (b.bind slot target.index htarget.2)

open Build in
/-- **A call does what the relation says.** -/
theorem performs (b : Builder υ σ) (call : Call υ σ) :
    b.Performs call (b.perform call).1 (b.perform call).2 := by
  cases call with
  | add request =>
    rw [perform, Call.toBuild, run_map]
    obtain ⟨haccepts, hrun⟩ | ⟨hnot, e, hrun⟩ := checks_accept b request
    · by_cases howns : ∀ c ∈ request.children, b.Owns c
      · rw [run_add_of_owns hrun howns]
        exact .added haccepts howns
      · obtain ⟨e, hadd⟩ := run_add_of_not_owns hrun howns
        rw [hadd]
        exact .refused fun h => howns h.2
    · rw [add, run_bind, hrun]
      exact .refused fun h => hnot h.1
  | indirect => exact .placed
  | bind placeholder target =>
    rw [perform, Call.toBuild, run_map, bindIndirect, run_bind, run_own]
    by_cases h : b.Owns placeholder
    · rw [if_pos h]
      simp only [run_bind, run_get]
      cases hslot : b.slotOf? placeholder with
      | none => exact .notIndirect h hslot
      | some slot =>
        dsimp only
        by_cases htarget : b.Owns target
        · rw [dif_pos htarget]
          by_cases hbound : (b.slotTarget? slot).isSome
          · rw [if_pos hbound]
            exact .alreadyBound h hslot htarget hbound
          · rw [if_neg hbound]
            exact .bound h hslot htarget hbound
        · rw [dif_neg htarget]
          exact .strangeTarget h hslot htarget
    · rw [if_neg h]
      exact .strange h

/-- A combinator that is taken is appended, and its handle is answered. -/
theorem perform_add_made {b : Builder υ σ} {request : Node Handle υ σ} {made : Handle}
    (h : (b.perform (.add request)).1 = .ok (.made made)) :
    b.Accepts request ∧ made = b.handle b.size ∧
      ∃ hlt, (b.perform (.add request)).2 = b.append (request.map Handle.index) hlt := by
  have hperforms := b.performs (.add request)
  rw [h] at hperforms
  generalize (b.perform (.add request)).2 = b' at hperforms
  cases hperforms with
  | added haccepts howns => exact ⟨haccepts, rfl, lt_of_owns howns, rfl⟩

/-! ## What a builder keeps -/

/-- A builder has grown out of another one: it has the other's entries, and its slots' targets. -/
structure Extends (b b' : Builder υ σ) : Prop where
  owner : b'.id = b.id
  entry : ∀ {i : Nat} {e}, b.entries[i]? = some e → b'.entries[i]? = some e
  target : ∀ {s t : Nat}, b.targets[s]? = some (some t) → b'.targets[s]? = some (some t)

theorem Extends.refl (b : Builder υ σ) : b.Extends b := ⟨rfl, fun h => h, fun h => h⟩

theorem Extends.trans {a b c : Builder υ σ} (hab : a.Extends b) (hbc : b.Extends c) :
    a.Extends c :=
  ⟨hbc.owner.trans hab.owner, fun h => hbc.entry (hab.entry h), fun h => hbc.target (hab.target h)⟩

variable {b b' : Builder υ σ}

theorem getD_none_eq_some {o : Option (Option α)} {a : α} :
    o.getD none = some a ↔ o = some (some a) := by
  rcases o with _ | _ | _ <;> simp

theorem isSome_slotTarget? {slot : Slot} :
    (b.slotTarget? slot).isSome ↔ ∃ t, b.targets[slot.index]? = some (some t) := by
  rw [slotTarget?, Option.isSome_map, Option.isSome_iff_exists]
  simp only [getD_none_eq_some]

theorem slotOf?_eq_some {placeholder : Handle} {slot : Slot} :
    b.slotOf? placeholder = some slot ↔
      b.Owns placeholder ∧ b.entries[placeholder.index]? = some (.indirect slot) := by
  rw [slotOf?, entry?]
  by_cases howns : b.Owns placeholder
  · rw [if_pos howns]
    rcases b.entries[placeholder.index]? with _ | _ | slot' <;> simp [howns]
  · simp [howns]

theorem child_lt_of_getElem? {i : Nat} {n : Node Nat υ σ} (h : b.entries[i]? = some (.node n)) :
    ∀ c ∈ n.children, c < i := by
  obtain ⟨hi, he⟩ := Array.getElem?_eq_some_iff.1 h
  exact fun c hc => b.child_lt i hi c (by rw [he]; exact hc)

theorem slot_lt_of_getElem? {i : Nat} {slot : Slot} (h : b.entries[i]? = some (.indirect slot)) :
    slot.index < b.targets.size := by
  obtain ⟨hi, he⟩ := Array.getElem?_eq_some_iff.1 h
  exact b.slot_lt i hi slot he

theorem getElem?_push_of_some {xs : Array α} {x a : α} {i : Nat} (h : xs[i]? = some a) :
    (xs.push x)[i]? = some a := by
  obtain ⟨hlt, rfl⟩ := Array.getElem?_eq_some_iff.1 h
  exact Array.getElem?_push_lt hlt

/-- An entry of the builder stays the placeholder that it is, or none. -/
theorem Extends.slotOf?_eq (h : b.Extends b') {handle : Handle} (howns : b.Owns handle) :
    b'.slotOf? handle = b.slotOf? handle := by
  have he := Array.getElem?_eq_getElem howns.2
  have he' := h.entry he
  have howns' : b'.Owns handle :=
    ⟨howns.1.trans h.owner.symm, (Array.getElem?_eq_some_iff.1 he').1⟩
  rw [slotOf?, slotOf?, entry?, entry?, if_pos howns, if_pos howns', he, he']

theorem getElem?_append_size {node : Node Nat υ σ} (h : ∀ c ∈ node.children, c < b.entries.size) :
    (b.append node h).entries[b.size]? = some (.node node) :=
  Array.getElem?_push_size

theorem extends_append {node : Node Nat υ σ} (h : ∀ c ∈ node.children, c < b.entries.size) :
    b.Extends (b.append node h) where
  owner := rfl
  entry := getElem?_push_of_some
  target := fun h => h

theorem extends_appendPlaceholder : b.Extends b.appendPlaceholder where
  owner := rfl
  entry := getElem?_push_of_some
  target := getElem?_push_of_some

theorem extends_bind {slot : Slot} {target : Nat} (h : target < b.entries.size)
    (hfree : ¬(b.slotTarget? slot).isSome) : b.Extends (b.bind slot target h) where
  owner := rfl
  entry := fun h => h
  target := fun {s t} ht => by
    have hne : slot.index ≠ s := by
      rintro rfl
      exact hfree (isSome_slotTarget?.2 ⟨t, ht⟩)
    rw [bind, Array.getElem?_setIfInBounds_ne hne]
    exact ht

/-- A call takes nothing away. -/
theorem Performs.extends {call : Call υ σ} {answer : Except GrammarError Call.Answer}
    (h : b.Performs call answer b') : b.Extends b' := by
  cases h with
  | added => exact extends_append _
  | placed => exact extends_appendPlaceholder
  | bound _ _ _ hfree => exact extends_bind _ hfree
  | _ => exact .refl _

/-- **A builder only grows**, whatever is called. -/
theorem extends_performAll (b : Builder υ σ) (calls : List (Call υ σ)) :
    b.Extends (b.performAll calls).2 := by
  induction calls generalizing b with
  | nil => exact .refl b
  | cons call calls ih => exact (b.performs call).extends.trans (ih _)

theorem performAll_cons (b : Builder υ σ) (call : Call υ σ) (calls : List (Call υ σ)) :
    (b.performAll (call :: calls)).2 = ((b.perform call).2.performAll calls).2 := rfl

theorem performAll_append (b : Builder υ σ) (calls calls' : List (Call υ σ)) :
    (b.performAll (calls ++ calls')).2 = ((b.performAll calls).2.performAll calls').2 := by
  induction calls generalizing b with
  | nil => rfl
  | cons call calls ih => exact ih _

/-! ## Calls that fail -/

/-- A call that fails leaves the builder as it is. -/
theorem Performs.eq_of_error {call : Call υ σ} {e : GrammarError}
    (h : b.Performs call (.error e) b') : b' = b := by
  cases h with
  | _ => rfl

/-- Those of the calls that succeed when all are made. -/
def taken (b : Builder υ σ) (calls : List (Call υ σ)) : List (Call υ σ) :=
  ((calls.zip (b.performAll calls).1).filter (·.2.isOk)).map (·.1)

variable {call : Call υ σ}

theorem performAll_answer_cons (b : Builder υ σ) (call : Call υ σ) (calls : List (Call υ σ)) :
    (b.performAll (call :: calls)).1
      = (b.perform call).1 :: ((b.perform call).2.performAll calls).1 := rfl

theorem taken_cons_of_ok {answer : Call.Answer} (h : (b.perform call).1 = .ok answer)
    (calls : List (Call υ σ)) :
    b.taken (call :: calls) = call :: (b.perform call).2.taken calls := by
  rw [taken, performAll_answer_cons, List.zip_cons_cons,
    List.filter_cons_of_pos (by rw [h]; rfl), List.map_cons, taken]

theorem taken_cons_of_error {e : GrammarError} (h : (b.perform call).1 = .error e)
    (calls : List (Call υ σ)) : b.taken (call :: calls) = (b.perform call).2.taken calls := by
  rw [taken, performAll_answer_cons, List.zip_cons_cons,
    List.filter_cons_of_neg (by rw [h]; exact Bool.false_ne_true), taken]

/-- The calls that succeed are answered as they were among the others, and leave the same
builder. -/
theorem performAll_taken_eq (b : Builder υ σ) (calls : List (Call υ σ)) :
    (b.performAll (b.taken calls)).1 = (b.performAll calls).1.filter (·.isOk)
      ∧ (b.performAll (b.taken calls)).2 = (b.performAll calls).2 := by
  induction calls generalizing b with
  | nil => exact ⟨rfl, rfl⟩
  | cons call calls ih =>
    obtain ⟨hanswers, hbuilder⟩ := ih (b.perform call).2
    rw [performAll_answer_cons, performAll_cons]
    cases hcall : (b.perform call).1 with
    | ok answer =>
      rw [taken_cons_of_ok hcall, performAll_answer_cons, performAll_cons, hanswers, hcall]
      exact ⟨(List.filter_cons_of_pos rfl).symm, hbuilder⟩
    | error e =>
      -- The later calls find the builder that this one found.
      have hsame : (b.perform call).2 = b := (hcall ▸ b.performs call).eq_of_error
      rw [taken_cons_of_error hcall, List.filter_cons_of_neg Bool.false_ne_true]
      rw [hsame] at hanswers hbuilder ⊢
      exact ⟨hanswers, hbuilder⟩

/-- The call behind `k` others finds the builder that these leave. -/
theorem performAll_take_succ {calls : List (Call υ σ)} {k : Nat}
    {answer : Except GrammarError Call.Answer} (h : (b.performAll calls).1[k]? = some answer) :
    ∃ call, (b.performAll (calls.take k)).2.Performs call answer
      (b.performAll (calls.take (k + 1))).2 := by
  induction calls generalizing b k with
  | nil => cases h
  | cons call calls ih =>
    cases k with
    | zero =>
      obtain rfl := Option.some.inj h
      exact ⟨call, b.performs call⟩
    | succ k => exact ih h

/-- **Calls that fail leave no trace.** Each leaves the builder as it found it; and without them,
the other calls get the answers that they got, and leave the same builder, which can be finished to
the same grammar. -/
theorem performAll_taken (b : Builder υ σ) (calls : List (Call υ σ)) :
    (∀ (k : Nat) (e : GrammarError), (b.performAll calls).1[k]? = some (.error e) →
        (b.performAll (calls.take (k + 1))).2 = (b.performAll (calls.take k)).2)
      ∧ (b.performAll (b.taken calls)).1 = (b.performAll calls).1.filter (·.isOk)
      ∧ (b.performAll (b.taken calls)).2 = (b.performAll calls).2
      ∧ (b.performAll (b.taken calls)).2.finish = (b.performAll calls).2.finish := by
  obtain ⟨hanswers, hbuilder⟩ := performAll_taken_eq b calls
  refine ⟨fun k e h => ?_, hanswers, hbuilder, congrArg finish hbuilder⟩
  obtain ⟨call, hperforms⟩ := performAll_take_succ h
  exact hperforms.eq_of_error

/-- Calls on builder 0, some of which it refuses: for a handle of builder 1, for a range without
bytes, for an entry that is no placeholder, and for a slot that has a target. -/
def fumbled : List (Call Unit Unit) :=
  [.add (.token [97]), .add (.optional ⟨1, 0⟩), .indirect, .add (.byteRange 9 3),
    .bind ⟨0, 0⟩ ⟨0, 1⟩, .bind ⟨0, 1⟩ ⟨0, 0⟩, .bind ⟨0, 1⟩ ⟨0, 1⟩,
    .add (.sequence [⟨0, 0⟩, ⟨0, 1⟩])]

theorem performAll_taken_fumbled :
    ((new 0).performAll fumbled).1 = [.ok (.made ⟨0, 0⟩), .error (.foreignParser ⟨1, 0⟩),
        .ok (.made ⟨0, 1⟩), .error (.invalidByteRange 9 3), .error (.notIndirect ⟨0, 0⟩),
        .ok .bound, .error (.alreadyBound ⟨0⟩), .ok (.made ⟨0, 2⟩)]
      ∧ ((new 0).performAll (fumbled.take 7)).2 = ((new 0).performAll (fumbled.take 6)).2
      ∧ ((new 0).performAll ((new 0).taken fumbled)).1
          = [.ok (.made ⟨0, 0⟩), .ok (.made ⟨0, 1⟩), .ok .bound, .ok (.made ⟨0, 2⟩)]
      ∧ ((new 0).performAll ((new 0).taken fumbled)).2.finish
          = ((new 0).performAll fumbled).2.finish := by
  have hanswers : ((new 0).performAll fumbled).1 = [.ok (.made ⟨0, 0⟩),
      .error (.foreignParser ⟨1, 0⟩), .ok (.made ⟨0, 1⟩), .error (.invalidByteRange 9 3),
      .error (.notIndirect ⟨0, 0⟩), .ok .bound, .error (.alreadyBound ⟨0⟩),
      .ok (.made ⟨0, 2⟩)] := by rfl
  obtain ⟨hleaves, hkept, -, hfinish⟩ := performAll_taken (new 0) fumbled
  refine ⟨hanswers, hleaves 6 (.alreadyBound ⟨0⟩) (by rw [hanswers]; rfl), ?_, hfinish⟩
  rw [hkept, hanswers]
  rfl

/-! ## What a grammar keeps -/

/-- A builder whose slots are all bound can be finished. -/
theorem exists_finish (h : ∀ o ∈ b.targets, o.isSome) : ∃ g, b.finish = .ok g := by
  rw [finish]
  split
  · next i hi =>
    obtain ⟨hlt, hnone, -⟩ := Array.findIdx?_eq_some_iff_getElem.1 hi
    rw [Option.isNone_iff_eq_none] at hnone
    have hsome := h _ (Array.getElem_mem hlt)
    rw [hnone] at hsome
    cases hsome
  · exact ⟨_, rfl⟩

/-- A finished grammar has the builder's entries, and every slot's target. -/
theorem finish_eq_ok {g : Grammar υ σ} (h : b.finish = .ok g) :
    g.id = b.id ∧ g.entries = b.entries ∧ ∀ s : Nat, g.targets[s]?.map some = b.targets[s]? := by
  rw [finish] at h
  split at h
  · cases h
  · next hnone =>
    obtain rfl := Except.ok.inj h
    refine ⟨rfl, rfl, fun s => ?_⟩
    rw [Array.getElem?_map]
    cases hs : b.targets[s]? with
    | none => rfl
    | some o =>
      obtain ⟨hlt, rfl⟩ := Array.getElem?_eq_some_iff.1 hs
      have hsome := Array.findIdx?_eq_none_iff.1 hnone _ (Array.getElem_mem hlt)
      cases ht : b.targets[s] with
      | none => rw [ht] at hsome; cases hsome
      | some t => rfl

end Builder

end Packrat
