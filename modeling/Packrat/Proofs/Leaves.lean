import Packrat.Callback.Library
import Packrat.Proofs.Answers

/-!
# Proofs/Leaves — a value is worth its leaves

The leaves of a value are the values within it that are no sequences, from left to right
(`Value.leaves`). Flattening puts them into one sequence (`flatten_eq`), and collecting bytes asks
each of them for its bytes in turn (`toBytes_eq`). Main statement: `flatten_toBytes`. Which bytes a
value makes up, or which leaf is to blame for making up none, does not depend on how its leaves are
nested.
-/

namespace Packrat.Value

variable {υ : Type}

/-! ## Leaves -/

mutual

/-- The values within a value that are no sequences, from left to right. -/
def leaves : Value υ → List (Value υ)
  | sequence items => leavesOf items
  | v => [v]

/-- The leaves of each value of a list. -/
def leavesOf : List (Value υ) → List (Value υ)
  | [] => []
  | v :: vs => leaves v ++ leavesOf vs

end

mutual

theorem sequence?_of_mem_leaves : ∀ {v leaf : Value υ}, leaf ∈ v.leaves → leaf.sequence? = Option.none
  | sequence _, _, h => sequence?_of_mem_leavesOf h
  | none, _, h | bytes _, _, h | integer _, _, h | user _, _, h | bool _, _, h => by
    obtain rfl := List.mem_singleton.1 h
    rfl

theorem sequence?_of_mem_leavesOf :
    ∀ {vs : List (Value υ)} {leaf : Value υ}, leaf ∈ leavesOf vs → leaf.sequence? = Option.none
  | _ :: _, _, h => (List.mem_append.1 h).elim sequence?_of_mem_leaves sequence?_of_mem_leavesOf

end

/-- A value that is no sequence is its only leaf. -/
theorem leaves_of_sequence? {v : Value υ} (h : v.sequence? = Option.none) : v.leaves = [v] := by
  cases v with
  | sequence items => cases h
  | _ => rfl

theorem leavesOf_of_sequence? {vs : List (Value υ)} (h : ∀ v ∈ vs, v.sequence? = Option.none) :
    leavesOf vs = vs := by
  induction vs with
  | nil => rfl
  | cons v vs ih =>
    obtain ⟨hv, hvs⟩ := List.forall_mem_cons.1 h
    rw [leavesOf, leaves_of_sequence? hv, ih hvs, List.singleton_append]

/-! ## Flattening -/

mutual

theorem pushLeaves_eq (out : Array (Value υ)) :
    ∀ v : Value υ, (pushLeaves out v).toList = out.toList ++ v.leaves
  | sequence items => pushAllLeaves_eq out items
  | none | bytes _ | integer _ | user _ | bool _ => Array.toList_push

theorem pushAllLeaves_eq (out : Array (Value υ)) :
    ∀ vs : List (Value υ), (pushAllLeaves out vs).toList = out.toList ++ leavesOf vs
  | [] => (List.append_nil _).symm
  | v :: vs => by
    rw [pushAllLeaves, pushAllLeaves_eq _ vs, pushLeaves_eq out v, leavesOf, List.append_assoc]

end

/-- **Flattening puts the leaves into one sequence.** -/
theorem flatten_eq (v : Value υ) : v.flatten = sequence v.leaves :=
  congrArg sequence (pushLeaves_eq #[] v)

/-- Flattening leaves the leaves as they are. -/
theorem leaves_flatten (v : Value υ) : v.flatten.leaves = v.leaves := by
  rw [flatten_eq, leaves, leavesOf_of_sequence? fun _ => sequence?_of_mem_leaves]

/-! ## Collecting bytes -/

/-- The leaf stands for the bytes. -/
inductive Spells : Value υ → List UInt8 → Prop where
  | none : Spells none []
  | bytes (b : List UInt8) : Spells (bytes b) b
  | byte {n : Integer} {b : UInt8} (h : n.toInt = b.toNat) : Spells (integer n) [b]

/-- What is wrong with a leaf that stands for no bytes. -/
def fault : Value υ → CallbackError
  | integer n => .rejected s!"{n.toInt} is not a byte"
  | v => .rejected s!"cannot convert {v.typeName} value to bytes"

/-- The bytes that a leaf stands for. -/
def leafBytes : Value υ → Except CallbackError (List UInt8)
  | none => .ok []
  | bytes b => .ok b
  | integer n => (byteOf n).map fun b => [b]
  | v => .error v.fault

theorem byteOf_eq_ok {n : Integer} {b : UInt8} (h : n.toInt = b.toNat) : byteOf n = .ok b := by
  have hb : b.toNat < 256 := b.toNat_lt
  have hword : n.toWord? = some b.toNat := by
    rw [Integer.toWord?, h, if_pos ⟨Int.natCast_nonneg _, by rw [wordBound]; omega⟩, Int.toNat_natCast]
  rw [byteOf, hword]
  exact (if_pos hb).trans (congrArg Except.ok UInt8.ofNat_toNat)

theorem byteOf_eq_error {n : Integer} (h : ∀ b : UInt8, n.toInt ≠ b.toNat) :
    byteOf n = .error (.rejected s!"{n.toInt} is not a byte") := by
  rw [byteOf]
  split
  · next k hk =>
    refine if_neg fun hlt => h (.ofNat k) ?_
    obtain ⟨hrange, hk⟩ := (Option.ite_none_right_eq_some ..).1 hk
    have hbyte : (UInt8.ofNat k).toNat = k := Nat.mod_eq_of_lt hlt
    rw [hbyte, ← Option.some.inj hk, Int.toNat_of_nonneg hrange.1]
  · rfl

/-- A leaf gives the bytes that it stands for, or is at fault. -/
theorem leafBytes_cases (v : Value υ) : (∃ b, Spells v b ∧ leafBytes v = .ok b)
    ∨ (∀ b, ¬Spells v b) ∧ leafBytes v = .error v.fault := by
  cases v with
  | none => exact .inl ⟨[], .none, rfl⟩
  | bytes b => exact .inl ⟨b, .bytes b, rfl⟩
  | integer n =>
    by_cases h : ∃ b : UInt8, n.toInt = b.toNat
    · obtain ⟨b, hb⟩ := h
      exact .inl ⟨[b], .byte hb, congrArg (Except.map fun b => [b]) (byteOf_eq_ok hb)⟩
    · refine .inr ⟨fun b hb => ?_, ?_⟩
      · cases hb with
        | byte hb => exact h ⟨_, hb⟩
      · exact congrArg (Except.map fun b => [b]) (byteOf_eq_error fun b hb => h ⟨b, hb⟩)
  | _ => exact .inr ⟨nofun, rfl⟩

theorem Spells.unique {v : Value υ} {b b' : List UInt8} (h : Spells v b) (h' : Spells v b') :
    b = b' := by
  cases h with
  | byte h =>
    cases h' with
    | byte h' => rw [UInt8.toNat_inj.1 (Int.ofNat_inj.1 (h.symm.trans h'))]
  | _ =>
    cases h'
    rfl

theorem leafBytes_eq_ok {v : Value υ} {b : List UInt8} : leafBytes v = .ok b ↔ Spells v b := by
  obtain ⟨b', hb', hv⟩ | ⟨hnot, hv⟩ := leafBytes_cases v
  · rw [hv]
    exact ⟨fun h => Except.ok.inj h ▸ hb', fun h => congrArg Except.ok (hb'.unique h)⟩
  · rw [hv]
    exact ⟨nofun, fun h => absurd h (hnot b)⟩

theorem leafBytes_eq_error {v : Value υ} {e : CallbackError} :
    leafBytes v = .error e ↔ (∀ b, ¬Spells v b) ∧ e = v.fault := by
  obtain ⟨b, hb, hv⟩ | ⟨hnot, hv⟩ := leafBytes_cases v
  · rw [hv]
    exact ⟨nofun, fun h => absurd hb (h.1 b)⟩
  · rw [hv]
    exact ⟨fun h => ⟨hnot, (Except.error.inj h).symm⟩, fun h => congrArg Except.error h.2.symm⟩

/-- A value that is no sequence is asked for its own bytes. -/
theorem pushBytes_leaf (out : Array UInt8) {v : Value υ} (h : v.sequence? = Option.none) :
    pushBytes out v = (leafBytes v).map fun b => out ++ b.toArray := by
  cases v with
  | none => exact congrArg Except.ok out.append_empty.symm
  | bytes b => exact congrArg Except.ok (Array.toList_inj.1 (by simp))
  | integer n =>
    rw [pushBytes, leafBytes]
    cases byteOf n with
    | error e => rfl
    | ok b => exact congrArg Except.ok Array.push_eq_append
  | sequence items => cases h
  | _ => rfl

mutual

theorem pushBytes_eq (out : Array UInt8) : ∀ v : Value υ, pushBytes out v
    = (v.leaves.mapM leafBytes).map fun parts => out ++ parts.flatten.toArray
  | sequence items => pushAllBytes_eq out items
  | none | bytes _ | integer _ | user _ | bool _ => by
    rw [pushBytes_leaf out rfl, leaves_of_sequence? rfl, List.mapM_cons]
    generalize leafBytes _ = answer
    cases answer with
    | error e => rfl
    | ok b => exact congrArg (fun b => Except.ok (out ++ b.toArray)) (List.append_nil b).symm

theorem pushAllBytes_eq (out : Array UInt8) : ∀ vs : List (Value υ), pushAllBytes out vs
    = ((leavesOf vs).mapM leafBytes).map fun parts => out ++ parts.flatten.toArray
  | [] => congrArg Except.ok out.append_empty.symm
  | v :: vs => by
    rw [pushAllBytes, pushBytes_eq out v, leavesOf, List.mapM_append]
    cases v.leaves.mapM leafBytes with
    | error e => rfl
    | ok parts =>
      refine (pushAllBytes_eq (out ++ parts.flatten.toArray) vs).trans ?_
      cases (leavesOf vs).mapM leafBytes with
      | error e => rfl
      | ok rest =>
        refine congrArg Except.ok (?_ : _ = out ++ (parts ++ rest).flatten.toArray)
        rw [List.flatten_append, ← List.append_toArray]
        exact Array.append_assoc ..

end

/-- **Collecting bytes asks the leaves for theirs, one after the other.** -/
theorem toBytes_eq (v : Value υ) :
    v.toBytes = (v.leaves.mapM leafBytes).map fun parts => bytes parts.flatten := by
  rw [toBytes, pushBytes_eq]
  cases v.leaves.mapM leafBytes with
  | error e => rfl
  | ok parts => exact congrArg (fun b => Except.ok (bytes b)) (by simp)

theorem toBytes_eq_ok {v w : Value υ} : v.toBytes = .ok w ↔
    ∃ parts, List.Forall₂ Spells v.leaves parts ∧ w = bytes parts.flatten := by
  have hparts : ∀ parts, v.leaves.mapM leafBytes = .ok parts ↔
      List.Forall₂ Spells v.leaves parts := by
    intro parts
    simp only [mapM_eq_ok, leafBytes_eq_ok]
  rw [toBytes_eq]
  simp only [← hparts]
  cases v.leaves.mapM leafBytes with
  | error e => simp [Except.map]
  | ok parts => simp [Except.map, eq_comm]

/-- The first leaf that stands for no bytes is to blame. -/
theorem toBytes_eq_error {v : Value υ} {e : CallbackError} : v.toBytes = .error e ↔
    ∃ before leaf after, v.leaves = before ++ leaf :: after ∧ (∀ l ∈ before, ∃ b, Spells l b)
      ∧ (∀ b, ¬Spells leaf b) ∧ e = leaf.fault := by
  have herror : v.toBytes = .error e ↔ v.leaves.mapM leafBytes = .error e := by
    rw [toBytes_eq]
    cases v.leaves.mapM leafBytes <;> simp [Except.map]
  simp only [herror, mapM_eq_error, leafBytes_eq_ok, leafBytes_eq_error]

/-- The leaves that stand for bytes. -/
theorem exists_spells {leaf : Value υ} : (∃ b, Spells leaf b) ↔ leaf = none
    ∨ (∃ b, leaf = bytes b) ∨ ∃ n, leaf = integer n ∧ 0 ≤ n.toInt ∧ n.toInt ≤ 255 := by
  constructor
  · rintro ⟨b, ⟨⟩ | ⟨b⟩ | @⟨n, b, h⟩⟩
    · exact .inl rfl
    · exact .inr (.inl ⟨b, rfl⟩)
    · have hb : b.toNat < 256 := b.toNat_lt
      exact .inr (.inr ⟨n, rfl, by omega, by omega⟩)
  · rintro (rfl | ⟨b, rfl⟩ | ⟨n, rfl, hlow, hhigh⟩)
    · exact ⟨[], .none⟩
    · exact ⟨b, .bytes b⟩
    · have hbyte : (UInt8.ofNat n.toInt.toNat).toNat = n.toInt.toNat :=
        Nat.mod_eq_of_lt (by omega)
      exact ⟨_, .byte (b := .ofNat n.toInt.toNat) (by rw [hbyte]; omega)⟩

/-- **Flattening and collecting bytes see the leaves only.** Flattening puts them into one sequence,
from left to right; doing so once more changes nothing. The bytes that a value makes up are those of
its leaves in a row, if all of them stand for bytes; otherwise the first that does not is at fault.
So flattening a value changes neither the bytes nor the fault. -/
theorem flatten_toBytes (v : Value υ) :
    v.flatten = sequence v.leaves ∧ (∀ leaf ∈ v.leaves, leaf.sequence? = Option.none)
      ∧ v.flatten.flatten = v.flatten
      ∧ ((∃ w, v.toBytes = .ok w) ↔ ∀ leaf ∈ v.leaves, leaf = none ∨ (∃ b, leaf = bytes b)
          ∨ ∃ n, leaf = integer n ∧ 0 ≤ n.toInt ∧ n.toInt ≤ 255)
      ∧ (∀ w, v.toBytes = .ok w ↔
          ∃ parts, List.Forall₂ Spells v.leaves parts ∧ w = bytes parts.flatten)
      ∧ (∀ e, v.toBytes = .error e ↔ ∃ before leaf after, v.leaves = before ++ leaf :: after
          ∧ (∀ l ∈ before, ∃ b, Spells l b) ∧ (∀ b, ¬Spells leaf b) ∧ e = leaf.fault)
      ∧ v.flatten.toBytes = v.toBytes := by
  refine ⟨flatten_eq v, fun _ => sequence?_of_mem_leaves, ?_, ?_, fun _ => toBytes_eq_ok,
    fun _ => toBytes_eq_error, ?_⟩
  · rw [flatten_eq v.flatten, leaves_flatten, flatten_eq]
  · simp only [← exists_spells, ← exists_forall₂, toBytes_eq_ok]
    exact ⟨fun ⟨_, parts, h, _⟩ => ⟨parts, h⟩, fun ⟨parts, h⟩ => ⟨_, parts, h, rfl⟩⟩
  · rw [toBytes_eq, toBytes_eq, leaves_flatten]

end Packrat.Value
