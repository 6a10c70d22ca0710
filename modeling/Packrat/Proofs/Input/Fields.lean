import Packrat.Proofs.Input.Formats

/-!
# Proofs/Input/Fields — numbers of a few bits behind each other

`Fields ws` are numbers of so many bits each. They make up one number (`Fields.pack`), the first in
the highest bits, and `Fields.unpack` takes a number apart again. Where the bits fill whole bytes,
this is a format (`Scan.decodes_fields`).
-/

namespace Packrat

/-- Numbers of so many bits each. -/
def Fields : List Nat → Type
  | [] => Unit
  | w :: ws => Fin (2 ^ w) × Fields ws

namespace Fields

variable {ws : List Nat}

/-- The number that the fields make up. -/
def pack : {ws : List Nat} → Fields ws → Nat
  | [], _ => 0
  | _ :: ws, a => a.1 * 2 ^ ws.sum + pack a.2

/-- The fields in the low bits of a number. -/
def unpack : (ws : List Nat) → (n : Nat) → Fields ws
  | [], _ => ()
  | w :: ws, n => (⟨n / 2 ^ ws.sum % 2 ^ w, Nat.mod_lt _ (Nat.two_pow_pos w)⟩, unpack ws n)

theorem pack_lt (a : Fields ws) : a.pack < 2 ^ ws.sum := by
  induction ws with
  | nil => exact Nat.one_pos
  | cons w ws ih =>
    rw [pack, List.sum_cons, Nat.pow_add]
    have hfirst := Nat.mul_le_mul_right (2 ^ ws.sum) (Nat.le_sub_one_of_lt a.1.isLt)
    have hrest := ih a.2
    have hpos := Nat.two_pow_pos w
    rw [Nat.sub_mul, Nat.one_mul] at hfirst
    have hle := Nat.le_mul_of_pos_left (2 ^ ws.sum) hpos
    omega

/-- What stands in front of the fields does not matter. -/
theorem unpack_add_pack (k : Nat) (a : Fields ws) : unpack ws (k * 2 ^ ws.sum + a.pack) = a := by
  induction ws generalizing k with
  | nil => rfl
  | cons w ws ih =>
    have hnumber : k * 2 ^ (w :: ws).sum + a.pack = (k * 2 ^ w + a.1) * 2 ^ ws.sum + a.2.pack := by
      rw [pack, List.sum_cons, Nat.pow_add, Nat.add_mul, Nat.mul_assoc, Nat.add_assoc]
    rw [hnumber, unpack, ih]
    refine Prod.ext (Fin.ext ?_) rfl
    change ((k * 2 ^ w + a.1) * 2 ^ ws.sum + a.2.pack) / 2 ^ ws.sum % 2 ^ w = a.1
    rw [Nat.mul_comm _ (2 ^ ws.sum), Nat.mul_add_div (Nat.two_pow_pos _),
      Nat.div_eq_of_lt (pack_lt a.2), Nat.add_zero, Nat.mul_comm k, Nat.mul_add_mod,
      Nat.mod_eq_of_lt a.1.isLt]

@[simp]
theorem unpack_pack (a : Fields ws) : unpack ws a.pack = a := by
  have h := unpack_add_pack 0 a
  rwa [Nat.zero_mul, Nat.zero_add] at h

theorem pack_unpack (n : Nat) : (unpack ws n).pack = n % 2 ^ ws.sum := by
  induction ws with
  | nil => exact (Nat.mod_one n).symm
  | cons w ws ih =>
    change n / 2 ^ ws.sum % 2 ^ w * 2 ^ ws.sum + (unpack ws n).pack = n % 2 ^ (w + ws.sum)
    rw [ih, Nat.pow_add, Nat.mul_comm (2 ^ w), Nat.mod_mul, Nat.add_comm, Nat.mul_comm]

theorem unpack_mod (n : Nat) : unpack ws (n % 2 ^ ws.sum) = unpack ws n := by
  rw [← pack_unpack, unpack_pack]

end Fields

namespace Scan

/-- Fields that fill whole bytes. -/
def fields (ws : List Nat) : Scan (Fields ws) :=
  (fun n : Fin (2 ^ (8 * (ws.sum / 8))) => Fields.unpack ws n) <$> number (ws.sum / 8)

theorem fields_apply {ws : List Nat} {count : Nat} (h : ws.sum = 8 * count) (l : List UInt8) :
    fields ws l = if count ≤ l.length then
        some (Fields.unpack ws (bigEndian (l.take count)), l.drop count)
      else none := by
  have hcount : ws.sum / 8 = count := by omega
  rw [fields, map_apply, number, hcount]
  split <;> rfl

theorem decodes_fields {ws : List Nat} (h : 8 ∣ ws.sum) :
    (fields ws).Decodes (fun _ => True) fun a => bytesOf (ws.sum / 8) a.pack := by
  have hsum : 8 * (ws.sum / 8) = ws.sum := Nat.mul_div_cancel' h
  have hpack : ∀ n : Fin (2 ^ (8 * (ws.sum / 8))), (Fields.unpack ws n).pack = n := fun n => by
    have hn : (n : Nat) < 2 ^ ws.sum := Nat.lt_of_lt_of_eq n.isLt (congrArg (2 ^ ·) hsum)
    rw [Fields.pack_unpack, Nat.mod_eq_of_lt hn]
  refine ((decodes_number (ws.sum / 8)).map _ fun n _ => ?_).congr
    (fun a => iff_of_true ?_ trivial) fun a _ => rfl
  · rw [hpack]
  · refine ⟨⟨a.pack, ?_⟩, trivial, Fields.unpack_pack a⟩
    rw [hsum]
    exact a.pack_lt

end Scan

end Packrat
