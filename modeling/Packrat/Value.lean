import Packrat.Integer

/-!
# Value — what a match means

A successful match carries a `Value`: bytes, an integer, a sequence, a truth value, nothing, or an
object that an action made. The type of those objects is a parameter: the engine only passes them
on. Equality of values is structural and compares objects by their own `==`.
-/

namespace Packrat

/-- The value of a match, over objects of type `υ`. -/
inductive Value (υ : Type) where
  /-- Nothing, as for an optional part that is missing. -/
  | none
  | bytes (bytes : List UInt8)
  | integer (n : Integer)
  | sequence (items : List (Value υ))
  /-- An object made by an action. -/
  | user (object : υ)
  | bool (b : Bool)
deriving Inhabited

namespace Value

variable {υ : Type}

/-! ## Equality -/

mutual

/-- Whether two values agree, objects compared by `==`. -/
def beq [BEq υ] : Value υ → Value υ → Bool
  | none, none => true
  | bytes a, bytes b => a == b
  | integer a, integer b => a == b
  | sequence as, sequence bs => beqList as bs
  | user a, user b => a == b
  | bool a, bool b => a == b
  | _, _ => false

/-- Whether two lists of values agree element by element. -/
def beqList [BEq υ] : List (Value υ) → List (Value υ) → Bool
  | [], [] => true
  | a :: as, b :: bs => beq a b && beqList as bs
  | _, _ => false

end

instance [BEq υ] : BEq (Value υ) := ⟨beq⟩

mutual

theorem eq_of_beq [BEq υ] [LawfulBEq υ] : ∀ {v w : Value υ}, beq v w = true → v = w
  | none, none, _ => rfl
  | bytes _, bytes _, h => congrArg bytes (LawfulBEq.eq_of_beq h)
  | integer _, integer _, h => congrArg integer (LawfulBEq.eq_of_beq h)
  | sequence _, sequence _, h => congrArg sequence (eq_of_beqList h)
  | user _, user _, h => congrArg user (LawfulBEq.eq_of_beq h)
  | bool _, bool _, h => congrArg bool (LawfulBEq.eq_of_beq h)

theorem eq_of_beqList [BEq υ] [LawfulBEq υ] :
    ∀ {vs ws : List (Value υ)}, beqList vs ws = true → vs = ws
  | [], [], _ => rfl
  | _ :: _, _ :: _, h => by
    obtain ⟨hfirst, hrest⟩ := (Bool.and_eq_true _ _).mp h
    rw [eq_of_beq hfirst, eq_of_beqList hrest]

end

mutual

theorem beq_self [BEq υ] [LawfulBEq υ] : ∀ v : Value υ, beq v v = true
  | none => rfl
  | bytes _ => BEq.rfl
  | integer _ => BEq.rfl
  | sequence items => beqList_self items
  | user _ => BEq.rfl
  | bool _ => BEq.rfl

theorem beqList_self [BEq υ] [LawfulBEq υ] : ∀ vs : List (Value υ), beqList vs vs = true
  | [] => rfl
  | v :: vs => by rw [beqList, beq_self v, beqList_self vs, Bool.and_self]

end

/-- Values agree if they are equal, where objects do. -/
instance [BEq υ] [LawfulBEq υ] : LawfulBEq (Value υ) where
  rfl := beq_self _
  eq_of_beq := eq_of_beq

instance [DecidableEq υ] : DecidableEq (Value υ) := instDecidableEqOfLawfulBEq

/-! ## Views -/

/-- Name of the kind of value, as messages show it. -/
def typeName : Value υ → String
  | none => "None"
  | bytes _ => "Bytes"
  | integer _ => "Integer"
  | sequence _ => "Sequence"
  | user _ => "User"
  | bool _ => "Bool"

/-- Whether there is no value. -/
def isNone : Value υ → Bool
  | none => true
  | _ => false

/-- The bytes of a byte string. -/
def bytes? : Value υ → Option (List UInt8)
  | bytes b => some b
  | _ => .none

/-- The integer of an integer value. -/
def integer? : Value υ → Option Integer
  | integer n => some n
  | _ => .none

/-- The number of an integer value that is an unsigned 64-bit word. -/
def word? (v : Value υ) : Option Nat := v.integer?.bind Integer.toWord?

/-- The number of an integer value that is a signed 64-bit word. -/
def signedWord? (v : Value υ) : Option Int := v.integer?.bind Integer.toSignedWord?

/-- The items of a sequence. -/
def sequence? : Value υ → Option (List (Value υ))
  | sequence items => some items
  | _ => .none

/-- The truth value of a boolean. -/
def bool? : Value υ → Option Bool
  | bool b => some b
  | _ => .none

/-- The object that an action made. -/
def user? : Value υ → Option υ
  | user object => some object
  | _ => .none

/-- An item of a sequence. -/
def get? (v : Value υ) (index : Nat) : Option (Value υ) :=
  v.sequence?.bind (·[index]?)

/-- An unsigned integer value. -/
def word (value width : Nat) : Value υ := integer (.unsigned value width)

end Value

end Packrat
