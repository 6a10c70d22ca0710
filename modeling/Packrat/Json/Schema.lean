import Packrat.Json.Reader

/-!
# Json/Schema — reading typed data from documents

How typed data is laid out. A record is an object with named fields, in any order, each at most
once, or an array of the fields in their order. A variant of a sum is its name, or an object whose
one member is the name with the variant's data. Numbers are integers within bounds.
-/

namespace Packrat.Json

/-! ## Plain data -/

/-- A natural number below a bound. -/
def natBelow? (bound : Nat) : Json → Option Nat
  | integer n => if 0 ≤ n ∧ n < bound then some n.toNat else none
  | _ => none

/-- An integer below a bound and not below its negative. -/
def intBelow? (bound : Nat) : Json → Option Int
  | integer n => if -bound ≤ n ∧ n < bound then some n else none
  | _ => none

/-- A truth value. -/
def bool? : Json → Option Bool
  | bool b => some b
  | _ => none

/-- A string of characters. -/
def string? : Json → Option String
  | string t => t.toString?
  | _ => none

/-! ## Records -/

/-- How a record treats names that are no fields. -/
inductive Strays where
  | ignored
  | refused
deriving DecidableEq, Repr

/-- The values of the fields of a record among named members; refuses a field that comes twice. -/
def gather? (strays : Strays) (fields : List String) :
    List (String × Json) → List (String × Json) → Option (List (Option Json))
  | found, [] => some (fields.map fun field => found.lookup field)
  | found, (name, value) :: members =>
    if fields.contains name then
      if (found.lookup name).isSome then none
      else gather? strays fields ((name, value) :: found) members
    else match strays with
      | .ignored => gather? strays fields found members
      | .refused => none

/-- The values of the fields of a record, in the order of the fields; those that are not given are
missing. -/
def fields? (strays : Strays) (fields : List String) : Json → Option (List (Option Json))
  | array items =>
    if items.length ≤ fields.length then
      some (items.map some ++ List.replicate (fields.length - items.length) none)
    else none
  | object members => do
    let members ← members.mapM fun (name, value) => do return (← name.toString?, value)
    gather? strays fields [] members
  | _ => none

/-! ## Variants -/

/-- The name of a variant and its data, if it comes with any. -/
def variant? : Json → Option (String × Option Json)
  | string name => do return (← name.toString?, none)
  | object [(name, data)] => do return (← name.toString?, some data)
  | _ => none

end Packrat.Json
