/-!
# Json — JSON documents

The tree of a document. Strings are sequences of code points, because JSON can spell lone
surrogates; `Json.Text.toString?` reads one as a `String` where it can. Numbers without fraction
and exponent are integers of any size; the other ones, and a zero with a minus sign, are kept as
they are spelled. Members of an object keep their order, and a name may come twice.
-/

namespace Packrat

/-- A string of a document. -/
structure Json.Text where
  /-- Its code points, surrogates among them perhaps. -/
  points : List Nat
deriving DecidableEq, Repr, Inhabited

/-- A document. -/
inductive Json where
  | null
  | bool (b : Bool)
  | integer (n : Int)
  /-- A number that is no integer, as it is spelled. -/
  | fractional (spelling : String)
  | string (text : Json.Text)
  | array (items : List Json)
  | object (members : List (Json.Text × Json))
deriving Inhabited

namespace Json

namespace Text

/-- The text of a string. -/
def ofString (s : String) : Text := ⟨s.toList.map Char.toNat⟩

/-- The string, if every code point is a character. -/
def toString? (t : Text) : Option String :=
  if t.points.all (fun n => decide n.isValidChar) then some (.ofList (t.points.map Char.ofNat))
  else none

end Text

instance : Coe String Text := ⟨Text.ofString⟩

/-- A string. -/
def str (s : String) : Json := string s

/-- A number that counts something. -/
def nat (n : Nat) : Json := integer n

/-- An object with known members. -/
def record (members : List (String × Json)) : Json :=
  object (members.map fun (name, value) => (Text.ofString name, value))

/-- A list of documents. -/
def list {α : Type} (form : α → Json) (items : List α) : Json := array (items.map form)

/-- The first member of an object with a name. -/
def get? (json : Json) (name : String) : Option Json :=
  match json with
  | object members => members.lookup (Text.ofString name)
  | _ => none

/-- A document or `null`. -/
def option {α : Type} (form : α → Json) : Option α → Json
  | some a => form a
  | none => null

end Json

end Packrat
