import Packrat.Json
import Packrat.Hex

/-!
# Json/Printer — writing documents

Documents are written on one line without blanks, or indented. Strings escape the quote, the
backslash and the control characters; surrogates are always escaped, and all other characters
beyond ASCII if the style says so. Empty arrays and objects take no line of their own.
-/

namespace Packrat.Json

/-- How documents are laid out. -/
structure Style where
  /-- Blanks per level, or everything on one line. -/
  indent : Option Nat := none
  /-- Whether every character beyond ASCII is escaped. -/
  asciiOnly : Bool := false
deriving DecidableEq, Repr

/-- One line without blanks. -/
def Style.compact : Style := {}

/-- Two blanks a level. -/
def Style.pretty : Style := { indent := some 2 }

/-- A 16-bit unit as an escape. -/
def escapeUnit (n : Nat) : String := "\\u" ++ Hex.ofNat 4 n

/-- A code point as an escape, or as two beyond 16 bits. -/
def escapePoint (n : Nat) : String :=
  if n < 0x10000 then escapeUnit n
  else
    escapeUnit (0xd800 + (n - 0x10000) / 0x400) ++ escapeUnit (0xdc00 + (n - 0x10000) % 0x400)

/-- A code point as it stands in a string. -/
def printPoint (style : Style) (n : Nat) : String :=
  if n = 0x22 then "\\\""
  else if n = 0x5c then "\\\\"
  else if n = 0x08 then "\\b"
  else if n = 0x09 then "\\t"
  else if n = 0x0a then "\\n"
  else if n = 0x0c then "\\f"
  else if n = 0x0d then "\\r"
  else if n < 0x20 ∨ ¬n.isValidChar ∨ (style.asciiOnly ∧ 0x7f ≤ n) then escapePoint n
  else (Char.ofNat n).toString

/-- A string with its quotes. -/
def Text.print (style : Style) (t : Text) : String :=
  "\"" ++ String.join (t.points.map (printPoint style)) ++ "\""

/-- What stands between a name and its value. -/
def Style.colon (style : Style) : String := if style.indent.isSome then ": " else ":"

/-- The line break in front of an item at a depth. -/
def Style.breakAt (style : Style) (depth : Nat) : String :=
  match style.indent with
  | some blanks => "\n" ++ String.ofList (List.replicate (blanks * depth) ' ')
  | none => ""

mutual

/-- A text followed by a document, the first line of which is at a depth. -/
def printOnto (style : Style) (depth : Nat) (out : String) : Json → String
  | null => out ++ "null"
  | bool b => out ++ if b then "true" else "false"
  | integer n => out ++ toString n
  | fractional spelling => out ++ spelling
  | string t => out ++ t.print style
  | array [] => out ++ "[]"
  | array items =>
    let inner := style.breakAt (depth + 1)
    printItems style (depth + 1) (out ++ "[" ++ inner) inner items ++ style.breakAt depth ++ "]"
  | object [] => out ++ "\x7b\x7d"
  | object members =>
    let inner := style.breakAt (depth + 1)
    printMembers style (depth + 1) (out ++ "\x7b" ++ inner) inner members ++
      style.breakAt depth ++ "\x7d"

/-- A text followed by the items of an array, each on a line that `next` begins. -/
def printItems (style : Style) (depth : Nat) (out next : String) : List Json → String
  | [] => out
  | [item] => printOnto style depth out item
  | item :: items =>
    printItems style depth (printOnto style depth out item ++ "," ++ next) next items

/-- A text followed by the members of an object, each on a line that `next` begins. -/
def printMembers (style : Style) (depth : Nat) (out next : String) : List (Text × Json) → String
  | [] => out
  | [(name, value)] => printOnto style depth (out ++ name.print style ++ style.colon) value
  | (name, value) :: members =>
    printMembers style depth
      (printOnto style depth (out ++ name.print style ++ style.colon) value ++ "," ++ next) next
      members

end

/-- A document as text. -/
def print (style : Style) (json : Json) : String := printOnto style 0 "" json

end Packrat.Json
