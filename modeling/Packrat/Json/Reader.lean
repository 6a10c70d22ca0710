import Packrat.Json
import Packrat.Hex

/-!
# Json/Reader — reading documents

A reader takes characters and answers with what it read and the characters behind it, or `none`.
The grammar is that of JSON to the letter: four blanks, no leading zeros, no comma behind the last
item, no control characters in strings. A lone surrogate escape is read as a code point of its
own, and the two escapes of a pair as one.

Values are read with a bound on their number and nesting, which `Json.parse?` takes from the
length of the text: every value takes up a character.
-/

namespace Packrat.Json

/-- What a reader makes of a text: a result and the rest of the text. -/
abbrev Reader (α : Type) := List Char → Option (α × List Char)

/-- The text without leading blanks. -/
def skipBlanks (cs : List Char) : List Char :=
  cs.dropWhile fun c => c == ' ' || c == '\t' || c == '\n' || c == '\r'

/-- The text behind an expected character, blanks in front of it skipped. -/
def expect? (c : Char) (cs : List Char) : Option (List Char) :=
  match skipBlanks cs with
  | d :: rest => if c = d then some rest else none
  | [] => none

/-! ## Strings -/

/-- The number that four hexadecimal digits spell. -/
def unit? (a b c d : Char) : Option Nat := do
  let digits ← [a, b, c, d].mapM Hex.digit?
  return digits.foldl (fun n d => n * 16 + d) 0

/-- The code point that a one-letter escape stands for. -/
def shortEscape? : Char → Option Nat
  | '"' => some 0x22
  | '\\' => some 0x5c
  | '/' => some 0x2f
  | 'b' => some 0x08
  | 'f' => some 0x0c
  | 'n' => some 0x0a
  | 'r' => some 0x0d
  | 't' => some 0x09
  | _ => none

/-- Puts a code point behind others, of which the last comes first; a leading surrogate and a
trailing one make up one code point. -/
def pushPoint (n : Nat) : List Nat → List Nat
  | m :: done =>
    if 0xd800 ≤ m ∧ m < 0xdc00 ∧ 0xdc00 ≤ n ∧ n < 0xe000 then
      (0x10000 + (m - 0xd800) * 0x400 + (n - 0xdc00)) :: done
    else n :: m :: done
  | [] => [n]

/-- The code points up to the closing quote, behind those that are `done`, of which the last comes
first. -/
def stringRest (done : List Nat) : Reader Text
  | [] => none
  | '"' :: rest => some (⟨done.reverse⟩, rest)
  | '\\' :: 'u' :: a :: b :: c :: d :: rest =>
    match unit? a b c d with
    | some n => stringRest (pushPoint n done) rest
    | none => none
  | '\\' :: c :: rest =>
    match shortEscape? c with
    | some n => stringRest (n :: done) rest
    | none => none
  | c :: rest => if c.toNat < 0x20 then none else stringRest (c.toNat :: done) rest

/-! ## Numbers -/

/-- The digits in front, at least one. -/
def digits? (cs : List Char) : Option (List Char × List Char) :=
  match cs.span Char.isDigit with
  | ([], _) => none
  | found => some found

/-- The digits of a whole number: a zero stands alone. -/
def wholeDigits? (cs : List Char) : Option (List Char × List Char) := do
  let (digits, rest) ← digits? cs
  if digits.head? = some '0' ∧ digits ≠ ['0'] then none else return (digits, rest)

/-- A fraction, if there is one. -/
def fraction? : Reader (List Char)
  | '.' :: cs => do
    let (digits, rest) ← digits? cs
    return ('.' :: digits, rest)
  | cs => some ([], cs)

/-- An exponent, if there is one. -/
def exponent? : Reader (List Char)
  | c :: cs =>
    if c = 'e' ∨ c = 'E' then
      let (sign, cs) := match cs with
        | '+' :: cs => (['+'], cs)
        | '-' :: cs => (['-'], cs)
        | cs => ([], cs)
      do
        let (digits, rest) ← digits? cs
        return (c :: sign ++ digits, rest)
    else some ([], c :: cs)
  | [] => some ([], [])

/-- The number that decimal digits spell. -/
def decimal (digits : List Char) : Nat :=
  digits.foldl (fun n c => n * 10 + (c.toNat - '0'.toNat)) 0

/-- A number behind its sign. -/
def number? (negative : Bool) : Reader Json := fun cs => do
  let (whole, cs) ← wholeDigits? cs
  let (fraction, cs) ← fraction? cs
  let (exponent, cs) ← exponent? cs
  if fraction.isEmpty ∧ exponent.isEmpty ∧ ¬(negative ∧ whole = ['0']) then
    let n : Int := decimal whole
    return (integer (if negative then -n else n), cs)
  else
    let sign := if negative then ['-'] else []
    return (fractional (.ofList (sign ++ whole ++ fraction ++ exponent)), cs)

/-! ## Values -/

/-- A word in front of the text. -/
def word? (word : String) (json : Json) : Reader Json := fun cs =>
  if word.toList.isPrefixOf cs then some (json, cs.drop word.length) else none

mutual

/-- A value, blanks in front of it skipped. -/
def value? : (bound : Nat) → Reader Json
  | 0, _ => none
  | bound + 1, cs =>
    match skipBlanks cs with
    | '"' :: cs => (stringRest [] cs).map fun (text, rest) => (string text, rest)
    | '[' :: cs =>
      match expect? ']' cs with
      | some rest => some (array [], rest)
      | none => (items? bound #[] cs).map fun (items, rest) => (array items, rest)
    | '\x7b' :: cs =>
      match expect? '\x7d' cs with
      | some rest => some (object [], rest)
      | none => (members? bound #[] cs).map fun (members, rest) => (object members, rest)
    | '-' :: cs => number? true cs
    | 't' :: cs => word? "rue" (bool true) cs
    | 'f' :: cs => word? "alse" (bool false) cs
    | 'n' :: cs => word? "ull" null cs
    | cs => number? false cs

/-- Items behind those that are `done`, and the closing bracket. -/
def items? : (bound : Nat) → (done : Array Json) → Reader (List Json)
  | 0, _, _ => none
  | bound + 1, done, cs => do
    let (item, cs) ← value? bound cs
    match skipBlanks cs with
    | ',' :: cs => items? bound (done.push item) cs
    | ']' :: cs => return ((done.push item).toList, cs)
    | _ => none

/-- Members behind those that are `done`, and the closing brace. -/
def members? : (bound : Nat) → (done : Array (Text × Json)) → Reader (List (Text × Json))
  | 0, _, _ => none
  | bound + 1, done, cs => do
    let cs ← expect? '"' cs
    let (name, cs) ← stringRest [] cs
    let cs ← expect? ':' cs
    let (value, cs) ← value? bound cs
    match skipBlanks cs with
    | ',' :: cs => members? bound (done.push (name, value)) cs
    | '\x7d' :: cs => return ((done.push (name, value)).toList, cs)
    | _ => none

end

/-- The document that a text spells, blanks around it allowed. -/
def parse? (text : String) : Option Json := do
  let cs := text.toList
  let (json, rest) ← value? (cs.length + 1) cs
  if (skipBlanks rest).isEmpty then some json else none

end Packrat.Json
