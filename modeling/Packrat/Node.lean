import Packrat.Callback
import Packrat.Charset

/-!
# Node — the combinators of a grammar

A `Node` is one combinator with its arguments. It refers to its children by `ρ`: handles while a
grammar is being built, positions in the grammar afterwards. Recursion is no combinator: it goes
through the placeholders of `Grammar`.

`Node.carriers` is the static view of values that the integer check walks: which children a node's
value may come from.
-/

namespace Packrat

/-- A combinator over children `ρ`, with callbacks on objects `υ` and state `σ`. -/
inductive Node (ρ υ σ : Type) where
  /-- An exact byte string. -/
  | token (bytes : List UInt8)
  /-- One byte. -/
  | byte (b : UInt8)
  /-- One byte of a range. -/
  | byteRange (low high : UInt8)
  /-- One byte of a set. -/
  | byteIn (set : Charset)
  /-- Some bits, as an integer. -/
  | bits (width : Nat) (signed : Bool)
  /-- The end of the window. -/
  | atEnd
  /-- No match. -/
  | never
  /-- The empty match. -/
  | empty
  /-- A child whose integer lies in a range. -/
  | intRange (base : ρ) (low high : Int)
  /-- A child behind skipped blanks. -/
  | whitespace (inner : ρ)
  /-- Two children in a row, of the first's value. -/
  | left (a b : ρ)
  /-- Two children in a row, of the second's value. -/
  | right (a b : ρ)
  /-- Three children in a row, of the second's value. -/
  | middle (a b c : ρ)
  /-- Children in a row. -/
  | sequence (parts : List ρ)
  /-- The first child that matches. -/
  | choice (alternatives : List ρ)
  /-- A child, unless another one matches as far. -/
  | butnot (a b : ρ)
  /-- A child, unless another one matches. -/
  | difference (a b : ρ)
  /-- Exactly one of two children. -/
  | xor (a b : ρ)
  /-- Any number of times a child. -/
  | many (inner : ρ)
  /-- A child once or more often. -/
  | many1 (inner : ρ)
  /-- A child a fixed number of times. -/
  | repeatN (inner : ρ) (count : Nat)
  /-- A child or nothing. -/
  | optional (inner : ρ)
  /-- A child without its value. -/
  | ignore (inner : ρ)
  /-- Items with separators between them, possibly none. -/
  | sepBy (item sep : ρ)
  /-- Items with separators between them, at least one. -/
  | sepBy1 (item sep : ρ)
  /-- A byte count and a child that fills so many bytes. -/
  | lengthValue (length value : ρ)
  /-- A child ahead, nothing consumed. -/
  | and (inner : ρ)
  /-- No child ahead, nothing consumed. -/
  | not (inner : ρ)
  /-- A child whose value an action replaces. -/
  | action (inner : ρ) (act : Action υ σ)
  /-- A child whose value a predicate accepts. -/
  | satisfying (inner : ρ) (accepts : Predicate υ σ)

namespace Node

variable {ρ ρ' υ σ : Type}

/-- Name of the combinator, as logs and messages show it. -/
def kind : Node ρ υ σ → String
  | token _ => "token"
  | byte _ => "ch"
  | byteRange .. => "ch_range"
  | byteIn _ => "charset_in"
  | bits .. => "bits"
  | atEnd => "end_p"
  | never => "nothing_p"
  | empty => "epsilon_p"
  | intRange .. => "int_range"
  | whitespace _ => "whitespace"
  | left .. => "left"
  | right .. => "right"
  | middle .. => "middle"
  | sequence _ => "sequence"
  | choice _ => "choice"
  | butnot .. => "butnot"
  | difference .. => "difference"
  | xor .. => "xor"
  | many _ => "many"
  | many1 _ => "many1"
  | repeatN .. => "repeat_n"
  | optional _ => "optional"
  | ignore _ => "ignore"
  | sepBy .. => "sep_by"
  | sepBy1 .. => "sep_by1"
  | lengthValue .. => "length_value"
  | and _ => "and"
  | not _ => "not"
  | action .. => "action"
  | satisfying .. => "attr_bool"

/-- The children in order of use. -/
def children : Node ρ υ σ → List ρ
  | token _ | byte _ | byteRange .. | byteIn _ | bits .. | atEnd | never | empty => []
  | intRange p .. | whitespace p | many p | many1 p | repeatN p _ | optional p | ignore p | and p
  | not p | action p _ | satisfying p _ => [p]
  | left a b | right a b | butnot a b | difference a b | xor a b | sepBy a b | sepBy1 a b
  | lengthValue a b => [a, b]
  | middle a b c => [a, b, c]
  | sequence ps | choice ps => ps

/-- The node with its children renamed. -/
def map (f : ρ → ρ') : Node ρ υ σ → Node ρ' υ σ
  | token bytes => token bytes
  | byte b => byte b
  | byteRange low high => byteRange low high
  | byteIn set => byteIn set
  | bits width signed => bits width signed
  | atEnd => atEnd
  | never => never
  | empty => empty
  | intRange base low high => intRange (f base) low high
  | whitespace p => whitespace (f p)
  | left a b => left (f a) (f b)
  | right a b => right (f a) (f b)
  | middle a b c => middle (f a) (f b) (f c)
  | sequence ps => sequence (ps.map f)
  | choice ps => choice (ps.map f)
  | butnot a b => butnot (f a) (f b)
  | difference a b => difference (f a) (f b)
  | xor a b => xor (f a) (f b)
  | many p => many (f p)
  | many1 p => many1 (f p)
  | repeatN p count => repeatN (f p) count
  | optional p => optional (f p)
  | ignore p => ignore (f p)
  | sepBy a b => sepBy (f a) (f b)
  | sepBy1 a b => sepBy1 (f a) (f b)
  | lengthValue a b => lengthValue (f a) (f b)
  | and p => and (f p)
  | not p => not (f p)
  | action p act => action (f p) act
  | satisfying p accepts => satisfying (f p) accepts

@[simp]
theorem children_map (f : ρ → ρ') (node : Node ρ υ σ) :
    (node.map f).children = node.children.map f := by
  cases node <;> rfl

/-- The children that the node's value may come from, if the node is one whose value is an integer
whenever theirs are: none of them for a node that reads an integer itself. -/
def carriers : Node ρ υ σ → Option (List ρ)
  | bits .. | byte _ | byteRange .. | byteIn _ | intRange .. => some []
  | whitespace p | satisfying p _ | left p _ | right _ p | middle _ p _ | butnot p _
  | difference p _ | lengthValue _ p => some [p]
  | xor a b => some [a, b]
  | choice ps => some ps
  | _ => none

/-! ## Fixed-width integers and complements -/

/-- A signed integer of whole bytes. -/
def int (bytes : Nat) : Node ρ υ σ := bits (8 * bytes) true

/-- An unsigned integer of whole bytes. -/
def uint (bytes : Nat) : Node ρ υ σ := bits (8 * bytes) false

/-- One byte outside a set. -/
def notIn (set : Charset) : Node ρ υ σ := byteIn set.complement

end Node

end Packrat
