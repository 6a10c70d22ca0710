import Packrat.Outcome
import Packrat.Hex

/-!
# Grammar/Error — what can be wrong with a grammar

A `Handle` names a node of one particular builder. The errors are those of single constructor calls
and those of the grammar as a whole; each has a message, a code, and sometimes advice.
-/

namespace Packrat

/-- A node of the grammar that a builder makes. Builders and nodes are counted without an end. A
machine counts them in words of 32 bits, and agrees as long as there are fewer than `2 ^ 32`
builders, and fewer than `2 ^ 32` nodes in each. -/
structure Handle where
  /-- The builder's number. -/
  owner : Nat
  /-- The node's position. -/
  index : Nat
deriving DecidableEq, Repr, Inhabited

instance : ToString Handle := ⟨fun h => s!"#{h.index}"⟩

/-- Why a grammar cannot be built. -/
inductive GrammarError where
  | emptyChildren (combinator : String)
  | invalidByteRange (low high : UInt8)
  | invalidIntRange (low high : Int)
  | zeroBitWidth
  | bitWidthTooLarge (width : Nat)
  | notIntegerProducing (combinator : String) (parser : Handle)
  | foreignParser (parser : Handle)
  | notIndirect (parser : Handle)
  | alreadyBound (slot : Slot)
  | unboundSlot (slot : Slot)
deriving DecidableEq, Repr, Inhabited

/-- The two classes of grammar errors. -/
inductive GrammarError.Category where
  /-- An argument of a constructor is not acceptable. -/
  | construction
  /-- The grammar as a whole cannot be used. -/
  | configuration
deriving DecidableEq, Repr

namespace GrammarError

/-- The class that an error belongs to. -/
def category : GrammarError → Category
  | alreadyBound _ | unboundSlot _ => .configuration
  | _ => .construction

/-- The error in words. -/
def message : GrammarError → String
  | emptyChildren combinator => s!"{combinator} requires at least one child parser"
  | invalidByteRange low high =>
    s!"ChRange low 0x{Hex.ofNat 2 low.toNat} > high 0x{Hex.ofNat 2 high.toNat}"
  | invalidIntRange low high => s!"IntRange low {low} > high {high}"
  | zeroBitWidth => "Bits width is zero"
  | bitWidthTooLarge width => s!"Bits width {width} exceeds 64"
  | notIntegerProducing combinator parser =>
    s!"{combinator} base parser {parser} does not produce an integer"
  | foreignParser parser => s!"parser {parser} does not belong to this grammar"
  | notIndirect parser => s!"parser {parser} is not an indirect placeholder"
  | alreadyBound slot => s!"indirect {slot} is already bound"
  | unboundSlot slot => s!"indirect {slot} was never bound"

/-- The error's code. -/
def code : GrammarError → String
  | emptyChildren _ => "bitpeg::grammar::empty_children"
  | invalidByteRange .. => "bitpeg::grammar::char_range"
  | invalidIntRange .. => "bitpeg::grammar::int_range"
  | zeroBitWidth | bitWidthTooLarge _ => "bitpeg::grammar::bit_width"
  | notIntegerProducing .. => "bitpeg::grammar::not_integer"
  | foreignParser _ => "bitpeg::grammar::foreign_parser"
  | notIndirect _ => "bitpeg::grammar::not_indirect"
  | alreadyBound _ => "bitpeg::grammar::rebind"
  | unboundSlot _ => "bitpeg::grammar::unbound"

/-- Advice on how to mend the grammar. -/
def help? : GrammarError → Option String
  | emptyChildren _ => some <|
    "use `epsilon_p()` for a parser that always succeeds, " ++
    "or `nothing_p()` for one that always fails"
  | notIntegerProducing .. => some <|
    "integer-producing parsers are bits, the fixed-width integers, ch, ch_range, charset_in " ++
    "and int_range, possibly wrapped in whitespace/left/right/middle/choice/attr_bool"
  | alreadyBound _ => some "each indirect slot is bound exactly once"
  | unboundSlot _ =>
    some "call `bind_indirect` for every `indirect()` before finishing the grammar"
  | _ => none

end GrammarError

end Packrat
