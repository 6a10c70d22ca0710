import Packrat.Grammar.Error

/-!
# Dns/Error — why a packet is no message

An entry does not match, or bytes are left over behind the entries that the header counts. The other
two errors are about the grammar itself.
-/

namespace Packrat.Dns

/-- Why a packet is no message. -/
inductive Error where
  /-- The grammar cannot be built or run. -/
  | grammar (e : GrammarError)
  /-- An entry does not match; positions count from the start of the packet. -/
  | mismatch (f : Fail)
  /-- Bytes are left over. -/
  | trailingBytes (offset extra : Nat)
  /-- An entry is worth something else than it should be. -/
  | unexpectedValue (found : String)
deriving DecidableEq, Repr

namespace Error

/-- The error in words. -/
def message : Error → String
  | grammar e => e.message
  | mismatch f => f.message
  | trailingBytes offset extra => s!"{extra} bytes after the last record, at byte {offset}"
  | unexpectedValue found => s!"DNS grammar produced a {found} value"

/-- The error's code. -/
def code : Error → String
  | grammar e => e.code
  | mismatch _ => "bitpeg::parse::failed"
  | trailingBytes .. => "bitpeg::dns::trailing_bytes"
  | unexpectedValue _ => "bitpeg::dns::unexpected_value"

/-- Advice. -/
def help? : Error → Option String
  | grammar e => e.help?
  | trailingBytes .. => some "the header counts cover fewer entries than the message holds"
  | mismatch _ | unexpectedValue _ => none

end Error

end Packrat.Dns
