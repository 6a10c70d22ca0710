import Packrat.Dns.Message
import Packrat.Dns.Mnemonic
import Packrat.Text.Styled

/-!
# Dns/Summary — messages for people

A summary has a title line, a line of flags if any is set, and for each section a heading with the
number of its entries and a line for each entry.
-/

namespace Packrat.Dns

open Text (Span)

/-- The title line. -/
def Header.title (h : Header) : Span :=
  let kind := if h.qr then "response" else "query"
  .heading .green
    s!"DNS {kind} 0x{Hex.ofNat 4 h.id.toNat} (opcode {h.opcode}, rcode {h.rcode})\n"

/-- The names of the flags that are set. -/
def Header.flags (h : Header) : List String :=
  ([(h.aa, "aa"), (h.tc, "tc"), (h.rd, "rd"), (h.ra, "ra")].filter (·.1)).map (·.2)

/-- The line of flags, if any is set. -/
def Header.flagLine (h : Header) : List Span :=
  if h.flags.isEmpty then [] else [.plain ("flags: " ++ " ".intercalate h.flags ++ "\n")]

/-- A section with its heading. -/
def sectionSpans {α : Type} (title : String) (line : α → String) (entries : List α) : List Span :=
  [.heading .yellow title, .plain s!": {entries.length}\n"] ++
    entries.map fun entry => .plain (line entry)

/-- The line for a question. -/
def Question.line (q : Question) : String :=
  s!"  {q.name.toText} {className q.qclass.toNat} {typeName q.qtype.toNat}\n"

/-- The line for a record. -/
def ResourceRecord.line (r : ResourceRecord) : String :=
  s!"  {r.name.toText} {className r.rclass.toNat} {typeName r.rtype.toNat} " ++
    s!"ttl={r.ttl} {r.rdata.toText}\n"

/-- The summary of a message. -/
def Message.summary (m : Message) : List Span :=
  m.header.title :: m.header.flagLine ++
    sectionSpans "questions" Question.line m.questions ++
    sectionSpans "answers" ResourceRecord.line m.answers ++
    sectionSpans "authority" ResourceRecord.line m.authority ++
    sectionSpans "additional" ResourceRecord.line m.additional

end Packrat.Dns
