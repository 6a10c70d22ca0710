import Packrat.Grammar.Builder
import Packrat.Dns.Object

/-!
# Dns/Grammar — the wire format of DNS messages

The grammar of RFC 1035 messages without name compression, bit by bit. It has three roots, for the
header, for one question and for one record, because only the header's counts tell where one
section ends and the next begins. Resource data is matched by the record's type inside its length
window; as a last resort any data of a known type is taken as it is.
-/

namespace Packrat.Dns

open Build

/-- The three roots of the grammar. -/
structure Roots where
  header : Handle
  question : Handle
  record : Handle
deriving DecidableEq, Repr

namespace Layout

/-- The header: twelve octets, three bits of which must be zero. -/
def header : Build Object Unit Handle := do
  let id ← add (.bits 16 false)
  let qr ← add (.bits 1 false)
  let opcode ← add (.bits 4 false)
  let aa ← add (.bits 1 false)
  let tc ← add (.bits 1 false)
  let rd ← add (.bits 1 false)
  let ra ← add (.bits 1 false)
  let reserved ← add (.bits 3 false)
  let reserved ← add (.satisfying reserved (.ofFunction fun v => .ok (v.word? == some 0)))
  let reserved ← add (.ignore reserved)
  let rcode ← add (.bits 4 false)
  let questions ← add (.uint 2)
  let answers ← add (.uint 2)
  let authority ← add (.uint 2)
  let additional ← add (.uint 2)
  let header ← add (.sequence
    [id, qr, opcode, aa, tc, rd, ra, reserved, rcode, questions, answers, authority, additional])
  add (.action header (making .header makeHeader))

/-- Numbers of whole octets, and the types and classes among them. -/
structure Numbers where
  octet : Handle
  word : Handle
  long : Handle
  recordType : Handle
  questionType : Handle
  recordClass : Handle
  questionClass : Handle

/-- Words, types and classes. -/
def numbers : Build Object Unit Numbers := do
  let octet ← add (.uint 1)
  let word ← add (.uint 2)
  let long ← add (.uint 4)
  let recordType ← add (.intRange word 1 16)
  let metaType ← add (.intRange word 252 255)
  let questionType ← add (.choice [recordType, metaType])
  let recordClass ← add (.intRange word 1 4)
  let anyClass ← add (.intRange word 255 255)
  let questionClass ← add (.choice [recordClass, anyClass])
  return { octet, word, long, recordType, questionType, recordClass, questionClass }

/-- Octets up to the end of the window, as a sequence and as bytes, and names. -/
structure Names where
  octets : Handle
  bytes : Handle
  /-- A name of at least one label. -/
  questionName : Handle
  domain : Handle

/-- Bytes and names. -/
def names (n : Numbers) : Build Object Unit Names := do
  let octets ← add (.many n.octet)
  let bytes ← add (.action octets .toBytes)
  let labelLength ← add (.intRange n.octet 1 63)
  let label ← add (.lengthValue labelLength octets)
  let label ← add (.action label .toBytes)
  let root ← add (.byte 0)
  let someLabels ← add (.many1 label)
  let questionName ← add (.sequence [someLabels, root])
  let questionName ← add (.action questionName (making .name makeName))
  let labels ← add (.many label)
  let domain ← add (.sequence [labels, root])
  let domain ← add (.action domain (making .name makeName))
  return { octets, bytes, questionName, domain }

/-- A question. -/
def question (n : Numbers) (names : Names) : Build Object Unit Handle := do
  let question ← add (.sequence [names.questionName, n.questionType, n.questionClass])
  add (.action question (making .question makeQuestion))

/-- Resource data in its layouts. -/
structure Data where
  a : Handle
  name : Handle
  soa : Handle
  null : Handle
  wks : Handle
  hinfo : Handle
  minfo : Handle
  mx : Handle
  txt : Handle
  unparsed : Handle

/-- Resource data. -/
def data (n : Numbers) (names : Names) : Build Object Unit Data := do
  let domain := names.domain
  -- a length octet and so many bytes
  let string ← add (.lengthValue n.octet names.octets)
  let string ← add (.action string .toBytes)
  let a ← add (.action n.long (making .rdata makeA))
  let name ← add (.action domain (making .rdata makeNameRdata))
  let soa ← add (.sequence [domain, domain, n.long, n.long, n.long, n.long, n.long])
  let soa ← add (.action soa (making .rdata makeSoa))
  let null ← add (.action names.bytes (making .rdata makeNull))
  let wks ← add (.sequence [n.long, n.octet, names.bytes])
  let wks ← add (.action wks (making .rdata makeWks))
  let hinfo ← add (.sequence [string, string])
  let hinfo ← add (.action hinfo (making .rdata makeHinfo))
  let minfo ← add (.sequence [domain, domain])
  let minfo ← add (.action minfo (making .rdata makeMinfo))
  let mx ← add (.sequence [n.word, domain])
  let mx ← add (.action mx (making .rdata makeMx))
  let txt ← add (.many1 string)
  let txt ← add (.action txt (making .rdata makeTxt))
  let unparsed ← add (.action names.bytes (making .rdata makeUnparsed))
  return { a, name, soa, null, wks, hinfo, minfo, mx, txt, unparsed }

/-- A record: the first layout whose types include the record's and that fits its data. -/
def record (n : Numbers) (names : Names) (data : Data) : Build Object Unit Handle := do
  let type (code : Int) := add (.intRange n.word code code)
  let nameTypes ← [(2, 5), (7, 9), (12, 12)].mapM fun (low, high) =>
    add (.intRange n.word low high)
  let nameType ← add (.choice nameTypes)
  let layouts := [
    (← type 1, data.a), (nameType, data.name), (← type 6, data.soa), (← type 10, data.null),
    (← type 11, data.wks), (← type 13, data.hinfo), (← type 14, data.minfo), (← type 15, data.mx),
    (← type 16, data.txt), (n.recordType, data.unparsed)]
  let records ← layouts.mapM fun (type, data) => do
    let data ← add (.lengthValue n.word data)
    add (.sequence [names.domain, type, n.recordClass, n.long, data])
  let record ← add (.choice records)
  add (.action record (making .record makeRecord))

end Layout

/-- Builds the grammar. -/
def layout : Build Object Unit Roots := do
  let header ← Layout.header
  let numbers ← Layout.numbers
  let names ← Layout.names numbers
  let question ← Layout.question numbers names
  let data ← Layout.data numbers names
  let record ← Layout.record numbers names data
  return { header, question, record }

end Packrat.Dns
