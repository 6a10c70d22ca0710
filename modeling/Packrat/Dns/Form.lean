import Packrat.Dns.Message
import Packrat.Json.Printer

/-!
# Dns/Form — the documents of DNS messages

The JSON form of a message and of its parts, fields in wire order. Resource data is an object with
one member, named after the layout; names are arrays of labels, bytes arrays of numbers, and
addresses dotted text.
-/

namespace Packrat.Dns

/-- The form of a byte string. -/
def bytesToJson (bytes : List UInt8) : Json := .list (fun b => .nat b.toNat) bytes

/-- The form of an address. -/
def Address.toJson (a : Address) : Json := .str a.toText

/-- The form of a name. -/
def Name.toJson (name : Name) : Json := .list .str name.labels

/-- The form of a header. -/
def Header.toJson (h : Header) : Json := .record [
  ("id", .nat h.id.toNat),
  ("qr", .bool h.qr),
  ("opcode", .nat h.opcode.toNat),
  ("aa", .bool h.aa),
  ("tc", .bool h.tc),
  ("rd", .bool h.rd),
  ("ra", .bool h.ra),
  ("rcode", .nat h.rcode.toNat),
  ("question_count", .nat h.questionCount.toNat),
  ("answer_count", .nat h.answerCount.toNat),
  ("authority_count", .nat h.authorityCount.toNat),
  ("additional_count", .nat h.additionalCount.toNat)]

/-- The form of a question. -/
def Question.toJson (q : Question) : Json := .record [
  ("name", q.name.toJson),
  ("qtype", .nat q.qtype.toNat),
  ("qclass", .nat q.qclass.toNat)]

/-- The form of a start of authority. -/
def Soa.toJson (soa : Soa) : Json := .record [
  ("mname", soa.mname.toJson),
  ("rname", soa.rname.toJson),
  ("serial", .nat soa.serial.toNat),
  ("refresh", .nat soa.refresh.toNat),
  ("retry", .nat soa.retry.toNat),
  ("expire", .nat soa.expire.toNat),
  ("minimum", .nat soa.minimum.toNat)]

/-- The form of resource data. -/
def Rdata.toJson : Rdata → Json
  | a address => .record [("A", address.toJson)]
  | name domain => .record [("Name", domain.toJson)]
  | soa s => .record [("Soa", s.toJson)]
  | null bytes => .record [("Null", bytesToJson bytes)]
  | wks address protocol bitmap => .record [("Wks", .record [
      ("address", address.toJson),
      ("protocol", .nat protocol.toNat),
      ("bitmap", bytesToJson bitmap)])]
  | hinfo cpu os => .record [("Hinfo", .record [("cpu", .str cpu), ("os", .str os)])]
  | minfo rmailbx emailbx => .record [("Minfo", .record [
      ("rmailbx", rmailbx.toJson),
      ("emailbx", emailbx.toJson)])]
  | mx preference exchange => .record [("Mx", .record [
      ("preference", .nat preference.toNat),
      ("exchange", exchange.toJson)])]
  | txt strings => .record [("Txt", .list .str strings)]
  | unparsed bytes => .record [("Unparsed", bytesToJson bytes)]

/-- The form of a record. -/
def ResourceRecord.toJson (r : ResourceRecord) : Json := .record [
  ("name", r.name.toJson),
  ("rtype", .nat r.rtype.toNat),
  ("class", .nat r.rclass.toNat),
  ("ttl", .nat r.ttl.toNat),
  ("rdata", r.rdata.toJson)]

/-- The form of a message. -/
def Message.toJson (m : Message) : Json := .record [
  ("header", m.header.toJson),
  ("questions", .list Question.toJson m.questions),
  ("answers", .list ResourceRecord.toJson m.answers),
  ("authority", .list ResourceRecord.toJson m.authority),
  ("additional", .list ResourceRecord.toJson m.additional)]

/-- A message as indented JSON with a line break behind it. -/
def Message.toJsonText (m : Message) : String := m.toJson.print .pretty ++ "\n"

end Packrat.Dns
