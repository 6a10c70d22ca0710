import Packrat.Dns.Message
import Packrat.Proofs.Utf8
import Packrat.Proofs.Input.Fields

/-!
# Proofs/Dns/Wire — messages as they are written

The parts of a message with bytes in the place of texts, how each is written (`encode`), and which
are fit to be written (`Fits`). What a part says is had by reading its bytes as text (`read`); a
part whose bytes are text can be had back from what it says (`write_read`). Names are written
without compression, and the reserved bits of a header are zero.
-/

namespace Packrat.Dns

namespace Wire

/-! ## Names and texts -/

/-- The bytes behind an octet that counts them. -/
def framed (bytes : List UInt8) : List UInt8 := .ofNat bytes.length :: bytes

/-- A domain name. -/
structure Name where
  /-- The bytes of its labels, the root's left out. -/
  labels : List (List UInt8)
deriving DecidableEq, Repr

/-- Labels are of one to 63 bytes. -/
def Name.Fits (name : Name) : Prop := ∀ label ∈ name.labels, 1 ≤ label.length ∧ label.length ≤ 63

/-- The labels, and the octet of the root. -/
def Name.encode (name : Name) : List UInt8 := name.labels.flatMap framed ++ [0]

/-- The name with its labels read as text. -/
def Name.read (name : Name) : Dns.Name := ⟨name.labels.map Utf8.decodeLossy⟩

/-- The bytes are text. -/
def IsText (bytes : List UInt8) : Prop := (Utf8.decode? bytes).isSome

def Name.IsText (name : Name) : Prop := ∀ label ∈ name.labels, Wire.IsText label

/-! ## Headers and questions -/

/-- How many bits each field of a header has; the eighth is reserved. -/
def headerWidths : List Nat := [16, 1, 4, 1, 1, 1, 1, 3, 4, 16, 16, 16, 16]

/-- The fields of a header. -/
def headerFields (h : Header) : Fields headerWidths :=
  (.ofNat _ h.id.toNat, .ofNat _ h.qr.toNat, .ofNat _ h.opcode.toNat, .ofNat _ h.aa.toNat,
    .ofNat _ h.tc.toNat, .ofNat _ h.rd.toNat, .ofNat _ h.ra.toNat, 0, .ofNat _ h.rcode.toNat,
    .ofNat _ h.questionCount.toNat, .ofNat _ h.answerCount.toNat, .ofNat _ h.authorityCount.toNat,
    .ofNat _ h.additionalCount.toNat, ())

/-- The twelve octets of a header. -/
def encodeHeader (h : Header) : List UInt8 := bytesOf 12 (headerFields h).pack

/-- The codes of a header are of four bits. -/
def FitsHeader (h : Header) : Prop := h.opcode.toNat < 16 ∧ h.rcode.toNat < 16

/-- Whether a number is in a range. -/
def within (low high : Nat) (n : UInt16) : Bool := low ≤ n.toNat ∧ n.toNat ≤ high

/-- An entry of the question section. -/
structure Question where
  name : Name
  qtype : UInt16
  qclass : UInt16
deriving DecidableEq, Repr

/-- A question is about a name of at least one label, and types and classes are known. -/
structure Question.Fits (q : Question) : Prop where
  name : q.name.Fits
  labels : q.name.labels ≠ []
  qtype : within 1 16 q.qtype ∨ within 252 255 q.qtype
  qclass : within 1 4 q.qclass ∨ within 255 255 q.qclass

def Question.encode (q : Question) : List UInt8 :=
  q.name.encode ++ bytesOf 2 q.qtype.toNat ++ bytesOf 2 q.qclass.toNat

def Question.read (q : Question) : Dns.Question := ⟨q.name.read, q.qtype, q.qclass⟩

/-! ## Resource data -/

/-- Resource data, by layout. -/
inductive Rdata where
  | a (address : Address)
  /-- Types whose data is one name. -/
  | name (name : Name)
  | soa (mname rname : Name) (serial refresh retry expire minimum : UInt32)
  | null (bytes : List UInt8)
  | wks (address : Address) (protocol : UInt8) (bitmap : List UInt8)
  | hinfo (cpu os : List UInt8)
  | minfo (rmailbx emailbx : Name)
  | mx (preference : UInt16) (exchange : Name)
  | txt (strings : List (List UInt8))
  /-- Data that does not fit its type's layout. -/
  | unparsed (bytes : List UInt8)
deriving DecidableEq, Repr

namespace Rdata

/-- The data has the layout of the type. -/
def Typed (type : UInt16) : Rdata → Prop
  | a _ => within 1 1 type
  | name n => (within 2 5 type ∨ within 7 9 type ∨ within 12 12 type) ∧ n.Fits
  | soa mname rname .. => within 6 6 type ∧ mname.Fits ∧ rname.Fits
  | null _ => within 10 10 type
  | wks .. => within 11 11 type
  | hinfo cpu os => within 13 13 type ∧ cpu.length < 256 ∧ os.length < 256
  | minfo rmailbx emailbx => within 14 14 type ∧ rmailbx.Fits ∧ emailbx.Fits
  | mx _ exchange => within 15 15 type ∧ exchange.Fits
  | txt strings => within 16 16 type ∧ strings ≠ [] ∧ ∀ s ∈ strings, s.length < 256
  | unparsed _ => False

def encode : Rdata → List UInt8
  | a address => bytesOf 4 address.word.toNat
  | name n => n.encode
  | soa mname rname serial refresh retry expire minimum =>
    mname.encode ++ rname.encode ++ bytesOf 4 serial.toNat ++ bytesOf 4 refresh.toNat
      ++ bytesOf 4 retry.toNat ++ bytesOf 4 expire.toNat ++ bytesOf 4 minimum.toNat
  | null bytes => bytes
  | wks address protocol bitmap => bytesOf 4 address.word.toNat ++ [protocol] ++ bitmap
  | hinfo cpu os => framed cpu ++ framed os
  | minfo rmailbx emailbx => rmailbx.encode ++ emailbx.encode
  | mx preference exchange => bytesOf 2 preference.toNat ++ exchange.encode
  | txt strings => strings.flatMap framed
  | unparsed bytes => bytes

/-- The data has the layout of the type, or it is left as it is because its bytes have not. -/
def Fits (type : UInt16) (d : Rdata) : Prop :=
  d.Typed type ∨ ∃ bytes, d = unparsed bytes ∧ ∀ d' : Rdata, d'.Typed type → d'.encode ≠ bytes

def read : Rdata → Dns.Rdata
  | a address => .a address
  | name n => .name n.read
  | soa mname rname serial refresh retry expire minimum =>
    .soa ⟨mname.read, rname.read, serial, refresh, retry, expire, minimum⟩
  | null bytes => .null bytes
  | wks address protocol bitmap => .wks address protocol bitmap
  | hinfo cpu os => .hinfo (Utf8.decodeLossy cpu) (Utf8.decodeLossy os)
  | minfo rmailbx emailbx => .minfo rmailbx.read emailbx.read
  | mx preference exchange => .mx preference exchange.read
  | txt strings => .txt (strings.map Utf8.decodeLossy)
  | unparsed bytes => .unparsed bytes

/-- Labels and strings are text. -/
def IsText : Rdata → Prop
  | name n => n.IsText
  | soa mname rname .. => mname.IsText ∧ rname.IsText
  | hinfo cpu os => Wire.IsText cpu ∧ Wire.IsText os
  | minfo rmailbx emailbx => rmailbx.IsText ∧ emailbx.IsText
  | mx _ exchange => exchange.IsText
  | txt strings => ∀ s ∈ strings, Wire.IsText s
  | a _ | null _ | wks .. | unparsed _ => True

end Rdata

/-! ## Records and messages -/

/-- A resource record. -/
structure Record where
  name : Name
  rtype : UInt16
  rclass : UInt16
  ttl : UInt32
  rdata : Rdata
deriving DecidableEq, Repr

/-- Type and class are known, and the data fits the type and its count of two octets. -/
structure Record.Fits (r : Record) : Prop where
  name : r.name.Fits
  rtype : within 1 16 r.rtype
  rclass : within 1 4 r.rclass
  rdata : r.rdata.Fits r.rtype
  length : r.rdata.encode.length < 2 ^ 16

def Record.encode (r : Record) : List UInt8 :=
  r.name.encode ++ bytesOf 2 r.rtype.toNat ++ bytesOf 2 r.rclass.toNat ++ bytesOf 4 r.ttl.toNat
    ++ bytesOf 2 r.rdata.encode.length ++ r.rdata.encode

def Record.read (r : Record) : ResourceRecord :=
  ⟨r.name.read, r.rtype, r.rclass, r.ttl, r.rdata.read⟩

/-- A message. -/
structure Message where
  header : Header
  questions : List Question
  answers : List Record
  authority : List Record
  additional : List Record
deriving DecidableEq, Repr

/-- The header counts the entries of each section. -/
structure Message.Fits (m : Message) : Prop where
  header : FitsHeader m.header
  questionCount : m.questions.length = m.header.questionCount.toNat
  answerCount : m.answers.length = m.header.answerCount.toNat
  authorityCount : m.authority.length = m.header.authorityCount.toNat
  additionalCount : m.additional.length = m.header.additionalCount.toNat
  questions : ∀ q ∈ m.questions, q.Fits
  records : ∀ r ∈ m.answers ++ m.authority ++ m.additional, r.Fits

def Message.encode (m : Message) : List UInt8 :=
  encodeHeader m.header ++ m.questions.flatMap Question.encode ++ m.answers.flatMap Record.encode
    ++ m.authority.flatMap Record.encode ++ m.additional.flatMap Record.encode

def Message.read (m : Message) : Dns.Message :=
  ⟨m.header, m.questions.map Question.read, m.answers.map Record.read, m.authority.map Record.read,
    m.additional.map Record.read⟩

/-- All labels and strings are text. -/
def Message.IsText (m : Message) : Prop :=
  (∀ q ∈ m.questions, q.name.IsText) ∧
    ∀ r ∈ m.answers ++ m.authority ++ m.additional, r.name.IsText ∧ r.rdata.IsText

end Wire

/-! ## Writing what is said -/

/-- The bytes of a name. -/
def Name.write (name : Name) : Wire.Name := ⟨name.labels.map Utf8.encode⟩

def Question.write (q : Question) : Wire.Question := ⟨q.name.write, q.qtype, q.qclass⟩

def Rdata.write : Rdata → Wire.Rdata
  | a address => .a address
  | name n => .name n.write
  | soa s =>
    .soa s.mname.write s.rname.write s.serial s.refresh s.retry s.expire s.minimum
  | null bytes => .null bytes
  | wks address protocol bitmap => .wks address protocol bitmap
  | hinfo cpu os => .hinfo (Utf8.encode cpu) (Utf8.encode os)
  | minfo rmailbx emailbx => .minfo rmailbx.write emailbx.write
  | mx preference exchange => .mx preference exchange.write
  | txt strings => .txt (strings.map Utf8.encode)
  | unparsed bytes => .unparsed bytes

def ResourceRecord.write (r : ResourceRecord) : Wire.Record :=
  ⟨r.name.write, r.rtype, r.rclass, r.ttl, r.rdata.write⟩

/-- The bytes of a message. -/
def Message.write (m : Message) : Wire.Message :=
  ⟨m.header, m.questions.map Question.write, m.answers.map ResourceRecord.write,
    m.authority.map ResourceRecord.write, m.additional.map ResourceRecord.write⟩

namespace Wire

theorem map_map_cancel {α β : Type} {f : α → β} {g : β → α} {as : List α}
    (h : ∀ a ∈ as, g (f a) = a) : (as.map f).map g = as := by
  rw [List.map_map]
  exact (List.map_congr_left h).trans (List.map_id as)

theorem Name.write_read {name : Name} (h : name.IsText) : name.read.write = name :=
  congrArg Name.mk (map_map_cancel fun label hl => Utf8.encode_decodeLossy (h label hl))

theorem Rdata.write_read {d : Rdata} (h : d.IsText) : d.read.write = d := by
  cases d with
  | name n => exact congrArg Rdata.name (Name.write_read h)
  | soa mname rname =>
    simp only [read, Dns.Rdata.write, Name.write_read h.1, Name.write_read h.2]
  | hinfo cpu os =>
    simp only [read, Dns.Rdata.write, Utf8.encode_decodeLossy h.1, Utf8.encode_decodeLossy h.2]
  | minfo rmailbx emailbx =>
    simp only [read, Dns.Rdata.write, Name.write_read h.1, Name.write_read h.2]
  | mx preference exchange => simp only [read, Dns.Rdata.write, Name.write_read h]
  | txt strings =>
    exact congrArg Rdata.txt (map_map_cancel fun s hs => Utf8.encode_decodeLossy (h s hs))
  | a | null | wks | unparsed => rfl

theorem Record.write_read {r : Record} (hname : r.name.IsText) (hdata : r.rdata.IsText) :
    r.read.write = r := by
  simp only [read, ResourceRecord.write, Name.write_read hname, Rdata.write_read hdata]

/-- **A message whose bytes are text can be had back from what it says.** -/
theorem Message.write_read {m : Message} (h : m.IsText) : m.read.write = m := by
  obtain ⟨hquestions, hrecords⟩ := h
  have hwritten : ∀ r ∈ m.answers ++ m.authority ++ m.additional, r.read.write = r :=
    fun r hr => Record.write_read (hrecords r hr).1 (hrecords r hr).2
  simp only [List.mem_append, or_imp, forall_and] at hwritten
  obtain ⟨⟨hanswers, hauthority⟩, hadditional⟩ := hwritten
  have hq : (m.questions.map Question.read).map Dns.Question.write = m.questions :=
    map_map_cancel fun q hq => by
      simp only [Question.read, Dns.Question.write, Name.write_read (hquestions q hq)]
  simp only [read, Dns.Message.write, hq, map_map_cancel hanswers, map_map_cancel hauthority,
    map_map_cancel hadditional]

end Wire

end Packrat.Dns
