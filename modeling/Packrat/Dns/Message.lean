import Packrat.Text.Quoted

/-!
# Dns/Message — what a DNS message says

The parts of a message as the wire format has them, numbers in words of their size. Resource data
is a sum over the layouts that the known types of records have; data that does not fit its type's
layout is kept as bytes. The texts are those of zone files, more or less.
-/

namespace Packrat.Dns

/-! ## Addresses and names -/

/-- An address of the Internet, version 4. -/
structure Address where
  /-- Its four octets, the first in the high byte. -/
  word : UInt32
deriving DecidableEq, Repr, Inhabited

/-- One of the four octets, counted from the left. -/
def Address.octet (a : Address) (i : Nat) : Nat := (a.word.toNat >>> (8 * (3 - i))) % 256

/-- The address in dotted form. -/
def Address.toText (a : Address) : String :=
  s!"{a.octet 0}.{a.octet 1}.{a.octet 2}.{a.octet 3}"

/-- A domain name. -/
structure Name where
  /-- Its labels, the root's left out. -/
  labels : List String
deriving DecidableEq, Repr, Inhabited

/-- The name with a dot behind every label; the root is a dot alone. -/
def Name.toText (name : Name) : String :=
  if name.labels.isEmpty then "." else String.join (name.labels.map (· ++ "."))

/-! ## Headers and questions -/

/-- The header of a message. -/
structure Header where
  id : UInt16
  /-- Whether the message is a response. -/
  qr : Bool
  opcode : UInt8
  /-- Whether the answer is authoritative. -/
  aa : Bool
  /-- Whether the message is truncated. -/
  tc : Bool
  /-- Whether recursion is desired. -/
  rd : Bool
  /-- Whether recursion is available. -/
  ra : Bool
  rcode : UInt8
  questionCount : UInt16
  answerCount : UInt16
  authorityCount : UInt16
  additionalCount : UInt16
deriving DecidableEq, Repr, Inhabited

/-- An entry of the question section. -/
structure Question where
  name : Name
  qtype : UInt16
  qclass : UInt16
deriving DecidableEq, Repr, Inhabited

/-! ## Resource records -/

/-- The start of a zone of authority. -/
structure Soa where
  /-- The primary server. -/
  mname : Name
  /-- The mailbox of the person in charge. -/
  rname : Name
  serial : UInt32
  refresh : UInt32
  retry : UInt32
  expire : UInt32
  minimum : UInt32
deriving DecidableEq, Repr, Inhabited

/-- Resource data, by layout. -/
inductive Rdata where
  | a (address : Address)
  /-- Types whose data is one name. -/
  | name (name : Name)
  | soa (soa : Soa)
  | null (bytes : List UInt8)
  | wks (address : Address) (protocol : UInt8) (bitmap : List UInt8)
  | hinfo (cpu os : String)
  | minfo (rmailbx emailbx : Name)
  | mx (preference : UInt16) (exchange : Name)
  | txt (strings : List String)
  /-- Data that does not fit its type's layout. -/
  | unparsed (bytes : List UInt8)
deriving DecidableEq, Repr, Inhabited

/-- The data as text; strings are quoted, plain bytes are in hexadecimal. -/
def Rdata.toText : Rdata → String
  | a address => address.toText
  | name domain => domain.toText
  | soa s =>
    s!"{s.mname.toText} {s.rname.toText} " ++
      s!"{s.serial} {s.refresh} {s.retry} {s.expire} {s.minimum}"
  | null bytes | unparsed bytes => Hex.encode bytes
  | wks address protocol bitmap => s!"{address.toText} {protocol} {Hex.encode bitmap}"
  | hinfo cpu os => s!"{Text.quoted cpu} {Text.quoted os}"
  | minfo rmailbx emailbx => s!"{rmailbx.toText} {emailbx.toText}"
  | mx preference exchange => s!"{preference} {exchange.toText}"
  | txt strings => " ".intercalate (strings.map Text.quoted)

/-- A resource record. -/
structure ResourceRecord where
  name : Name
  rtype : UInt16
  rclass : UInt16
  ttl : UInt32
  rdata : Rdata
deriving DecidableEq, Repr, Inhabited

/-- The address that a record carries. -/
def ResourceRecord.address? (record : ResourceRecord) : Option Address :=
  match record.rdata with
  | .a address => some address
  | _ => none

/-! ## Messages -/

/-- A message. -/
structure Message where
  header : Header
  questions : List Question
  answers : List ResourceRecord
  authority : List ResourceRecord
  additional : List ResourceRecord
deriving DecidableEq, Repr, Inhabited

/-- The records of all sections in order. -/
def Message.records (m : Message) : List ResourceRecord := m.answers ++ m.authority ++ m.additional

end Packrat.Dns
