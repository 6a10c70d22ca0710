import Packrat.Callback.Library
import Packrat.Dns.Message
import Packrat.Utf8

/-!
# Dns/Object — making the parts of a message from what was matched

The actions of the DNS grammar. Each takes the value of a match apart and puts an `Object` in its
place: sequences hold the fields in wire order, numbers come as integers, strings as bytes that are
read as text, and smaller parts as objects made before.
-/

namespace Packrat.Dns

/-- A part of a message that an action made. -/
inductive Object where
  | header (header : Header)
  | name (name : Name)
  | question (question : Question)
  | rdata (rdata : Rdata)
  | record (record : ResourceRecord)
deriving DecidableEq, Repr, Inhabited

namespace Object

/-- The header that an object is. -/
def header? : Object → Option Header
  | header h => some h
  | _ => none

/-- The name that an object is. -/
def name? : Object → Option Name
  | name n => some n
  | _ => none

/-- The question that an object is. -/
def question? : Object → Option Question
  | question q => some q
  | _ => none

/-- The resource data that an object is. -/
def rdata? : Object → Option Rdata
  | rdata d => some d
  | _ => none

/-- The record that an object is. -/
def record? : Object → Option ResourceRecord
  | record r => some r
  | _ => none

end Object

/-- What an action makes of a value. -/
abbrev Made (α : Type) := Except CallbackError α

/-! ## Taking values apart -/

/-- The items of a sequence. -/
def items (v : Value Object) : Made (List (Value Object)) :=
  match v.sequence? with
  | some items => .ok items
  | none => .error (.rejected s!"expected a sequence, got {v.typeName}")

/-- The bytes of a byte string. -/
def octets (v : Value Object) : Made (List UInt8) :=
  match v.bytes? with
  | some bytes => .ok bytes
  | none => .error (.rejected s!"expected bytes, got {v.typeName}")

/-- The text of a byte string. -/
def text (v : Value Object) : Made String := Utf8.decodeLossy <$> octets v

/-- A field of a sequence. -/
def field (fields : List (Value Object)) (i : Nat) : Made (Value Object) :=
  match fields[i]? with
  | some v => .ok v
  | none => .error (.rejected s!"missing field {i}")

/-- A number below a bound. -/
def number (bound : Nat) (fields : List (Value Object)) (i : Nat) : Made Nat := do
  match (← field fields i).word? with
  | some n =>
    if n < bound then .ok n
    else .error (.rejected s!"field {i} is not an integer in range")
  | none => .error (.rejected s!"field {i} is not an integer in range")

/-- An octet. -/
def octet (fields : List (Value Object)) (i : Nat) : Made UInt8 :=
  UInt8.ofNat <$> number 0x100 fields i

/-- A word of two octets. -/
def word (fields : List (Value Object)) (i : Nat) : Made UInt16 :=
  UInt16.ofNat <$> number 0x10000 fields i

/-- A word of four octets. -/
def long (fields : List (Value Object)) (i : Nat) : Made UInt32 :=
  UInt32.ofNat <$> number 0x100000000 fields i

/-- A part that was made before. -/
def part {α : Type} (view : Object → Option α) (fields : List (Value Object)) (i : Nat) :
    Made α := do
  let v ← field fields i
  match v.user?.bind view with
  | some a => .ok a
  | none => .error (.rejected s!"field {i} is a {v.typeName} value")

/-! ## Making parts -/

/-- The header made of twelve fields. -/
def makeHeader (v : Value Object) : Made Header := do
  let f ← items v
  let flag (i : Nat) : Made Bool := (· != 0) <$> octet f i
  return {
    id := ← word f 0
    qr := ← flag 1
    opcode := ← octet f 2
    aa := ← flag 3
    tc := ← flag 4
    rd := ← flag 5
    ra := ← flag 6
    rcode := ← octet f 7
    questionCount := ← word f 8
    answerCount := ← word f 9
    authorityCount := ← word f 10
    additionalCount := ← word f 11 }

/-- The name made of labels and the root behind them. -/
def makeName (v : Value Object) : Made Name := do
  let labels ← items (← field (← items v) 0)
  return ⟨← labels.mapM text⟩

/-- The question made of a name, a type and a class. -/
def makeQuestion (v : Value Object) : Made Question := do
  let f ← items v
  return { name := ← part Object.name? f 0, qtype := ← word f 1, qclass := ← word f 2 }

/-- The data of an address record. -/
def makeA (v : Value Object) : Made Rdata := do
  return .a ⟨← long [v] 0⟩

/-- The data of a record that holds one name. -/
def makeNameRdata (v : Value Object) : Made Rdata := do
  return .name (← part Object.name? [v] 0)

/-- The data of a start of authority. -/
def makeSoa (v : Value Object) : Made Rdata := do
  let f ← items v
  return .soa {
    mname := ← part Object.name? f 0
    rname := ← part Object.name? f 1
    serial := ← long f 2
    refresh := ← long f 3
    retry := ← long f 4
    expire := ← long f 5
    minimum := ← long f 6 }

/-- Data of any kind. -/
def makeNull (v : Value Object) : Made Rdata := .null <$> octets v

/-- The data of a record of well-known services. -/
def makeWks (v : Value Object) : Made Rdata := do
  let f ← items v
  return .wks ⟨← long f 0⟩ (← octet f 1) (← octets (← field f 2))

/-- The data of a host information record. -/
def makeHinfo (v : Value Object) : Made Rdata := do
  let f ← items v
  return .hinfo (← text (← field f 0)) (← text (← field f 1))

/-- The data of a mailbox information record. -/
def makeMinfo (v : Value Object) : Made Rdata := do
  let f ← items v
  return .minfo (← part Object.name? f 0) (← part Object.name? f 1)

/-- The data of a mail exchange record. -/
def makeMx (v : Value Object) : Made Rdata := do
  let f ← items v
  return .mx (← word f 0) (← part Object.name? f 1)

/-- The data of a text record. -/
def makeTxt (v : Value Object) : Made Rdata := do
  return .txt (← (← items v).mapM text)

/-- Data that does not fit its type. -/
def makeUnparsed (v : Value Object) : Made Rdata := .unparsed <$> octets v

/-- The record made of a name, a type, a class, a time to live and data. -/
def makeRecord (v : Value Object) : Made ResourceRecord := do
  let f ← items v
  return {
    name := ← part Object.name? f 0
    rtype := ← word f 1
    rclass := ← word f 2
    ttl := ← long f 3
    rdata := ← part Object.rdata? f 4 }

/-- The action that puts an object in the place of a value. -/
def making {α : Type} (object : α → Object) (make : Value Object → Made α) : Action Object Unit :=
  .ofFunction fun v => (make v).map fun a => .user (object a)

end Packrat.Dns
