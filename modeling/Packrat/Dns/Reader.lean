import Packrat.Dns.Grammar
import Packrat.Dns.Error
import Packrat.Log

/-!
# Dns/Reader — reading whole packets

A message is read entry by entry: the header, then as many questions and records as it counts, each
with its own run at the place where the last one stopped. Nothing may be left over. Failures are
reported where they are in the packet.
-/

namespace Packrat.Dns

/-- The grammar of messages, ready for use. -/
structure Reader where
  grammar : Grammar Object Unit
  roots : Roots

/-- Builds a reader. -/
def Reader.make : Except GrammarError Reader :=
  let (roots, builder) := layout.run.run (Builder.new 0)
  do return { grammar := ← builder.finish, roots := ← roots }

/-- How far a packet was read. -/
structure Progress where
  offset : Nat := 0
  /-- The runs so far. -/
  reports : Array (Report Object Unit) := #[]

/-- A computation while a packet is read. -/
abbrev Entries (α : Type) := ExceptT Error (StateM Progress) α

/-- The failure in a packet that holds the input from an offset on. -/
def relocate (offset : Nat) (f : Fail) : Fail :=
  let shift (c : Cursor) := (c.advanceBytes? offset).getD c
  { f with position := shift f.position, deepest := shift f.deepest }

/-- What reading a packet came to. -/
structure Reading where
  outcome : Except Error Message
  /-- The runs, one per entry. -/
  reports : Array (Report Object Unit)

namespace Reader

/-- Reads the next entry. -/
def next {α : Type} (reader : Reader) (packet : Array UInt8) (config : Config) (root : Handle)
    (view : Object → Option α) : Entries α := do
  let offset := (← get).offset
  match reader.grammar.run config root ⟨packet.extract offset packet.size⟩ () with
  | .error e => throw (.grammar e)
  | .ok report =>
    modify fun p => { p with reports := p.reports.push report }
    match report.result with
    | .error f => throw (.mismatch (relocate offset f))
    | .ok success =>
      modify fun p => { p with offset := offset + success.cursor.bytesSpanned }
      match success.value.user?.bind view with
      | some a => return a
      | none => throw (.unexpectedValue success.value.typeName)

/-- Reads a number of entries. -/
def take {α : Type} (entry : Entries α) : (count : Nat) → Entries (List α)
  | 0 => return []
  | count + 1 => do
    let a ← entry
    return a :: (← take entry count)

/-- Reads all entries of a message. -/
def entries (reader : Reader) (packet : Array UInt8) (config : Config) : Entries Message := do
  let question := reader.next packet config reader.roots.question Object.question?
  let record := reader.next packet config reader.roots.record Object.record?
  let header ← reader.next packet config reader.roots.header Object.header?
  let questions ← take question header.questionCount.toNat
  let answers ← take record header.answerCount.toNat
  let authority ← take record header.authorityCount.toNat
  let additional ← take record header.additionalCount.toNat
  let offset := (← get).offset
  if offset < packet.size then throw (.trailingBytes offset (packet.size - offset))
  return { header, questions, answers, authority, additional }

/-- Reads a packet. -/
def read (reader : Reader) (packet : Array UInt8) (config : Config := {}) : Reading :=
  let (outcome, progress) := (reader.entries packet config).run.run {}
  { outcome, reports := progress.reports }

end Reader

/-- The log of reading a packet. -/
def Reading.log (reader : Reader) (reading : Reading) : List Log.Line :=
  let runs := reading.reports.toList.flatMap (Report.log reader.grammar)
  match reading.outcome with
  | .ok m => runs ++ [⟨.debug, s!"dns message 0x{Hex.ofNat 4 m.header.id.toNat}: " ++
      s!"{m.questions.length} questions, {m.records.length} records"⟩]
  | .error _ => runs

end Packrat.Dns
