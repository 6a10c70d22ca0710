import Packrat.Proofs.Dns.Relocation

/-!
# Proofs/Dns/Refusals — which packets are refused, and where

An entry that does not match is reported where it stands (`Entries.Placed`), and it stands behind
the entries that were read before it (`Reader.StopsAt`). Nothing behind a message is read, and no
message is the beginning of another: a message that is cut short does not match, and a message with
something behind it has that left over.

Main statements: `Reader.refusal_placed` and `Reader.read_prefixFree`.
-/

namespace Packrat.Dns

variable {α β γ : Type}

/-! ## Rows of entries -/

/-- The failure of an entry at an offset of the packet: it is reported there, and no attempt got
beyond the packet. -/
structure FailsAt (packet : Array UInt8) (offset : Nat) (f : Fail) : Prop where
  kind : f.kind = .noMatch
  position : f.position = .atByte offset
  between : f.position ≤ f.deepest
  inside : f.deepest ≤ .atByte packet.size

namespace Entries

variable {packet : Array UInt8} {entry : Entries β} {encode : α → List UInt8} {view : α → β}
  {written : List UInt8}

/-- Behind what is written the entries stand in a row, and each is read where it stands. -/
def Row (entry : Entries β) (encode : α → List UInt8) (view : α → β) :
    List UInt8 → List α → Prop
  | _, [] => True
  | written, a :: as => entry.Ends written.length (.ok (view a)) (written ++ encode a).length
    ∧ Row entry encode view (written ++ encode a) as

/-- Behind whatever the packet begins with, the entry reads something that is written there, or it
fails there. -/
def Placed (packet : Array UInt8) (entry : Entries β) (encode : α → List UInt8) (view : α → β) :
    Prop :=
  ∀ written : List UInt8, written <+: packet.toList →
    (∃ a, written ++ encode a <+: packet.toList
      ∧ entry.Ends written.length (.ok (view a)) (written ++ encode a).length) ∨
    ∃ f, FailsAt packet written.length f
      ∧ entry.Ends written.length (.error (.mismatch f)) written.length

/-- **Of a number of entries** all are read, or some of them, and the next one fails behind them. -/
theorem Placed.take (h : entry.Placed packet encode view) (count : Nat)
    (hwritten : written <+: packet.toList) : ∃ as : List α, ∃ reached,
      written ++ as.flatMap encode = reached ∧ reached <+: packet.toList
      ∧ entry.Row encode view written as
      ∧ (as.length = count
          ∧ (Reader.take entry count).Ends written.length (.ok (as.map view)) reached.length ∨
        as.length < count ∧ ∃ f, FailsAt packet reached.length f
          ∧ entry.Ends reached.length (.error (.mismatch f)) reached.length
          ∧ (Reader.take entry count).Ends written.length (.error (.mismatch f))
            reached.length) := by
  induction count generalizing written with
  | zero =>
    exact ⟨[], written, List.append_nil _, hwritten, trivial, .inl ⟨rfl, ends_pure [] _⟩⟩
  | succ count ih =>
    obtain ⟨a, ha, hends⟩ | ⟨f, hf, hends⟩ := h written hwritten
    · obtain ⟨as, reached, hreached, hbegins, hrow, htake⟩ := ih ha
      refine ⟨a :: as, reached, ?_, hbegins, ⟨hends, hrow⟩, ?_⟩
      · rw [← hreached, List.flatMap_cons, List.append_assoc]
      · obtain ⟨hlength, hread⟩ | ⟨hlength, f, hf, hfail, hstop⟩ := htake
        · exact .inl ⟨congrArg Nat.succ hlength, hends.bind (hread.bind (ends_pure _ _))⟩
        · exact .inr ⟨Nat.succ_lt_succ hlength, f, hf, hfail, hends.bind hstop.bind_error⟩
    · exact ⟨[], written, List.append_nil _, hwritten, trivial,
        .inr ⟨Nat.succ_pos count, f, hf, hends, hends.bind_error⟩⟩

end Entries

/-! ## The beginning of a message -/

/-- How many records a header counts, in all sections. -/
def Wire.recordCount (h : Header) : Nat :=
  h.answerCount.toNat + h.authorityCount.toNat + h.additionalCount.toNat

/-- The beginning of a message: the header, and some of the entries that it counts. -/
structure Wire.Opening where
  header : Header
  questions : List Wire.Question
  /-- The records of all sections. -/
  records : List Wire.Record

namespace Wire.Opening

def encode (o : Opening) : List UInt8 :=
  encodeHeader o.header ++ o.questions.flatMap Question.encode ++ o.records.flatMap Record.encode

/-- There are as many entries as the header counts. -/
structure IsComplete (o : Opening) : Prop where
  questions : o.questions.length = o.header.questionCount.toNat
  records : o.records.length = recordCount o.header

end Wire.Opening

namespace Reader

/-- Reads the header. -/
def nextHeader (reader : Reader) (packet : Array UInt8) (config : Config) : Entries Header :=
  reader.next packet config reader.roots.header Object.header?

/-- Reads a question. -/
def nextQuestion (reader : Reader) (packet : Array UInt8) (config : Config) : Entries Question :=
  reader.next packet config reader.roots.question Object.question?

/-- Reads a record. -/
def nextRecord (reader : Reader) (packet : Array UInt8) (config : Config) :
    Entries ResourceRecord :=
  reader.next packet config reader.roots.record Object.record?

variable {reader : Reader} {packet : Array UInt8} {config : Config} {root : Handle}

/-- The packet begins so, and each of the entries is read where it stands. -/
structure HasRead (reader : Reader) (packet : Array UInt8) (config : Config) (o : Wire.Opening) :
    Prop where
  begins : o.encode <+: packet.toList
  header : (reader.nextHeader packet config).Ends 0 (.ok o.header)
    (Wire.encodeHeader o.header).length
  questions : (reader.nextQuestion packet config).Row Wire.Question.encode Wire.Question.read
    (Wire.encodeHeader o.header) o.questions
  records : (reader.nextRecord packet config).Row Wire.Record.encode Wire.Record.read
    (Wire.encodeHeader o.header ++ o.questions.flatMap Wire.Question.encode) o.records

/-- The first entry that cannot be read, behind all that could: how it fails, and where it is. -/
inductive StopsAt (reader : Reader) (packet : Array UInt8) (config : Config) (f : Fail) : Nat → Prop
  | header (h : (reader.nextHeader packet config).Ends 0 (.error (.mismatch f)) 0) :
    StopsAt reader packet config f 0
  | question (o : Wire.Opening) (hread : reader.HasRead packet config o) (hrecords : o.records = [])
    (hless : o.questions.length < o.header.questionCount.toNat)
    (h : (reader.nextQuestion packet config).Ends o.encode.length (.error (.mismatch f))
      o.encode.length) : StopsAt reader packet config f o.encode.length
  | record (o : Wire.Opening) (hread : reader.HasRead packet config o)
    (hquestions : o.questions.length = o.header.questionCount.toNat)
    (hless : o.records.length < Wire.recordCount o.header)
    (h : (reader.nextRecord packet config).Ends o.encode.length (.error (.mismatch f))
      o.encode.length) : StopsAt reader packet config f o.encode.length

/-! ## Entries in place -/

/-- A failure at the start of the rest of a packet is, in the packet, one at the offset of the rest.
-/
theorem failsAt_relocate {offset : Nat} {f : Fail}
    (h : f.Within .start (Input.drop offset ⟨packet⟩).stop) (hkind : f.kind = .noMatch)
    (hstart : f.position = .start) (hoffset : offset ≤ packet.size) (hsize : packet.size < 2 ^ 61) :
    FailsAt packet offset (relocate offset f) := by
  rw [relocate_eq_shift h hoffset hsize]
  refine ⟨hkind, ?_, Cursor.shift_le_shift.2 h.between.le, ?_⟩
  · change f.position.shift offset = _
    rw [hstart]
    exact congrArg Cursor.atByte (Nat.zero_add offset)
  · have hdeepest : f.deepest.shift offset ≤ (Input.drop offset ⟨packet⟩).stop.shift offset :=
      Cursor.shift_le_shift.2 h.behind.le
    rwa [Input.shift_stop_drop hoffset] at hdeepest

/-- An entry of a format, all failures of which are reported where it was tried. -/
theorem placed_next {object : α → Object} {made : α → β} {f : Scan α} {fits : α → Prop}
    {encode : α → List UInt8} (hpure : reader.grammar.PureCallbacks)
    (hroot : reader.grammar.Owns root) (hstart : reader.grammar.AtStart root.index)
    (h : reader.grammar.Reads root.index f fun a => some (.user (object a)))
    (hdecodes : f.Decodes fits encode) (view : Object → Option β)
    (hview : ∀ a, view (object a) = some (made a)) (hsize : packet.size < 2 ^ 61)
    (config : Config) : (reader.next packet config root view).Placed packet encode made := by
  rintro written ⟨rest, hwritten⟩
  have htotal : (written ++ rest).length = packet.size :=
    (congrArg List.length hwritten).trans Array.length_toList
  rw [List.length_append] at htotal
  have hoffset : written.length ≤ packet.size := by omega
  have hfollows := follows_next hpure hroot h view hview hsize config written.length hoffset
  rw [← hwritten, List.drop_left] at hfollows
  obtain ⟨fail, hs, hkind, hends⟩ | ⟨m, b, -, -, hends⟩ :=
    ends_next hpure hroot h.toTypes view hview packet written.length
  · have hwithin : fail.Within .start (Input.drop written.length ⟨packet⟩).stop :=
      hs.within (.of_bitPosition_le (Nat.succ_pos 7) (Nat.succ_pos 7) (Nat.zero_le _))
    exact .inr ⟨_, failsAt_relocate hwithin hkind (hstart hs) hoffset hsize, hends config⟩
  · cases hf : f rest with
    | none =>
      rw [hf] at hfollows
      obtain ⟨fail, offset', hends'⟩ := hfollows
      cases (hends config).unique hends'
    | some ar =>
      rw [hf] at hfollows
      obtain ⟨a, rest'⟩ := ar
      obtain ⟨offset', hoffset', hrest', hends'⟩ := hfollows
      obtain ⟨-, rfl⟩ := (hdecodes _ _ _).1 hf
      have hleft : rest'.length = packet.size - offset' := by
        rw [hrest', hwritten, List.length_drop, Array.length_toList]
      rw [List.length_append] at htotal
      obtain rfl : offset' = (written ++ encode a).length := by
        rw [List.length_append]
        omega
      exact .inl ⟨a, ⟨rest', by rw [List.append_assoc, hwritten]⟩, hends'⟩

/-- Failures of the roots are reported where they were tried. -/
theorem atStart_roots (h : make = .ok reader) :
    reader.grammar.AtStart reader.roots.header.index
      ∧ reader.grammar.AtStart reader.roots.question.index
      ∧ reader.grammar.AtStart reader.roots.record.index := by
  -- there is one reader only, and what its roots are is seen from it
  have hmade : make.toOption.all fun reader =>
      reader.grammar.makesOfParts reader.roots.header.index
        && reader.grammar.makesOfParts reader.roots.question.index
        && reader.grammar.makesOfParts reader.roots.record.index := by decide +kernel
  rw [h] at hmade
  simp only [Except.toOption, Option.all_some, Bool.and_eq_true] at hmade
  obtain ⟨⟨header, question⟩, record⟩ := hmade
  exact ⟨Grammar.atStart_of_makesOfParts header, Grammar.atStart_of_makesOfParts question,
    Grammar.atStart_of_makesOfParts record⟩

/-- The roots read or refuse what they are tried on where it stands. -/
theorem placed_roots (hpure : reader.grammar.PureCallbacks)
    (h : ReadsRoots reader.grammar reader.roots) (hmake : make = .ok reader)
    (hsize : packet.size < 2 ^ 61) (config : Config) :
    (reader.nextHeader packet config).Placed packet Wire.encodeHeader id
      ∧ (reader.nextQuestion packet config).Placed packet Wire.Question.encode Wire.Question.read
      ∧ (reader.nextRecord packet config).Placed packet Wire.Record.encode Wire.Record.read := by
  obtain ⟨header, question, record⟩ := atStart_roots hmake
  exact ⟨placed_next hpure h.ownsHeader header h.header Wire.decodes_headerScan Object.header?
      (fun _ => rfl) hsize config,
    placed_next hpure h.ownsQuestion question h.question Wire.Question.decodes_scan
      Object.question? (fun _ => rfl) hsize config,
    placed_next hpure h.ownsRecord record h.record Wire.Record.decodes_scan Object.record?
      (fun _ => rfl) hsize config⟩

/-! ## Refusals -/

/-- Two numbers of entries, one after the other. -/
theorem take_bind_take (entry : Entries β) (m n : Nat) (k : List β → List β → Entries γ) :
    (take entry m >>= fun as => take entry n >>= k as)
      = take entry (m + n) >>= fun as => k (as.take m) (as.drop m) := by
  induction m generalizing k with
  | zero => simp only [take, pure_bind, Nat.zero_add, List.take_zero, List.drop_zero]
  | succ m ih =>
    rw [Nat.succ_add]
    simp only [take, bind_assoc, pure_bind, List.take_succ_cons, List.drop_succ_cons]
    exact bind_congr fun a => ih fun as => k (a :: as)

/-- The message of a header and of entries. -/
def messageOf (header : Header) (questions : List Question) (records : List ResourceRecord) :
    Message :=
  let front := records.take (header.answerCount.toNat + header.authorityCount.toNat)
  { header, questions
    answers := front.take header.answerCount.toNat
    authority := front.drop header.answerCount.toNat
    additional := records.drop (header.answerCount.toNat + header.authorityCount.toNat) }

/-- The records of all sections are read in one row. -/
theorem sections_eq (reader : Reader) (packet : Array UInt8) (config : Config) :
    reader.sections packet config = do
      let header ← reader.nextHeader packet config
      let questions ← take (reader.nextQuestion packet config) header.questionCount.toNat
      let records ← take (reader.nextRecord packet config) (Wire.recordCount header)
      return messageOf header questions records := by
  refine bind_congr fun header => bind_congr fun questions => ?_
  have hfront := take_bind_take (reader.nextRecord packet config) header.answerCount.toNat
    header.authorityCount.toNat fun answers authority => do
      let additional ← take (reader.nextRecord packet config) header.additionalCount.toNat
      return { header, questions, answers, authority, additional : Message }
  exact hfront.trans (take_bind_take _ _ _ fun front additional =>
    pure { header, questions, answers := front.take header.answerCount.toNat,
           authority := front.drop header.answerCount.toNat, additional : Message })

/-- **Reading the entries** stops at the first that cannot be read, or behind the last of those that
the header counts. -/
theorem sections_placed
    (header : (reader.nextHeader packet config).Placed packet Wire.encodeHeader id)
    (question : (reader.nextQuestion packet config).Placed packet Wire.Question.encode
      Wire.Question.read)
    (record : (reader.nextRecord packet config).Placed packet Wire.Record.encode
      Wire.Record.read) :
    (∃ f offset, FailsAt packet offset f ∧ reader.StopsAt packet config f offset
      ∧ (reader.sections packet config).Ends 0 (.error (.mismatch f)) offset) ∨
    ∃ o, reader.HasRead packet config o ∧ o.IsComplete
      ∧ ∃ m, (reader.sections packet config).Ends 0 (.ok m) o.encode.length := by
  rw [sections_eq]
  obtain ⟨h, hbegins, hh⟩ | ⟨f, hf, hh⟩ := header [] List.nil_prefix
  case inr => exact .inl ⟨f, 0, hf, .header hh, hh.bind_error⟩
  rw [List.nil_append] at hbegins hh
  obtain ⟨qs, -, rfl, hbegins, hrow, htake⟩ := question.take h.questionCount.toNat hbegins
  obtain ⟨hcount, hq⟩ | ⟨hless, f, hf, hfail, hq⟩ := htake
  case inr =>
    have hencode : Wire.encodeHeader h ++ qs.flatMap Wire.Question.encode
        = (⟨h, qs, []⟩ : Wire.Opening).encode := (List.append_nil _).symm
    have hread : reader.HasRead packet config ⟨h, qs, []⟩ := ⟨hencode ▸ hbegins, hh, hrow, trivial⟩
    rw [hencode] at hf hfail hq
    exact .inl ⟨f, _, hf, .question _ hread rfl hless hfail, hh.bind hq.bind_error⟩
  obtain ⟨rs, reached, hreached, hbegins, hrow', htake⟩ :=
    record.take (Wire.recordCount h) hbegins
  change (⟨h, qs, rs⟩ : Wire.Opening).encode = reached at hreached
  subst hreached
  have hread : reader.HasRead packet config ⟨h, qs, rs⟩ := ⟨hbegins, hh, hrow, hrow'⟩
  obtain ⟨hcount', hr⟩ | ⟨hless, f, hf, hfail, hr⟩ := htake
  · exact .inr ⟨_, hread, ⟨hcount, hcount'⟩, _,
      hh.bind (hq.bind (hr.bind (Entries.ends_pure _ _)))⟩
  · exact .inl ⟨f, _, hf, .record _ hread hcount hless hfail, hh.bind (hq.bind hr.bind_error)⟩

/-- **Packets are refused where the first unreadable entry starts**: behind the header and all
entries before it, each of which is read there, and at the start of the packet if the header cannot
be read; no attempt gets beyond the packet. Where bytes are left over, they begin behind the header
and all entries that it counts. -/
theorem refusal_placed : ∃ reader, Reader.make = .ok reader ∧
    ∀ packet : Array UInt8, packet.size < 2 ^ 61 → ∀ config,
      (∀ f, (reader.read packet config).outcome = .error (.mismatch f) →
        ∃ offset, FailsAt packet offset f ∧ reader.StopsAt packet config f offset)
      ∧ ∀ offset extra, (reader.read packet config).outcome = .error (.trailingBytes offset extra) →
        (∃ o, reader.HasRead packet config o ∧ o.IsComplete ∧ o.encode.length = offset)
          ∧ 0 < extra ∧ offset + extra = packet.size := by
  obtain ⟨reader, hmake, hpure, hroots⟩ := exists_reader
  refine ⟨reader, hmake, fun packet hsize config => ?_⟩
  obtain ⟨header, question, record⟩ := placed_roots hpure hroots hmake hsize config
  obtain ⟨f, offset, hf, hstop, hends⟩ | ⟨o, hread, hcomplete, m, hends⟩ :=
    sections_placed header question record
  · rw [outcome_of_error hends]
    refine ⟨fun f' heq => ?_, fun _ _ heq => nomatch heq⟩
    obtain rfl : f = f' := Error.mismatch.inj (Except.error.inj heq)
    exact ⟨offset, hf, hstop⟩
  · rw [outcome_of_ok hends]
    refine ⟨fun f heq => ?_, fun offset extra heq => ?_⟩
    · split at heq <;> cases heq
    · split at heq
      · next hless =>
        obtain ⟨rfl, rfl⟩ := Error.trailingBytes.inj (Except.error.inj heq)
        exact ⟨⟨o, hread, hcomplete, rfl⟩, by omega, by omega⟩
      · cases heq

theorem scan_lookup : Wire.Message.scan lookup.encode = some (lookup, []) := by decide +kernel

theorem scan_lookup_cut : Wire.Message.scan lookup.encode.dropLast = none := by decide +kernel

/-- The last byte of an answer is missing, or there is one byte too many. -/
theorem refusal_placed_lookup : ∃ reader, Reader.make = .ok reader
    ∧ (⟨lookup.encode.dropLast⟩ : Array UInt8).size < 2 ^ 61
    ∧ (∃ f, (reader.read ⟨lookup.encode.dropLast⟩).outcome = .error (.mismatch f)
      ∧ ∃ offset, FailsAt ⟨lookup.encode.dropLast⟩ offset f
        ∧ reader.StopsAt ⟨lookup.encode.dropLast⟩ {} f offset)
    ∧ (⟨lookup.encode ++ [0]⟩ : Array UInt8).size < 2 ^ 61
    ∧ (reader.read ⟨lookup.encode ++ [0]⟩).outcome = .error (.trailingBytes 39 1)
    ∧ (∃ o, reader.HasRead ⟨lookup.encode ++ [0]⟩ {} o ∧ o.IsComplete ∧ o.encode.length = 39)
      ∧ 0 < 1 ∧ 39 + 1 = (⟨lookup.encode ++ [0]⟩ : Array UInt8).size := by
  obtain ⟨reader, hmake, h⟩ := refusal_placed
  obtain ⟨reader', hmake', hpure, hroots⟩ := exists_reader
  obtain rfl := Except.ok.inj (hmake.symm.trans hmake')
  have hcut : (⟨lookup.encode.dropLast⟩ : Array UInt8).size < 2 ^ 61 := by decide +kernel
  have hmore : (⟨lookup.encode ++ [0]⟩ : Array UInt8).size < 2 ^ 61 := by decide +kernel
  have hcut' := outcome_read hpure hroots hcut {}
  have hmore' := outcome_read hpure hroots hmore {}
  rw [scan_lookup_cut] at hcut'
  rw [Wire.Message.decodes_scan.append scan_lookup] at hmore'
  obtain ⟨f, hf⟩ := hcut'
  exact ⟨reader, hmake, hcut, ⟨f, hf, (h _ hcut {}).1 f hf⟩, hmore, hmore',
    (h _ hmore {}).2 39 1 hmore'⟩

/-! ## Prefixes -/

/-- A message is scanned without a rest. -/
theorem scan_of_outcome (hpure : reader.grammar.PureCallbacks)
    (h : ReadsRoots reader.grammar reader.roots) (hsize : packet.size < 2 ^ 61) {m : Message}
    (hread : (reader.read packet config).outcome = .ok m) :
    ∃ w, Wire.Message.scan packet.toList = some (w, []) := by
  have houtcome := outcome_read hpure h hsize config
  cases hscan : Wire.Message.scan packet.toList with
  | none =>
    rw [hscan] at houtcome
    obtain ⟨fail, hfail⟩ := houtcome
    cases hread.symm.trans hfail
  | some wr =>
    obtain ⟨w, rest⟩ := wr
    rw [hscan] at houtcome
    dsimp only at houtcome
    by_cases hrest : rest = []
    · exact ⟨w, by rw [hrest]⟩
    · rw [if_neg hrest] at houtcome
      cases hread.symm.trans houtcome

/-- No callback refuses an entry. -/
theorem kind_of_outcome (hpure : reader.grammar.PureCallbacks)
    (h : ReadsRoots reader.grammar reader.roots) {f : Fail}
    (hread : (reader.read packet config).outcome = .error (.mismatch f)) : f.kind = .noMatch := by
  obtain ⟨r, offset, herror, hends⟩ := steady_entries hpure h packet 0
  obtain rfl := (outcome_of_ends (hends config)).symm.trans hread
  obtain ⟨f', heq, hkind⟩ | ⟨_, _, heq⟩ := herror _ rfl
  · obtain rfl := Error.mismatch.inj heq
    exact hkind
  · cases heq

/-- **No message is the beginning of another.** Whatever is put behind a packet that is a message is
left over, all of it; and a packet that is cut short, wherever it is cut, does not match. -/
theorem read_prefixFree : ∃ reader, Reader.make = .ok reader ∧
    ∀ packet : Array UInt8, packet.size < 2 ^ 61 → ∀ config m,
      (reader.read packet config).outcome = .ok m → ∀ config',
        (∀ more : Array UInt8, 0 < more.size → (packet ++ more).size < 2 ^ 61 →
          (reader.read (packet ++ more) config').outcome
            = .error (.trailingBytes packet.size more.size))
        ∧ ∀ front rest : Array UInt8, front ++ rest = packet → 0 < rest.size →
          ∃ f, (reader.read front config').outcome = .error (.mismatch f) ∧ f.kind = .noMatch := by
  obtain ⟨reader, hmake, hpure, hroots⟩ := exists_reader
  refine ⟨reader, hmake, fun packet hsize config m hread config' => ?_⟩
  obtain ⟨w, hscan⟩ := scan_of_outcome hpure hroots hsize hread
  constructor
  · intro more hmore hsize'
    have houtcome := outcome_read hpure hroots hsize' config'
    rw [Array.toList_append, Wire.Message.decodes_scan.append hscan] at houtcome
    have hne : [] ++ more.toList ≠ [] := List.ne_nil_of_length_pos hmore
    dsimp only at houtcome
    rw [if_neg hne] at houtcome
    rw [houtcome, List.nil_append, Array.length_toList, Array.size_append, Nat.add_sub_cancel]
  · rintro front rest rfl hrest
    rw [Array.size_append] at hsize
    have houtcome := outcome_read hpure hroots (Nat.lt_of_le_of_lt (Nat.le_add_right ..) hsize)
      config'
    cases hfront : Wire.Message.scan front.toList with
    | none =>
      rw [hfront] at houtcome
      obtain ⟨f, hf⟩ := houtcome
      exact ⟨f, hf, kind_of_outcome hpure hroots hf⟩
    | some wr =>
      -- then the whole packet would be read with something left
      have hwhole := Wire.Message.decodes_scan.append hfront rest.toList
      rw [← Array.toList_append, hscan] at hwhole
      have hnil := (Prod.mk.inj (Option.some.inj hwhole)).2
      have hlength := congrArg List.length hnil
      rw [List.length_append, List.length_nil, Array.length_toList] at hlength
      omega

/-- A byte is put behind an answer, and the last byte of its data is cut off. -/
theorem read_prefixFree_lookup : ∃ reader, Reader.make = .ok reader
    ∧ (⟨lookup.encode⟩ : Array UInt8).size < 2 ^ 61
    ∧ (∃ m, (reader.read ⟨lookup.encode⟩).outcome = .ok m)
    ∧ 0 < (#[0] : Array UInt8).size ∧ (⟨lookup.encode⟩ ++ #[0] : Array UInt8).size < 2 ^ 61
    ∧ (reader.read (⟨lookup.encode⟩ ++ #[0])).outcome
      = .error (.trailingBytes (⟨lookup.encode⟩ : Array UInt8).size (#[0] : Array UInt8).size)
    ∧ (⟨lookup.encode.dropLast⟩ ++ #[1] : Array UInt8) = ⟨lookup.encode⟩
    ∧ 0 < (#[1] : Array UInt8).size
    ∧ ∃ f, (reader.read ⟨lookup.encode.dropLast⟩).outcome = .error (.mismatch f)
      ∧ f.kind = .noMatch := by
  obtain ⟨reader, hmake, h⟩ := read_prefixFree
  obtain ⟨reader', hmake', hpure, hroots⟩ := exists_reader
  obtain rfl := Except.ok.inj (hmake.symm.trans hmake')
  have hsize : (⟨lookup.encode⟩ : Array UInt8).size < 2 ^ 61 := by decide +kernel
  have hmore : (⟨lookup.encode⟩ ++ #[0] : Array UInt8).size < 2 ^ 61 := by decide +kernel
  have hcut : (⟨lookup.encode.dropLast⟩ ++ #[1] : Array UInt8) = ⟨lookup.encode⟩ := by
    decide +kernel
  have hread := outcome_read hpure hroots hsize {}
  rw [scan_lookup] at hread
  have hboth := h _ hsize {} _ hread {}
  exact ⟨reader, hmake, hsize, ⟨_, hread⟩, by decide, hmore, hboth.1 _ (by decide) hmore, hcut,
    by decide, hboth.2 _ _ hcut (by decide)⟩

end Reader

end Packrat.Dns
