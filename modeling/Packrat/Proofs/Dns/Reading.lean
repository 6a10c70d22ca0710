import Packrat.Proofs.Dns.Layout
import Packrat.Proofs.Input.Shift

/-!
# Proofs/Dns/Reading — reading packets entry by entry

An entry is read at an offset, and what comes of it depends on the offset alone (`Entries.Ends`).
Whatever the settings, it is the same, and either a part of the message or a plain failure
(`Entries.Steady`); and it is what the scan of the entry makes of the rest of the packet
(`Entries.Follows`). Both hold of whole messages, because they hold of one entry and are kept when
computations are put together.

Main statements: `outcome_steady` and `outcome_decodes`.
-/

namespace Packrat.Dns

variable {α β : Type}

/-- The error is about the packet: an entry does not match, or there are bytes behind the last. -/
def Error.OfPacket (e : Error) : Prop :=
  (∃ f, e = .mismatch f ∧ f.kind = .noMatch) ∨ ∃ offset extra, e = .trailingBytes offset extra

/-! ## Computations -/

namespace Entries

/-- At the offset the computation comes to `r`, and stands at another offset then. -/
def Ends (c : Entries α) (offset : Nat) (r : Except Error α) (offset' : Nat) : Prop :=
  ∀ p : Progress, p.offset = offset → ∃ reports, c.run.run p = (r, ⟨offset', reports⟩)

variable {c : Entries α} {f : α → Entries β} {a : α} {offset offset' offset'' : Nat} {e : Error}
  {r : Except Error β}

theorem ends_pure (a : α) (offset : Nat) : (pure a : Entries α).Ends offset (.ok a) offset := by
  rintro p rfl
  exact ⟨p.reports, rfl⟩

theorem run_get_bind (f : Progress → Entries α) (p : Progress) :
    (get >>= f).run.run p = (f p).run.run p := rfl

theorem run_modify_bind (g : Progress → Progress) (f : Unit → Entries α) (p : Progress) :
    (modify g >>= f).run.run p = (f ()).run.run (g p) := rfl

theorem Ends.bind (hc : c.Ends offset (.ok a) offset') (hf : (f a).Ends offset' r offset'') :
    (c >>= f).Ends offset r offset'' := by
  intro p hp
  obtain ⟨reports, hrun⟩ := hc p hp
  rw [ExceptT.run_bind, StateT.run_bind, hrun]
  exact hf _ rfl

theorem Ends.bind_error (hc : c.Ends offset (.error e) offset') :
    (c >>= f).Ends offset (.error e) offset' := by
  intro p hp
  obtain ⟨reports, hrun⟩ := hc p hp
  rw [ExceptT.run_bind, StateT.run_bind, hrun]
  exact ⟨reports, rfl⟩

/-- At an offset the computation comes to one thing. -/
theorem Ends.unique {r r' : Except Error α} (h : c.Ends offset r offset')
    (h' : c.Ends offset r' offset'') : r = r' := by
  obtain ⟨reports, hrun⟩ := h ⟨offset, #[]⟩ rfl
  obtain ⟨reports', hrun'⟩ := h' ⟨offset, #[]⟩ rfl
  exact (Prod.mk.inj (hrun.symm.trans hrun')).1

/-- Whatever the settings, the computation ends in the same way, and neither in an error of the
grammar nor in one about a value. -/
def Steady (c : Config → Entries α) : Prop :=
  ∀ offset, ∃ r offset', (∀ e, r = .error e → e.OfPacket) ∧
    ∀ config, (c config).Ends offset r offset'

theorem steady_pure (a : α) : Steady fun _ => pure a := fun offset =>
  ⟨.ok a, offset, fun _ he => (nomatch he), fun _ => ends_pure a offset⟩

theorem Steady.bind {c : Config → Entries α} {f : α → Config → Entries β} (hc : Steady c)
    (hf : ∀ a, Steady (f a)) : Steady fun config => c config >>= fun a => f a config := by
  intro offset
  obtain ⟨r, offset', herror, hends⟩ := hc offset
  cases r with
  | error e =>
    exact ⟨.error e, offset', fun _ he => herror _ (congrArg Except.error (Except.error.inj he)),
      fun config => (hends config).bind_error⟩
  | ok a =>
    obtain ⟨r, offset'', herror, hends'⟩ := hf a offset'
    exact ⟨r, offset'', herror, fun config => (hends config).bind (hends' config)⟩

/-- What is left of the packet is read as the scan reads it, and `view` says what is made of it. -/
def Follows (packet : Array UInt8) (c : Entries β) (f : Scan α) (view : α → β) : Prop :=
  ∀ offset ≤ packet.size, match f (packet.toList.drop offset) with
    | some (a, rest) => ∃ offset' ≤ packet.size, rest = packet.toList.drop offset'
      ∧ c.Ends offset (.ok (view a)) offset'
    | none => ∃ fail offset', c.Ends offset (.error (.mismatch fail)) offset'

theorem follows_pure {packet : Array UInt8} (a : α) (view : α → β) :
    (pure (view a) : Entries β).Follows packet (pure a) view := fun offset hoffset =>
  ⟨offset, hoffset, rfl, ends_pure (view a) offset⟩

theorem Follows.bind {γ δ : Type} {packet : Array UInt8} {c : Entries β} {f : Scan α} {view : α → β}
    {next : β → Entries δ} {f' : α → Scan γ} {view' : γ → δ} (hc : c.Follows packet f view)
    (hnext : ∀ a, (next (view a)).Follows packet (f' a) view') :
    (c >>= next).Follows packet (f >>= f') view' := by
  intro offset hoffset
  have h := hc offset hoffset
  rw [Scan.bind_apply]
  cases hf : f (packet.toList.drop offset) with
  | none =>
    rw [hf] at h
    obtain ⟨fail, offset', hends⟩ := h
    exact ⟨fail, offset', hends.bind_error⟩
  | some ar =>
    rw [hf] at h
    obtain ⟨a, rest⟩ := ar
    obtain ⟨offset', hoffset', rfl, hends⟩ := h
    have h' := hnext a offset' hoffset'
    rw [Option.bind_some]
    dsimp only
    cases hf' : f' a (packet.toList.drop offset') with
    | none =>
      rw [hf'] at h'
      obtain ⟨fail, offset'', hends'⟩ := h'
      exact ⟨fail, offset'', hends.bind hends'⟩
    | some br =>
      rw [hf'] at h'
      obtain ⟨offset'', hoffset'', hrest, hends'⟩ := h'
      exact ⟨offset'', hoffset'', hrest, hends.bind hends'⟩

end Entries

namespace Reader

variable {reader : Reader} {packet : Array UInt8} {config : Config} {root : Handle}
  {view : Object → Option β} {p : Progress} {report : Report Object Unit}

/-- What reading an entry makes of the run on the rest of the packet. -/
theorem run_next
    (h : reader.grammar.run config root (Input.drop p.offset ⟨packet⟩) () = .ok report) :
    (reader.next packet config root view).run.run p = match report.result with
      | .error f =>
        (.error (.mismatch (relocate p.offset f)), ⟨p.offset, p.reports.push report⟩)
      | .ok success => (match success.value.user?.bind view with
          | some a => .ok a
          | none => .error (.unexpectedValue success.value.typeName),
        ⟨p.offset + success.cursor.bytesSpanned, p.reports.push report⟩) := by
  have h' : reader.grammar.run config root ⟨packet.extract p.offset packet.size⟩ ()
      = .ok report := h
  rw [next, Entries.run_get_bind]
  dsimp only
  rw [h']
  dsimp only
  rw [Entries.run_modify_bind]
  cases report.result with
  | error f => rfl
  | ok s =>
    dsimp only
    rw [Entries.run_modify_bind]
    cases s.value.user?.bind view <;> rfl

variable {object : α → Object} {made : α → β}

/-- **An entry is read alike whatever the settings**: it matches and gives what was made of it, or
it fails where it stands. -/
theorem ends_next (hpure : reader.grammar.PureCallbacks) (hroot : reader.grammar.Owns root)
    (h : reader.grammar.Types root.index fun a => some (.user (object a)))
    (view : Object → Option β) (hview : ∀ a, view (object a) = some (made a))
    (packet : Array UInt8) (offset : Nat) :
    (∃ f, reader.grammar.Settles (Input.drop offset ⟨packet⟩) root.index .start
          (Input.drop offset ⟨packet⟩).stop (.error f)
        ∧ f.kind = .noMatch ∧ ∀ config, (reader.next packet config root view).Ends offset
          (.error (.mismatch (relocate offset f))) offset) ∨
      ∃ m b, reader.grammar.Settles (Input.drop offset ⟨packet⟩) root.index .start
          (Input.drop offset ⟨packet⟩).stop (.ok m)
        ∧ m.shown.user?.bind view = some b ∧ ∀ config, (reader.next packet config root view).Ends
          offset (.ok b) (offset + m.stop.bytesSpanned) := by
  obtain ⟨step, hs, hrun⟩ := Grammar.run_sane hpure hroot h.sane (Input.drop offset ⟨packet⟩) ()
  cases step with
  | error f =>
    refine .inl ⟨f, hs, h.sane.noMatch hs, ?_⟩
    rintro config p rfl
    obtain ⟨report, hreport, hresult, -⟩ := hrun config
    exact ⟨p.reports.push report, by rw [run_next hreport, hresult]; rfl⟩
  | ok m =>
    obtain ⟨a, ha⟩ := h.value hs
    have hmade : m.shown.user?.bind view = some (made a) := by
      rw [Match.shown, ha]
      exact hview a
    refine .inr ⟨m, made a, hs, hmade, ?_⟩
    rintro config p rfl
    obtain ⟨report, hreport, hresult, -⟩ := hrun config
    refine ⟨p.reports.push report, ?_⟩
    rw [run_next hreport, hresult]
    change (match m.shown.user?.bind view with | some a => _ | none => _, _) = _
    rw [hmade]

theorem steady_next (hpure : reader.grammar.PureCallbacks) (hroot : reader.grammar.Owns root)
    (h : reader.grammar.Types root.index fun a => some (.user (object a)))
    (view : Object → Option β) (hview : ∀ a, view (object a) = some (made a))
    (packet : Array UInt8) : Entries.Steady fun config => reader.next packet config root view := by
  intro offset
  obtain ⟨f, -, hkind, hends⟩ | ⟨m, b, -, -, hends⟩ :=
    ends_next hpure hroot h view hview packet offset
  · refine ⟨_, _, fun e he => ?_, hends⟩
    obtain rfl := Except.error.inj he
    exact .inl ⟨_, rfl, hkind⟩
  · exact ⟨.ok b, _, fun _ he => (nomatch he), hends⟩

theorem steady_take {entry : Config → Entries α} (h : Entries.Steady entry) (count : Nat) :
    Entries.Steady fun config => take (entry config) count := by
  induction count with
  | zero => exact Entries.steady_pure []
  | succ count ih => exact h.bind fun a => ih.bind fun as => Entries.steady_pure (a :: as)

/-- What an entry has in front of it. -/
theorem slice_drop (packet : Array UInt8) (offset mid : Nat) :
    (Input.drop offset ⟨packet⟩).slice mid (Input.drop offset ⟨packet⟩).bytes.size
      = packet.toList.drop (offset + mid) := by
  have hbytes : (Input.drop offset ⟨packet⟩).bytes.toList = packet.toList.drop offset :=
    (Input.slice_eq_drop_take : Input.slice ⟨packet⟩ offset packet.size = _).trans
      (congrArg (List.drop offset) (List.take_of_length_le (Nat.le_refl _)))
  rw [Input.slice_eq_drop_take, List.take_of_length_le (Nat.le_of_eq Array.length_toList), hbytes,
    List.drop_drop]

/-- **An entry is read as its scan reads it.** -/
theorem follows_next {f : Scan α} (hpure : reader.grammar.PureCallbacks)
    (hroot : reader.grammar.Owns root)
    (h : reader.grammar.Reads root.index f fun a => some (.user (object a)))
    (view : Object → Option β) (hview : ∀ a, view (object a) = some (made a))
    (hsize : packet.size < 2 ^ 61) (config : Config) :
    (reader.next packet config root view).Follows packet f made := by
  intro offset hoffset
  have hlength : (Input.drop offset ⟨packet⟩).bytes.size = packet.size - offset := Input.size_drop
  have hword : 8 * (Input.drop offset ⟨packet⟩).bytes.size < wordBound :=
    eight_mul_lt_wordBound (by omega)
  have hrest := slice_drop packet offset
  have hwhole := hrest 0
  rw [Nat.add_zero] at hwhole
  rw [← hwhole]
  obtain ⟨fail, hs, -, hends⟩ | ⟨m, b, hs, hb, hends⟩ :=
    ends_next hpure hroot h.toTypes view hview packet offset
  · rw [h.eq_none (Nat.zero_le _) (Nat.le_refl _) hword hs]
    exact ⟨_, _, hends config⟩
  · obtain ⟨a, mid, rfl, -, hmid, hf⟩ := h.eq_some (Nat.zero_le _) (Nat.le_refl _) hword hs
    rw [hf]
    obtain rfl : made a = b := Option.some.inj ((hview a).symm.trans hb)
    exact ⟨offset + mid, by omega, hrest mid, hends config⟩

/-- What is done behind the last entry. -/
theorem ends_last (packet : Array UInt8) (a : α) (offset : Nat) :
    Entries.Ends (do
        let offset := (← get).offset
        if offset < packet.size then throw (.trailingBytes offset (packet.size - offset))
        return a)
      offset
      (if offset < packet.size then .error (.trailingBytes offset (packet.size - offset))
        else .ok a)
      offset := by
  rintro p rfl
  refine ⟨p.reports, ?_⟩
  rw [Entries.run_get_bind]
  dsimp only
  split <;> rfl

theorem steady_entries (hpure : reader.grammar.PureCallbacks)
    (h : ReadsRoots reader.grammar reader.roots) (packet : Array UInt8) :
    Entries.Steady (reader.entries packet) := by
  have header := steady_next hpure h.ownsHeader h.header.toTypes Object.header?
    (fun _ => rfl) packet
  have question := steady_next hpure h.ownsQuestion h.question.toTypes Object.question?
    (fun _ => rfl) packet
  have record := steady_next hpure h.ownsRecord h.record.toTypes Object.record?
    (fun _ => rfl) packet
  refine header.bind fun header => ?_
  refine (steady_take question _).bind fun questions => ?_
  refine (steady_take record _).bind fun answers => ?_
  refine (steady_take record _).bind fun authority => ?_
  refine (steady_take record _).bind fun additional offset => ?_
  refine ⟨_, offset, fun e he => ?_, fun _ => ends_last packet _ offset⟩
  split at he
  · cases he
    exact .inr ⟨_, _, rfl⟩
  · cases he

theorem follows_take {entry : Entries β} {f : Scan α} {view : α → β}
    (h : entry.Follows packet f view) (count : Nat) :
    (take entry count).Follows packet (f.times count) (List.map view) := by
  induction count with
  | zero => exact Entries.follows_pure [] (List.map view)
  | succ count ih =>
    exact h.bind fun a => ih.bind fun as => Entries.follows_pure (a :: as) (List.map view)

/-- Reads all entries of a message, and does not look at what is behind them. -/
def sections (reader : Reader) (packet : Array UInt8) (config : Config) : Entries Message := do
  let question := reader.next packet config reader.roots.question Object.question?
  let record := reader.next packet config reader.roots.record Object.record?
  let header ← reader.next packet config reader.roots.header Object.header?
  let questions ← take question header.questionCount.toNat
  let answers ← take record header.answerCount.toNat
  let authority ← take record header.authorityCount.toNat
  let additional ← take record header.additionalCount.toNat
  return { header, questions, answers, authority, additional }

theorem entries_eq (reader : Reader) (packet : Array UInt8) (config : Config) :
    reader.entries packet config = reader.sections packet config >>= fun m => do
      let offset := (← get).offset
      if offset < packet.size then throw (.trailingBytes offset (packet.size - offset))
      return m := by
  simp only [entries, sections, bind_assoc, pure_bind]

theorem follows_sections (hpure : reader.grammar.PureCallbacks)
    (h : ReadsRoots reader.grammar reader.roots) (hsize : packet.size < 2 ^ 61) (config : Config) :
    (reader.sections packet config).Follows packet Wire.Message.scan Wire.Message.read := by
  have header : (reader.next packet config reader.roots.header Object.header?).Follows packet
      Wire.headerScan id :=
    follows_next hpure h.ownsHeader h.header Object.header? (fun _ => rfl) hsize config
  have question := follows_next hpure h.ownsQuestion h.question Object.question?
    (fun _ => rfl) hsize config
  have record := follows_next hpure h.ownsRecord h.record Object.record?
    (fun _ => rfl) hsize config
  refine header.bind fun header => ?_
  refine (follows_take question _).bind fun questions => ?_
  refine (follows_take record _).bind fun answers => ?_
  refine (follows_take record _).bind fun authority => ?_
  refine (follows_take record _).bind fun additional => ?_
  exact Entries.follows_pure { header, questions, answers, authority, additional } Wire.Message.read

/-- What the entries come to is what reading the packet comes to. -/
theorem outcome_of_ends {r : Except Error Message} {offset : Nat}
    (h : (reader.entries packet config).Ends 0 r offset) :
    (reader.read packet config).outcome = r := by
  obtain ⟨reports, hrun⟩ := h {} rfl
  rw [read, hrun]

/-- An entry that fails ends the reading. -/
theorem outcome_of_error {e : Error} {offset : Nat}
    (h : (reader.sections packet config).Ends 0 (.error e) offset) :
    (reader.read packet config).outcome = .error e :=
  outcome_of_ends (entries_eq reader packet config ▸ h.bind_error)

/-- Behind the last entry there may be nothing. -/
theorem outcome_of_ok {m : Message} {offset : Nat}
    (h : (reader.sections packet config).Ends 0 (.ok m) offset) :
    (reader.read packet config).outcome =
      if offset < packet.size then .error (.trailingBytes offset (packet.size - offset))
      else .ok m :=
  outcome_of_ends (entries_eq reader packet config ▸ h.bind (ends_last packet m offset))

/-- **A packet is read as the scan of messages reads it**, and nothing may be left. -/
theorem outcome_read (hpure : reader.grammar.PureCallbacks)
    (h : ReadsRoots reader.grammar reader.roots) (hsize : packet.size < 2 ^ 61) (config : Config) :
    match Wire.Message.scan packet.toList with
    | some (m, rest) => (reader.read packet config).outcome = if rest = [] then .ok m.read
      else .error (.trailingBytes (packet.size - rest.length) rest.length)
    | none => ∃ fail, (reader.read packet config).outcome = .error (.mismatch fail) := by
  have hfollows := follows_sections hpure h hsize config 0 (Nat.zero_le _)
  rw [List.drop_zero] at hfollows
  cases hscan : Wire.Message.scan packet.toList with
  | none =>
    rw [hscan] at hfollows
    obtain ⟨fail, offset, hends⟩ := hfollows
    exact ⟨fail, outcome_of_error hends⟩
  | some mr =>
    rw [hscan] at hfollows
    obtain ⟨m, rest⟩ := mr
    obtain ⟨offset, hoffset, rfl, hends⟩ := hfollows
    have hlength : (packet.toList.drop offset).length = packet.size - offset := List.length_drop
    refine (outcome_of_ok hends).trans ?_
    rw [hlength, Nat.sub_sub_self hoffset]
    by_cases hless : offset < packet.size
    · rw [if_pos hless, if_neg fun hempty => ?_]
      rw [hempty, List.length_nil] at hlength
      omega
    · rw [if_neg hless, if_pos (List.length_eq_zero_iff.1 (by omega))]

/-! ## Messages -/

/-- **Reading does not depend on the settings, and nothing goes wrong in it**: a packet is a
message, or an entry of it does not match, or something is left over. No callback refuses
anything. -/
theorem read_steady : ∃ reader, Reader.make = .ok reader ∧
    (∀ packet, ∃ r, (∀ e, r = .error e → e.OfPacket) ∧ ∀ config,
      (reader.read packet config).outcome = r) ∧
    ∀ root ∈ [reader.roots.header, reader.roots.question, reader.roots.record],
      ∀ input config, ∃ report, reader.grammar.run config root input () = .ok report
        ∧ (∀ f, report.result = .error f → f.kind = .noMatch)
        ∧ ∀ kind start message, .rejected kind start message ∉ report.trace.toList := by
  obtain ⟨reader, hmake, hpure, hroots⟩ := exists_reader
  refine ⟨reader, hmake, fun packet => ?_, ?_⟩
  · obtain ⟨r, offset, herror, hends⟩ := steady_entries hpure hroots packet 0
    refine ⟨r, herror, fun config => ?_⟩
    obtain ⟨reports, hrun⟩ := hends config {} rfl
    rw [read, hrun]
  · have hrun {root : Handle} (howns : reader.grammar.Owns root)
        (hsane : reader.grammar.Sane root.index) (input : Input) (config : Config) :
        ∃ report, reader.grammar.run config root input () = .ok report
          ∧ (∀ f, report.result = .error f → f.kind = .noMatch)
          ∧ ∀ kind start message, .rejected kind start message ∉ report.trace.toList := by
      obtain ⟨step, hs, hrun⟩ := Grammar.run_sane hpure howns hsane input ()
      obtain ⟨report, hreport, hresult, haccepted⟩ := hrun config
      refine ⟨report, hreport, fun f hf => ?_, haccepted⟩
      rw [hresult] at hf
      cases step with
      | ok m => cases hf
      | error f' =>
        obtain rfl := Except.error.inj hf
        exact hsane.noMatch hs
    simp only [List.forall_mem_cons, List.not_mem_nil, false_implies, implies_true, and_true]
    exact ⟨hrun hroots.ownsHeader hroots.header.sane, hrun hroots.ownsQuestion hroots.question.sane,
      hrun hroots.ownsRecord hroots.record.sane⟩

/-- **A packet is a message just if it is written as one**, and the message is what is written
there: every number and every label, and so many entries as the header counts. Any bytes are data of
any type, in one way only. If the labels and strings of a packet are text, the packet can be had
back from the message. -/
theorem read_decodes : (∀ type bytes, ∃! d : Wire.Rdata, d.Fits type ∧ d.encode = bytes) ∧
    ∃ reader, Reader.make = .ok reader ∧ ∀ packet : Array UInt8, packet.size < 2 ^ 61 → ∀ config,
      (∀ m, (reader.read packet config).outcome = .ok m ↔
        ∃ w : Wire.Message, w.Fits ∧ packet.toList = w.encode ∧ w.read = m)
      ∧ ∀ w : Wire.Message, w.Fits → packet.toList = w.encode → w.IsText →
        ∃ m, (reader.read packet config).outcome = .ok m ∧ m.write.encode = packet.toList := by
  obtain ⟨reader, hmake, hpure, hroots⟩ := exists_reader
  refine ⟨Wire.Rdata.existsUnique_fits, reader, hmake, fun packet hsize config => ?_⟩
  have houtcome := outcome_read hpure hroots hsize config
  have hread : ∀ m, (reader.read packet config).outcome = .ok m ↔
      ∃ w : Wire.Message, w.Fits ∧ packet.toList = w.encode ∧ w.read = m := by
    intro m
    have hdecodes (w : Wire.Message) : Wire.Message.scan packet.toList = some (w, []) ↔
        w.Fits ∧ packet.toList = w.encode := Wire.Message.decodes_scan.fills _ w
    simp only [← and_assoc, ← hdecodes]
    cases hscan : Wire.Message.scan packet.toList with
    | none =>
      rw [hscan] at houtcome
      obtain ⟨fail, hfail⟩ := houtcome
      rw [hfail]
      exact iff_of_false (fun h => nomatch h) fun ⟨_, h, _⟩ => nomatch h
    | some wr =>
      rw [hscan] at houtcome
      obtain ⟨w, rest⟩ := wr
      dsimp only at houtcome
      rw [houtcome]
      simp only [Option.some.injEq, Prod.mk.injEq]
      split
      · next hrest => simp [hrest]
      · next hrest => exact iff_of_false (fun h => nomatch h) fun ⟨_, h, _⟩ => hrest h.2
  refine ⟨hread, fun w hfits hencode htext => ⟨w.read, (hread _).2 ⟨w, hfits, hencode, rfl⟩, ?_⟩⟩
  rw [Wire.Message.write_read htext, hencode]

/-- A question, and an address for an answer. -/
def lookup : Wire.Message where
  header := { (default : Header) with
    id := 0x1234, qr := true, rd := true, questionCount := 1, answerCount := 1 }
  questions := [⟨⟨[[0x61, 0x62], [0x63]]⟩, 1, 1⟩]
  answers := [⟨⟨[[0x63]]⟩, 1, 1, 60, .a ⟨0x7F000001⟩⟩]
  authority := []
  additional := []

theorem read_decodes_lookup : ∃ reader, Reader.make = .ok reader
    ∧ (#[0x12, 0x34, 0x81, 0, 0, 1, 0, 1, 0, 0, 0, 0, 2, 0x61, 0x62, 1, 0x63, 0, 0, 1, 0, 1,
      1, 0x63, 0, 0, 1, 0, 1, 0, 0, 0, 60, 0, 4, 127, 0, 0, 1] : Array UInt8).size < 2 ^ 61
    ∧ lookup.Fits ∧ lookup.IsText ∧ ∃ m,
      (reader.read #[0x12, 0x34, 0x81, 0, 0, 1, 0, 1, 0, 0, 0, 0, 2, 0x61, 0x62, 1, 0x63, 0, 0, 1,
        0, 1, 1, 0x63, 0, 0, 1, 0, 1, 0, 0, 0, 60, 0, 4, 127, 0, 0, 1]).outcome = .ok m
      ∧ m.write.encode = [0x12, 0x34, 0x81, 0, 0, 1, 0, 1, 0, 0, 0, 0, 2, 0x61, 0x62, 1, 0x63, 0,
        0, 1, 0, 1, 1, 0x63, 0, 0, 1, 0, 1, 0, 0, 0, 60, 0, 4, 127, 0, 0, 1] := by
  have hfits : lookup.Fits := by
    refine ⟨⟨by decide, by decide⟩, rfl, rfl, rfl, rfl, fun q hq => ?_, fun r hr => ?_⟩
    · obtain rfl := List.mem_singleton.1 hq
      exact ⟨by simp [Wire.Name.Fits], by decide, .inl rfl, .inl rfl⟩
    · obtain rfl := List.mem_singleton.1 hr
      exact ⟨by simp [Wire.Name.Fits], rfl, rfl, .inl rfl, by decide⟩
  have htext : lookup.IsText := by
    refine ⟨fun q hq => ?_, fun r hr => ?_⟩
    · obtain rfl := List.mem_singleton.1 hq
      exact List.forall_mem_cons.2 ⟨rfl, List.forall_mem_singleton.2 rfl⟩
    · obtain rfl := List.mem_singleton.1 hr
      exact ⟨List.forall_mem_singleton.2 rfl, trivial⟩
  obtain ⟨-, reader, hmake, h⟩ := read_decodes
  obtain ⟨-, hback⟩ := h #[0x12, 0x34, 0x81, 0, 0, 1, 0, 1, 0, 0, 0, 0, 2, 0x61, 0x62, 1, 0x63,
    0, 0, 1, 0, 1, 1, 0x63, 0, 0, 1, 0, 1, 0, 0, 0, 60, 0, 4, 127, 0, 0, 1] (by decide) {}
  exact ⟨reader, hmake, by decide, hfits, htext, hback lookup hfits (by decide +kernel) htext⟩

end Reader

end Packrat.Dns
