import Packrat.Proofs.Dns.Reading
import Packrat.Proofs.Engine.Bounds
import Packrat.Proofs.Engine.Shift

/-!
# Proofs/Dns/Relocation — entries in place

An entry is read with a run of its own on the rest of the packet, and a failure is moved to where
the rest begins. That is as good as matching in place (`Reader.inPlace`): what is matched behind the
first bytes of an input and what is matched without them are the same, so many bytes apart.

Main statement: `matcher_relocates`.
-/

namespace Packrat.Dns

variable {β : Type} {k : Nat} {packet : Array UInt8}

/-- A place in the rest of a packet is a place in the packet. -/
theorem byte_add_lt {c : Cursor} (hc : c ≤ (Input.drop k ⟨packet⟩).stop) (hk : k ≤ packet.size)
    (hsize : packet.size < 2 ^ 61) : c.byte + k < wordBound := by
  have hplace : c.shift k ≤ (Input.drop k ⟨packet⟩).stop.shift k := Cursor.shift_le_shift.2 hc
  rw [Input.shift_stop_drop hk, Cursor.le_def] at hplace
  simp only [Cursor.byte_shift, Input.stop, Cursor.atByte] at hplace
  rw [wordBound]
  omega

/-- A failure in the rest of a packet is moved as many bytes as there are in front. -/
theorem relocate_eq_shift {start : Cursor} {f : Fail}
    (h : f.Within start (Input.drop k ⟨packet⟩).stop) (hk : k ≤ packet.size)
    (hsize : packet.size < 2 ^ 61) : relocate k f = f.shift k := by
  have hshift {c : Cursor} (hc : c ≤ (Input.drop k ⟨packet⟩).stop) :
      (c.advanceBytes? k).getD c = c.shift k := by
    rw [Cursor.advanceBytes?, if_pos (byte_add_lt hc hk hsize)]
    rfl
  have hdeepest := h.behind.le
  exact Fail.ext (hshift (Std.le_trans h.between.le hdeepest)) (hshift hdeepest) rfl

namespace Reader

/-- What an entry comes to at an offset of the packet, the window being the rest of it. -/
def stepAt (reader : Reader) (packet : Array UInt8) (config : Config) (root : Handle)
    (offset : Nat) : Step Object :=
  ((reader.grammar.matcher config ⟨packet⟩ config.maxRecursionDepth root.index
    (.atByte offset)).run (.fresh ⟨packet⟩ ())).1

/-- What matching an entry in place reports, and where it ends. -/
def inPlace (reader : Reader) (packet : Array UInt8) (config : Config) (root : Handle)
    (view : Object → Option β) (offset : Nat) : Except Error β × Nat :=
  match reader.stepAt packet config root offset with
  | .error f => (.error (.mismatch f), offset)
  | .ok m => (match m.shown.user?.bind view with
      | some a => .ok a
      | none => .error (.unexpectedValue m.shown.typeName), m.stop.bytesSpanned)

variable {reader : Reader} {root : Handle}

/-- What an entry comes to in place is what it comes to on the rest of the packet, so many bytes
further on. -/
theorem stepAt_eq (hpure : reader.grammar.PureCallbacks) (hroot : reader.grammar.Owns root)
    (hsize : packet.size < 2 ^ 61) (hk : k ≤ packet.size) {config : Config} {step : Step Object}
    {run : Run Object Unit} (h : reader.grammar.Exec config (Input.drop k ⟨packet⟩)
      config.maxRecursionDepth (.entry root.index .start) (.fresh (Input.drop k ⟨packet⟩) ()) step
      run) : reader.stepAt packet config root k = step.shift k := by
  have hword : 8 * packet.size < wordBound := eight_mul_lt_wordBound hsize
  have hstart : Cursor.start.shift k = .atByte k := congrArg Cursor.atByte (Nat.zero_add k)
  obtain ⟨after, hexec, -⟩ := h.shift hpure hk hword (byte_add_lt (Std.le_refl _) hk hsize) rfl
    trivial (.fresh k (Input.drop k ⟨packet⟩).stop () ())
  rw [Input.shift_stop_drop hk, hstart] at hexec
  exact (hexec.unique (Grammar.exec_matcher config.maxRecursionDepth hroot.2 _ _)).1

/-- **An entry is read as it is matched in place.** -/
theorem ends_inPlace (hpure : reader.grammar.PureCallbacks) (hroot : reader.grammar.Owns root)
    (hsize : packet.size < 2 ^ 61) (hk : k ≤ packet.size) (config : Config)
    (view : Object → Option β) : (reader.next packet config root view).Ends k
      (reader.inPlace packet config root view k).1
      (reader.inPlace packet config root view k).2 := by
  rintro p rfl
  obtain ⟨report, step, run, hreport, hexec, hresult, -⟩ :=
    Grammar.exec_run config hroot (Input.drop p.offset ⟨packet⟩) ()
  have hspans : Cursor.start.Spans (Input.drop p.offset ⟨packet⟩).stop :=
    .of_bitPosition_le (Nat.succ_pos 7) (Nat.succ_pos 7) (Nat.zero_le _)
  obtain ⟨hwithin, -⟩ := hexec.inBounds ⟨rfl, hspans⟩ (.fresh _ ())
  refine ⟨p.reports.push report, ?_⟩
  rw [run_next hreport, hresult, inPlace, stepAt_eq hpure hroot hsize hk hexec]
  cases step with
  | error f => exact Prod.ext (congrArg (Except.error ∘ Error.mismatch)
      (relocate_eq_shift hwithin hk hsize)) rfl
  | ok m =>
    have hoffset : (m.stop.shift p.offset).bytesSpanned = p.offset + m.stop.bytesSpanned := by
      rw [Cursor.bytesSpanned_shift, Nat.add_comm]
    exact Prod.ext rfl (congrArg (Progress.mk · _) hoffset.symm)

/-- **Matching does not depend on what is in front.** An entry of a grammar with pure callbacks that
is matched behind the first `k` bytes of an input comes to what it comes to without them, `k` bytes
further on. So reading an entry of a packet with a run on the rest of it, and moving the failure,
reports what matching in place would. -/
theorem matcher_relocates :
    (∀ {υ σ : Type} (g : Grammar υ σ), g.PureCallbacks →
      ∀ (input : Input) (k : Nat), k ≤ input.bytes.size → input.bytes.size < 2 ^ 61 →
      ∀ config budget i, i < g.entries.size →
      ∀ start limit : Cursor, limit.byte + k < wordBound → ∀ host host',
        ((g.matcher config input budget i (start.shift k)).run
            { limit := limit.shift k, host := host' }).1
          = ((g.matcher config (input.drop k) budget i start).run { limit, host }).1.shift k)
    ∧ ∃ reader, make = .ok reader ∧ ∀ packet : Array UInt8, packet.size < 2 ^ 61 →
      ∀ config root, reader.grammar.Owns root → ∀ {β : Type} (view : Object → Option β),
      ∀ offset ≤ packet.size, (reader.next packet config root view).Ends offset
        (reader.inPlace packet config root view offset).1
        (reader.inPlace packet config root view offset).2 := by
  constructor
  · intro υ σ g hpure input k hk hsize config budget i hi start limit hlimit host host'
    have hword : 8 * input.bytes.size < wordBound := by
      rw [wordBound]
      omega
    obtain ⟨after, hshift, -⟩ := Grammar.matcher_shift hpure hk hword config budget hi hlimit
      (.fresh k limit host host') start
    rw [hshift]
  · obtain ⟨reader, hmake, hpure, -⟩ := exists_reader
    exact ⟨reader, hmake, fun packet hsize config root hroot _ view offset hoffset =>
      ends_inPlace hpure hroot hsize hoffset config view⟩

/-- A pair of parentheses behind another byte, and a packet whose header is cut short. -/
theorem matcher_relocates_parens :
    Grammar.parens.PureCallbacks ∧ 1 ≤ (#[0x78, 0x28, 0x29] : Array UInt8).size
    ∧ (#[0x78, 0x28, 0x29] : Array UInt8).size < 2 ^ 61 ∧ 5 < Grammar.parens.entries.size
    ∧ (Cursor.atByte 2).byte + 1 < wordBound
    ∧ ((Grammar.parens.matcher {} ⟨#[0x78, 0x28, 0x29]⟩ 1 5 (.atByte 1)).run
        { limit := .atByte 3, host := () }).1
      = ((Grammar.parens.matcher {} (Input.drop 1 ⟨#[0x78, 0x28, 0x29]⟩) 1 5 (.atByte 0)).run
        { limit := .atByte 2, host := () }).1.shift 1
    ∧ ∃ reader, make = .ok reader ∧ (#[0x12, 0x34] : Array UInt8).size < 2 ^ 61
      ∧ reader.grammar.Owns reader.roots.header ∧ 1 ≤ (#[0x12, 0x34] : Array UInt8).size
      ∧ (reader.next #[0x12, 0x34] {} reader.roots.header Object.header?).Ends 1
        (reader.inPlace #[0x12, 0x34] {} reader.roots.header Object.header? 1).1
        (reader.inPlace #[0x12, 0x34] {} reader.roots.header Object.header? 1).2 := by
  obtain ⟨reader, hmake, hnext⟩ := matcher_relocates.2
  obtain ⟨reader', hmake', -, hroots⟩ := exists_reader
  obtain rfl := Except.ok.inj (hmake.symm.trans hmake')
  exact ⟨Grammar.pureCallbacks_parens, by decide, by decide, by decide, by decide,
    matcher_relocates.1 Grammar.parens Grammar.pureCallbacks_parens ⟨#[0x78, 0x28, 0x29]⟩ 1
      (by decide) (by decide) {} 1 5 (by decide) (.atByte 0) (.atByte 2) (by decide) () (),
    reader, hmake, by decide, hroots.ownsHeader, by decide,
    hnext #[0x12, 0x34] (by decide) {} reader.roots.header hroots.ownsHeader Object.header? 1
      (by decide)⟩

end Reader

end Packrat.Dns
