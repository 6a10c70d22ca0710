import Packrat.Proofs.Dns.Reading

/-!
# Proofs/Dns/Records — records with any data

The data of a record is what its type says if all of it has the layout of the type, and otherwise it
is left as it is. A record is read whatever its data is, and the type alone tells how.

Main statement: `Reader.record_reads`.
-/

namespace Packrat.Dns

namespace Wire

/-! ## Layouts and lengths -/

/-- Four bytes are a long. -/
theorem exists_long {bytes : List UInt8} (h : bytes.length = 4) :
    ∃ n : UInt32, bytesOf 4 n.toNat = bytes := by
  have hlt := bigEndian_lt bytes
  have hbytes := bytesOf_bigEndian bytes
  rw [h] at hlt hbytes
  exact ⟨.ofNat (bigEndian bytes), by rw [UInt32.toNat_ofNat_of_lt' hlt, hbytes]⟩

/-- Four bytes are an address, and no other count of bytes is. -/
theorem Rdata.exists_address_iff {data : List UInt8} :
    (∃ d : Rdata, d.Typed 1 ∧ d.encode = data) ↔ data.length = 4 := by
  constructor
  · rintro ⟨d, htyped, rfl⟩
    cases d with
    | a address => exact length_bytesOf 4 _
    | _ => simp [Typed, within] at htyped
  · intro hlength
    obtain ⟨n, rfl⟩ := exists_long hlength
    exact ⟨.a ⟨n⟩, rfl, rfl⟩

/-- Five bytes and more are an address, an octet and a bitmap. -/
theorem Rdata.exists_wks_iff {data : List UInt8} :
    (∃ d : Rdata, d.Typed 11 ∧ d.encode = data) ↔ 5 ≤ data.length := by
  constructor
  · rintro ⟨d, htyped, rfl⟩
    cases d with
    | wks address protocol bitmap =>
      simp only [encode, List.length_append, length_bytesOf, List.length_singleton]
      omega
    | _ => simp [Typed, within] at htyped
  · intro hlength
    have htake : (data.take 4).length = 4 := List.length_take_of_le (by omega)
    obtain ⟨n, hn⟩ := exists_long htake
    have hpos : 0 < (data.drop 4).length := by
      rw [List.length_drop]
      omega
    obtain ⟨protocol, bitmap, hrest⟩ := List.exists_cons_of_length_pos hpos
    refine ⟨.wks ⟨n⟩ protocol bitmap, rfl, ?_⟩
    rw [encode, hn, List.append_assoc, List.singleton_append, ← hrest, List.take_append_drop]

/-! ## Records with any data -/

/-- The bytes of a record that has some data. -/
def Record.encodeWith (name : Name) (type rclass : UInt16) (ttl : UInt32) (data : List UInt8) :
    List UInt8 :=
  name.encode ++ bytesOf 2 type.toNat ++ bytesOf 2 rclass.toNat ++ bytesOf 4 ttl.toNat
    ++ bytesOf 2 data.length ++ data

theorem Record.length_encodeWith (name : Name) (type rclass : UInt16) (ttl : UInt32)
    (data : List UInt8) :
    (encodeWith name type rclass ttl data).length = name.encode.length + 10 + data.length := by
  simp only [encodeWith, List.length_append, length_bytesOf]

/-- What the data of a record of the type says: what it is in the layout of the type if it has that,
and its bytes otherwise. -/
structure Rdata.Says (type : UInt16) (data : List UInt8) (said : Dns.Rdata) : Prop where
  typed : ∀ d : Rdata, d.Typed type → d.encode = data → said = d.read
  untyped : (∀ d : Rdata, d.Typed type → d.encode ≠ data) → said = .unparsed data

/-- Any data says something. -/
theorem Rdata.Fits.says {type : UInt16} {d : Rdata} (h : d.Fits type) :
    Says type d.encode d.read := by
  refine ⟨fun d' htyped hencode => ?_, fun hnone => ?_⟩
  · obtain rfl := (existsUnique_fits type d.encode).unique ⟨h, rfl⟩ ⟨.inl htyped, hencode⟩
    rfl
  · obtain htyped | ⟨bytes, rfl, -⟩ := h
    · exact absurd rfl (hnone d htyped)
    · rfl

end Wire

namespace Reader

/-- **A record is read whatever its data is.** Behind a name stand a known type and class, a time to
live, and a count of bytes that are all there: the record takes just these bytes, and its data is
what the type says of them, or the bytes themselves. Whether data has the layout of types 1, 10 and
11 is a matter of its length. -/
theorem record_reads : ∃ reader, Reader.make = .ok reader ∧
    (∀ (name : Wire.Name) (type rclass : UInt16) (ttl : UInt32) (data rest : List UInt8),
      name.Fits → Wire.within 1 16 type → Wire.within 1 4 rclass → data.length < 2 ^ 16 →
      (Wire.Record.encodeWith name type rclass ttl data ++ rest).length < 2 ^ 61 → ∀ config,
        ∃ report said, reader.grammar.run config reader.roots.record
            ⟨⟨Wire.Record.encodeWith name type rclass ttl data ++ rest⟩⟩ () = .ok report
          ∧ report.result = .ok ⟨.atByte (name.encode.length + 10 + data.length),
            .user (.record ⟨name.read, type, rclass, ttl, said⟩)⟩
          ∧ Wire.Rdata.Says type data said)
    ∧ ∀ data : List UInt8,
      ((∃ d : Wire.Rdata, d.Typed 1 ∧ d.encode = data) ↔ data.length = 4)
      ∧ (∃ d : Wire.Rdata, d.Typed 10 ∧ d.encode = data)
      ∧ ((∃ d : Wire.Rdata, d.Typed 11 ∧ d.encode = data) ↔ 5 ≤ data.length) := by
  obtain ⟨reader, hmake, hpure, hroots⟩ := exists_reader
  refine ⟨reader, hmake, ?_, fun data => ⟨Wire.Rdata.exists_address_iff, ⟨.null data, rfl, rfl⟩,
    Wire.Rdata.exists_wks_iff⟩⟩
  intro name type rclass ttl data rest hname htype hclass hlength hsize config
  obtain ⟨d, ⟨hd, rfl⟩, -⟩ := Wire.Rdata.existsUnique_fits type data
  have hfits : Wire.Record.Fits ⟨name, type, rclass, ttl, d⟩ :=
    ⟨hname, htype, hclass, hd, hlength⟩
  have hspan : (Wire.Record.encodeWith name type rclass ttl d.encode ++ rest).length - rest.length
      = name.encode.length + 10 + d.encode.length := by
    rw [List.length_append, Nat.add_sub_cancel, Wire.Record.length_encodeWith]
  obtain ⟨report, hreport, hresult⟩ := hroots.record.run_of_eq_some hpure hroots.ownsRecord
    ⟨⟨Wire.Record.encodeWith name type rclass ttl d.encode ++ rest⟩⟩ (eight_mul_lt_wordBound hsize)
    (Wire.Record.decodes_scan.apply_append hfits rest) config ()
  refine ⟨report, d.read, hreport, hresult.trans ?_, hd.says⟩
  rw [← hspan]
  rfl

/-- Records of a text that is one string, and of a text that has none and is left as it is, each in
front of a byte that belongs to something else. -/
theorem record_reads_texts : ∃ reader, Reader.make = .ok reader
    ∧ (⟨[[0x63]]⟩ : Wire.Name).Fits ∧ Wire.within 1 16 16 ∧ Wire.within 1 4 1
    ∧ (∀ data ∈ [[1, 0x61], ([] : List UInt8)], data.length < 2 ^ 16
      ∧ (Wire.Record.encodeWith ⟨[[0x63]]⟩ 16 1 60 data ++ [0]).length < 2 ^ 61)
    ∧ (∃ report, reader.grammar.run {} reader.roots.record
          ⟨⟨Wire.Record.encodeWith ⟨[[0x63]]⟩ 16 1 60 [1, 0x61] ++ [0]⟩⟩ () = .ok report
        ∧ report.result = .ok ⟨.atByte 15,
          .user (.record ⟨(⟨[[0x63]]⟩ : Wire.Name).read, 16, 1, 60, .txt ["a"]⟩)⟩)
    ∧ ∃ report, reader.grammar.run {} reader.roots.record
        ⟨⟨Wire.Record.encodeWith ⟨[[0x63]]⟩ 16 1 60 [] ++ [0]⟩⟩ () = .ok report
      ∧ report.result = .ok ⟨.atByte 13,
        .user (.record ⟨(⟨[[0x63]]⟩ : Wire.Name).read, 16, 1, 60, .unparsed []⟩)⟩ := by
  obtain ⟨reader, hmake, h, -⟩ := record_reads
  have hname : (⟨[[0x63]]⟩ : Wire.Name).Fits := by simp [Wire.Name.Fits]
  have hone : (Wire.Rdata.txt [[0x61]]).Typed 16 := by simp [Wire.Rdata.Typed, Wire.within]
  have hnone : ∀ d : Wire.Rdata, d.Typed 16 → d.encode ≠ [] := by
    intro d hd hencode
    cases d with
    | txt strings =>
      obtain ⟨-, hne, -⟩ := hd
      obtain ⟨s, strings, rfl⟩ := List.exists_cons_of_ne_nil hne
      cases hencode
    | _ => simp [Wire.Rdata.Typed, Wire.within] at hd
  have hsize : ∀ data ∈ [[1, 0x61], ([] : List UInt8)], data.length < 2 ^ 16
      ∧ (Wire.Record.encodeWith ⟨[[0x63]]⟩ 16 1 60 data ++ [0]).length < 2 ^ 61 := by
    decide +kernel
  obtain ⟨hlength, hbytes⟩ := hsize [1, 0x61] (by simp)
  obtain ⟨hlength', hbytes'⟩ := hsize [] (by simp)
  obtain ⟨report, said, hreport, hresult, hsaid⟩ :=
    h ⟨[[0x63]]⟩ 16 1 60 [1, 0x61] [0] hname rfl rfl hlength hbytes {}
  obtain ⟨report', said', hreport', hresult', hsaid'⟩ :=
    h ⟨[[0x63]]⟩ 16 1 60 [] [0] hname rfl rfl hlength' hbytes' {}
  obtain rfl := hsaid.typed _ hone rfl
  obtain rfl := hsaid'.untyped hnone
  exact ⟨reader, hmake, hname, rfl, rfl, hsize, ⟨report, hreport, hresult⟩, report', hreport',
    hresult'⟩

end Reader

end Packrat.Dns
