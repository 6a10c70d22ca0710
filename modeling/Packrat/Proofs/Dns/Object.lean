import Packrat.Dns.Object
import Packrat.Proofs.Dns.Scans

/-!
# Proofs/Dns/Object — what the actions make

Each action of the DNS grammar makes something of every value that the rule under it can have: the
numbers are words of their size, and the parts are what was made before. What it makes is what the
part of the message says (`read`).
-/

namespace Packrat.Dns

/-! ## Taking values apart -/

theorem toWord?_unsigned {n width : Nat} (hn : n < wordBound) :
    (Integer.unsigned n width).toWord? = some n := by
  have hrange : 0 ≤ (Integer.unsigned n width).toInt
      ∧ (Integer.unsigned n width).toInt < wordBound := by
    rw [Integer.toInt]
    exact ⟨Int.natCast_nonneg n, Int.ofNat_lt.2 hn⟩
  rw [Integer.toWord?, if_pos hrange]
  rfl

theorem word?_word {υ : Type} {n width : Nat} (hn : n < wordBound) :
    (Value.word n width : Value υ).word? = some n := by
  rw [Value.word?, Value.word, Value.integer?, Option.bind_some, toWord?_unsigned hn]

theorem number_of_word? {bound n i : Nat} {fields : List (Value Object)} {v : Value Object}
    (h : fields[i]? = some v) (hv : v.word? = some n) (hn : n < bound) :
    number bound fields i = .ok n := by
  simp only [number, field, h, bind, Except.bind, hv, if_pos hn]

theorem number_eq {bound n width i : Nat} {fields : List (Value Object)}
    (h : fields[i]? = some (.word n width)) (hn : n < bound) (hbound : bound ≤ wordBound) :
    number bound fields i = .ok n :=
  number_of_word? h (word?_word (Nat.lt_of_lt_of_le hn hbound)) hn

theorem octet_eq {n width i : Nat} {fields : List (Value Object)}
    (h : fields[i]? = some (.word n width)) (hn : n < 0x100) :
    octet fields i = .ok (UInt8.ofNat n) := by
  rw [octet, number_eq h hn (by decide)]
  rfl

theorem word_eq {n width i : Nat} {fields : List (Value Object)}
    (h : fields[i]? = some (.word n width)) (hn : n < 0x10000) :
    word fields i = .ok (UInt16.ofNat n) := by
  rw [word, number_eq h hn (by decide)]
  rfl

theorem long_eq {n width i : Nat} {fields : List (Value Object)}
    (h : fields[i]? = some (.word n width)) (hn : n < 0x100000000) :
    long fields i = .ok (UInt32.ofNat n) := by
  rw [long, number_eq h hn (by decide)]
  rfl

theorem octet_toNat {n : UInt8} {i : Nat} {fields : List (Value Object)}
    (h : fields[i]? = some (.word n.toNat 8)) : octet fields i = .ok n :=
  (octet_eq h n.toNat_lt).trans (congrArg Except.ok UInt8.ofNat_toNat)

theorem word_toNat {n : UInt16} {i : Nat} {fields : List (Value Object)}
    (h : fields[i]? = some (.word n.toNat 16)) : word fields i = .ok n :=
  (word_eq h n.toNat_lt).trans (congrArg Except.ok UInt16.ofNat_toNat)

theorem long_toNat {n : UInt32} {i : Nat} {fields : List (Value Object)}
    (h : fields[i]? = some (.word n.toNat 32)) : long fields i = .ok n :=
  (long_eq h n.toNat_lt).trans (congrArg Except.ok UInt32.ofNat_toNat)

theorem part_eq {α : Type} {view : Object → Option α} {o : Object} {a : α} {i : Nat}
    {fields : List (Value Object)} (h : fields[i]? = some (.user o)) (ho : view o = some a) :
    part view fields i = .ok a := by
  simp only [part, field, h, bind, Except.bind, Value.user?, Option.bind_some, ho]

theorem byteOf_octet (b : UInt8) : Value.byteOf (.unsigned b.toNat 8) = .ok b := by
  have hb : b.toNat < 256 := b.toNat_lt
  rw [Value.byteOf, toWord?_unsigned (Nat.lt_trans hb (by decide))]
  exact (if_pos hb).trans (congrArg Except.ok UInt8.ofNat_toNat)

/-- Collecting the bytes of a window. -/
theorem toBytes_octets {υ : Type} (bytes : List UInt8) :
    (Value.sequence (bytes.filterMap fun b => some (.word b.toNat 8)) : Value υ).toBytes
      = .ok (.bytes bytes) := by
  have hpush : ∀ out : Array UInt8, Value.pushAllBytes out
      (bytes.filterMap fun b => some (Value.word b.toNat 8 : Value υ))
        = .ok (out ++ bytes.toArray) := by
    induction bytes with
    | nil => exact fun out => congrArg Except.ok out.append_empty.symm
    | cons b bytes ih =>
      intro out
      have hb : Value.pushBytes out (.word b.toNat 8 : Value υ) = .ok (out.push b) := by
        rw [Value.word, Value.pushBytes, byteOf_octet]
        rfl
      rw [List.filterMap_cons]
      dsimp only
      rw [Value.pushAllBytes, hb]
      dsimp only
      rw [ih]
      simp
  rw [Value.toBytes, Value.pushBytes, hpush]
  simp [Except.map]

/-! ## Making parts -/

open Wire

theorem bind_ok {α β : Type} {x : Made α} {a : α} {f : α → Made β} {r : Made β} (hx : x = .ok a)
    (hf : f a = r) : (x >>= f) = r := by
  rw [hx]
  exact hf

theorem map_ok {α β : Type} {x : Made α} {a : α} {f : α → β} (hx : x = .ok a) :
    f <$> x = .ok (f a) := by
  rw [hx]
  rfl

/-- The values of the fields of a header; the reserved bits are not kept. -/
def headerValues (a : Fields headerWidths) : List (Value Object) :=
  [.word a.1 16, .word a.2.1 1, .word a.2.2.1 4, .word a.2.2.2.1 1, .word a.2.2.2.2.1 1,
    .word a.2.2.2.2.2.1 1, .word a.2.2.2.2.2.2.1 1, .word a.2.2.2.2.2.2.2.2.1 4,
    .word a.2.2.2.2.2.2.2.2.2.1 16, .word a.2.2.2.2.2.2.2.2.2.2.1 16,
    .word a.2.2.2.2.2.2.2.2.2.2.2.1 16, .word a.2.2.2.2.2.2.2.2.2.2.2.2.1 16]

theorem makeHeader_eq (a : Fields headerWidths) :
    makeHeader (.sequence (headerValues a)) = .ok (headerOf a) := by
  have hitems : items (.sequence (headerValues a)) = .ok (headerValues a) := rfl
  have hflag : ∀ n : Fin (2 ^ 1), (n : Nat) < 0x100 := by decide
  have hcode : ∀ n : Fin (2 ^ 4), (n : Nat) < 0x100 := by decide
  have h0 : word (headerValues a) 0 = _ := word_eq rfl a.1.isLt
  have h1 : octet (headerValues a) 1 = _ := octet_eq rfl (hflag a.2.1)
  have h2 : octet (headerValues a) 2 = _ := octet_eq rfl (hcode a.2.2.1)
  have h3 : octet (headerValues a) 3 = _ := octet_eq rfl (hflag a.2.2.2.1)
  have h4 : octet (headerValues a) 4 = _ := octet_eq rfl (hflag a.2.2.2.2.1)
  have h5 : octet (headerValues a) 5 = _ := octet_eq rfl (hflag a.2.2.2.2.2.1)
  have h6 : octet (headerValues a) 6 = _ := octet_eq rfl (hflag a.2.2.2.2.2.2.1)
  have h7 : octet (headerValues a) 7 = _ := octet_eq rfl (hcode a.2.2.2.2.2.2.2.2.1)
  have h8 : word (headerValues a) 8 = _ := word_eq rfl a.2.2.2.2.2.2.2.2.2.1.isLt
  have h9 : word (headerValues a) 9 = _ := word_eq rfl a.2.2.2.2.2.2.2.2.2.2.1.isLt
  have h10 : word (headerValues a) 10 = _ := word_eq rfl a.2.2.2.2.2.2.2.2.2.2.2.1.isLt
  have h11 : word (headerValues a) 11 = _ := word_eq rfl a.2.2.2.2.2.2.2.2.2.2.2.2.1.isLt
  exact bind_ok hitems <| bind_ok h0 <| bind_ok (map_ok h1) <| bind_ok h2 <| bind_ok (map_ok h3) <|
    bind_ok (map_ok h4) <| bind_ok (map_ok h5) <| bind_ok (map_ok h6) <| bind_ok h7 <| bind_ok h8 <|
    bind_ok h9 <| bind_ok h10 <| bind_ok h11 rfl

theorem mapM_text (texts : List (List UInt8)) :
    (texts.filterMap fun t => some (.bytes t : Value Object)).mapM text
      = .ok (texts.map Utf8.decodeLossy) := by
  induction texts with
  | nil => rfl
  | cons t texts ih =>
    rw [List.filterMap_cons]
    dsimp only
    rw [List.mapM_cons]
    exact bind_ok rfl (bind_ok ih rfl)

theorem makeName_eq (labels : List (List UInt8)) (rest : List (Value Object)) :
    makeName (.sequence (.sequence (labels.filterMap fun l => some (.bytes l)) :: rest))
      = .ok (Wire.Name.read ⟨labels⟩) :=
  bind_ok rfl <| bind_ok rfl <| bind_ok rfl <| bind_ok (mapM_text labels) rfl

theorem makeQuestion_eq (q : Wire.Question) :
    makeQuestion (.sequence [.user (.name q.name.read), .word q.qtype.toNat 16,
      .word q.qclass.toNat 16]) = .ok q.read :=
  bind_ok rfl <| bind_ok (part_eq rfl rfl) <| bind_ok (word_toNat rfl) <|
    bind_ok (word_toNat rfl) rfl

theorem makeA_eq (n : UInt32) : makeA (.word n.toNat 32) = .ok (Wire.Rdata.a ⟨n⟩).read :=
  bind_ok (long_toNat rfl) rfl

theorem makeNameRdata_eq (n : Wire.Name) :
    makeNameRdata (.user (.name n.read)) = .ok (Wire.Rdata.name n).read :=
  bind_ok (part_eq rfl rfl) rfl

theorem makeSoa_eq (m r : Wire.Name) (t u v w x : UInt32) :
    makeSoa (.sequence [.user (.name m.read), .user (.name r.read), .word t.toNat 32,
      .word u.toNat 32, .word v.toNat 32, .word w.toNat 32, .word x.toNat 32])
        = .ok (Wire.Rdata.soa m r t u v w x).read :=
  bind_ok rfl <| bind_ok (part_eq rfl rfl) <| bind_ok (part_eq rfl rfl) <|
    bind_ok (long_toNat rfl) <| bind_ok (long_toNat rfl) <| bind_ok (long_toNat rfl) <|
    bind_ok (long_toNat rfl) <| bind_ok (long_toNat rfl) rfl

theorem makeWks_eq (n : UInt32) (protocol : UInt8) (bitmap : List UInt8) :
    makeWks (.sequence [.word n.toNat 32, .word protocol.toNat 8, .bytes bitmap])
      = .ok (Wire.Rdata.wks ⟨n⟩ protocol bitmap).read :=
  bind_ok rfl <| bind_ok (long_toNat rfl) <| bind_ok (octet_toNat rfl) <| bind_ok rfl <|
    bind_ok rfl rfl

theorem makeHinfo_eq (cpu os : List UInt8) :
    makeHinfo (.sequence [.bytes cpu, .bytes os]) = .ok (Wire.Rdata.hinfo cpu os).read := rfl

theorem makeMinfo_eq (r e : Wire.Name) :
    makeMinfo (.sequence [.user (.name r.read), .user (.name e.read)])
      = .ok (Wire.Rdata.minfo r e).read :=
  bind_ok rfl <| bind_ok (part_eq rfl rfl) <| bind_ok (part_eq rfl rfl) rfl

theorem makeMx_eq (preference : UInt16) (n : Wire.Name) :
    makeMx (.sequence [.word preference.toNat 16, .user (.name n.read)])
      = .ok (Wire.Rdata.mx preference n).read :=
  bind_ok rfl <| bind_ok (word_toNat rfl) <| bind_ok (part_eq rfl rfl) rfl

theorem makeTxt_eq (strings : List (List UInt8)) :
    makeTxt (.sequence (strings.filterMap fun s => some (.bytes s)))
      = .ok (Wire.Rdata.txt strings).read :=
  bind_ok rfl <| bind_ok (mapM_text strings) rfl

theorem makeRecord_eq (r : Wire.Record) :
    makeRecord (.sequence [.user (.name r.name.read), .word r.rtype.toNat 16,
      .word r.rclass.toNat 16, .word r.ttl.toNat 32, .user (.rdata r.rdata.read)]) = .ok r.read :=
  bind_ok rfl <| bind_ok (part_eq rfl rfl) <| bind_ok (word_toNat rfl) <|
    bind_ok (word_toNat rfl) <| bind_ok (long_toNat rfl) <| bind_ok (part_eq rfl rfl) rfl

end Packrat.Dns
