import Mathlib.Data.List.Pairwise
import Packrat.Proofs.Dns.Wire

/-!
# Proofs/Dns/Scans — reading what is written

For each part of a message there is a scan, and it decodes the format of the part: it reads just
what is fit to be written, and no two parts are written alike. A record is read by one of several
alternatives, which go by its type; the last of them, which takes any data as it is, comes into
question only where none of the others reads anything (`Record.decodes_scan`).
-/

namespace Packrat

/-! ## Words -/

namespace Scan

variable {α : Type}

def octet : Scan UInt8 := (fun n : Fin (2 ^ (8 * 1)) => UInt8.ofNat n) <$> number 1

def word : Scan UInt16 := (fun n : Fin (2 ^ (8 * 2)) => UInt16.ofNat n) <$> number 2

def long : Scan UInt32 := (fun n : Fin (2 ^ (8 * 4)) => UInt32.ofNat n) <$> number 4

theorem decodes_octet : octet.Decodes (fun _ => True) fun b => [b] := by
  refine ((decodes_number 1).map _ fun n _ => ?_).congr (fun b => iff_of_true ?_ trivial)
    fun _ _ => rfl
  · rfl
  · exact ⟨⟨b.toNat, b.toNat_lt⟩, trivial, UInt8.ofNat_toNat⟩

theorem decodes_word : word.Decodes (fun _ => True) fun n => bytesOf 2 n.toNat := by
  refine ((decodes_number 2).map _ fun n _ => ?_).congr (fun b => iff_of_true ?_ trivial)
    fun _ _ => rfl
  · exact congrArg (bytesOf 2) (Nat.mod_eq_of_lt n.isLt)
  · exact ⟨⟨b.toNat, b.toNat_lt⟩, trivial, UInt16.ofNat_toNat⟩

theorem decodes_long : long.Decodes (fun _ => True) fun n => bytesOf 4 n.toNat := by
  refine ((decodes_number 4).map _ fun n _ => ?_).congr (fun b => iff_of_true ?_ trivial)
    fun _ _ => rfl
  · exact congrArg (bytesOf 4) (Nat.mod_eq_of_lt n.isLt)
  · exact ⟨⟨b.toNat, b.toNat_lt⟩, trivial, UInt32.ofNat_toNat⟩

theorem consumes_octet : octet.Consumes := decodes_octet.consumes fun _ => List.cons_ne_nil _ _

/-- All bytes of a window. -/
theorem fills_octets : (many octet).Fills (fun _ => True) id := by
  have h := decodes_octet.many consumes_octet
  intro l bs
  rw [h l bs]
  simp

end Scan

namespace Dns.Wire

/-! ## Names and texts -/

/-- Bytes behind their count. -/
def string : Scan (List UInt8) := .counted UInt8.toNat .octet (.many .octet)

theorem decodes_string : string.Decodes (fun s => s.length < 256) framed := by
  refine (Scan.decodes_octet.counted Scan.fills_octets UInt8.ofNat
    fun b _ => UInt8.ofNat_toNat).congr (fun s => ?_) fun s _ => rfl
  rw [true_and, true_and, id, UInt8.toNat_ofNat']
  exact ⟨fun h => h ▸ Nat.mod_lt _ (by decide), fun h => Nat.mod_eq_of_lt h⟩

theorem consumes_string : string.Consumes := decodes_string.consumes fun _ => List.cons_ne_nil _ _

/-- Whether a count of bytes is that of a label. -/
def labelLength (n : UInt8) : Bool := 1 ≤ n.toNat ∧ n.toNat ≤ 63

/-- A label. -/
def label : Scan (List UInt8) := .counted UInt8.toNat (.filter labelLength .octet) (.many .octet)

theorem decodes_label : label.Decodes (fun l => 1 ≤ l.length ∧ l.length ≤ 63) framed := by
  refine ((Scan.decodes_octet.filter labelLength).counted Scan.fills_octets UInt8.ofNat
    fun b _ => UInt8.ofNat_toNat).congr (fun l => ?_) fun l _ => rfl
  rw [true_and, true_and, id, UInt8.toNat_ofNat', labelLength, decide_eq_true_iff,
    UInt8.toNat_ofNat']
  omega

theorem consumes_label : label.Consumes := decodes_label.consumes fun _ => List.cons_ne_nil _ _

/-- The octet of the root is no label's. -/
theorem label_eq_none_of_root {l r : List UInt8} {u : Unit × Unit}
    (h : Scan.pair (.byte 0) (pure ()) l = some (u, r)) : label l = none := by
  obtain ⟨m, hroot, -⟩ := Scan.pair_eq_some.1 h
  obtain ⟨-, rfl⟩ := (Scan.decodes_byte 0 l u.1 m).1 hroot
  rfl

/-- The format of what stands behind the labels. -/
theorem decodes_root : (Scan.pair (.byte 0) (pure ())).Decodes (fun _ => True) fun _ => [0] :=
  ((Scan.decodes_byte 0).pair (Scan.decodes_pure ())).congr (fun _ => by simp) fun _ _ => rfl

/-- A name. -/
def Name.scan : Scan Name :=
  (fun p => ⟨p.1⟩) <$> Scan.pair (.many label) (.pair (.byte 0) (pure ()))

/-- A name of at least one label. -/
def Name.scan1 : Scan Name :=
  (fun p => ⟨p.1⟩) <$> Scan.pair (.many1 label) (.pair (.byte 0) (pure ()))

theorem Name.decodes_scan : Name.scan.Decodes Name.Fits Name.encode := by
  refine ((decodes_label.many_pair consumes_label decodes_root
    fun _ _ _ => label_eq_none_of_root).map _ fun _ _ => rfl).congr (fun n => ?_) fun _ _ => rfl
  constructor
  · rintro ⟨p, ⟨h, -⟩, rfl⟩
    exact h
  · exact fun h => ⟨(n.labels, ((), ())), ⟨h, trivial⟩, rfl⟩

theorem Name.decodes_scan1 : Name.scan1.Decodes (fun n => n.Fits ∧ n.labels ≠ []) Name.encode := by
  refine ((decodes_label.many1_pair consumes_label decodes_root
    fun _ _ _ => label_eq_none_of_root).map _ fun _ _ => rfl).congr (fun n => ?_) fun _ _ => rfl
  constructor
  · rintro ⟨p, ⟨⟨hne, h⟩, -⟩, rfl⟩
    exact ⟨h, hne⟩
  · exact fun h => ⟨(n.labels, ((), ())), ⟨⟨h.2, h.1⟩, trivial⟩, rfl⟩

/-! ## Headers and questions -/

/-- The header of given fields. -/
def headerOf (a : Fields headerWidths) : Header where
  id := .ofNat a.1
  qr := UInt8.ofNat a.2.1 != 0
  opcode := .ofNat a.2.2.1
  aa := UInt8.ofNat a.2.2.2.1 != 0
  tc := UInt8.ofNat a.2.2.2.2.1 != 0
  rd := UInt8.ofNat a.2.2.2.2.2.1 != 0
  ra := UInt8.ofNat a.2.2.2.2.2.2.1 != 0
  rcode := .ofNat a.2.2.2.2.2.2.2.2.1
  questionCount := .ofNat a.2.2.2.2.2.2.2.2.2.1
  answerCount := .ofNat a.2.2.2.2.2.2.2.2.2.2.1
  authorityCount := .ofNat a.2.2.2.2.2.2.2.2.2.2.2.1
  additionalCount := .ofNat a.2.2.2.2.2.2.2.2.2.2.2.2.1

/-- Whether the reserved bits are zero. -/
def reserved (a : Fields headerWidths) : Bool := a.2.2.2.2.2.2.2.1.val == 0

/-- A header. -/
def headerScan : Scan Header := headerOf <$> Scan.filter reserved (.fields headerWidths)

theorem ofNat_word (n : Fin (2 ^ 16)) : Fin.ofNat (2 ^ 16) (UInt16.ofNat n).toNat = n :=
  Fin.ext ((Nat.mod_mod ..).trans (Nat.mod_eq_of_lt n.isLt))

theorem ofNat_code : ∀ n : Fin (2 ^ 4), Fin.ofNat (2 ^ 4) (UInt8.ofNat n).toNat = n := by decide

theorem ofNat_flag : ∀ n : Fin (2 ^ 1), Fin.ofNat (2 ^ 1) (UInt8.ofNat n != 0).toNat = n := by
  decide

theorem headerFields_headerOf {a : Fields headerWidths} (h : reserved a) :
    headerFields (headerOf a) = a := by
  obtain ⟨id, qr, opcode, aa, tc, rd, ra, z, rcode, qd, an, ns, ar, ⟨⟩⟩ := a
  have hz : z = 0 := Fin.ext (beq_iff_eq.1 h)
  simp only [headerFields, headerOf, ofNat_word, ofNat_code, ofNat_flag, hz]
  rfl

theorem word_ofNat (n : UInt16) : UInt16.ofNat (Fin.ofNat (2 ^ 16) n.toNat) = n := by
  rw [Fin.val_ofNat, Nat.mod_eq_of_lt n.toNat_lt, UInt16.ofNat_toNat]

theorem code_ofNat {n : UInt8} (h : n.toNat < 16) :
    UInt8.ofNat (Fin.ofNat (2 ^ 4) n.toNat) = n := by
  rw [Fin.val_ofNat, Nat.mod_eq_of_lt (b := 2 ^ 4) h, UInt8.ofNat_toNat]

theorem flag_ofNat : ∀ b : Bool, (UInt8.ofNat (Fin.ofNat (2 ^ 1) b.toNat) != 0) = b := by decide

theorem headerOf_headerFields {h : Header} (hfits : FitsHeader h) :
    headerOf (headerFields h) = h := by
  simp only [headerFields, headerOf, word_ofNat, code_ofNat hfits.1, code_ofNat hfits.2, flag_ofNat]

theorem decodes_headerScan : headerScan.Decodes FitsHeader encodeHeader := by
  have hfields : (Scan.fields headerWidths).Decodes (fun _ => True) fun a => bytesOf 12 a.pack :=
    Scan.decodes_fields (by decide)
  refine ((hfields.filter reserved).map headerOf fun a ha => ?_).congr (fun h => ?_) fun _ _ => rfl
  · rw [encodeHeader, headerFields_headerOf ha.2]
  · constructor
    · rintro ⟨a, -, rfl⟩
      have hcode : ∀ n : Fin (2 ^ 4), (UInt8.ofNat n).toNat < 16 := by decide
      exact ⟨hcode _, hcode _⟩
    · exact fun hfits => ⟨headerFields h, ⟨trivial, rfl⟩, headerOf_headerFields hfits⟩

/-- A word in one of some ranges. -/
theorem decodes_ranges (ps : List (UInt16 → Bool)) :
    (Scan.first (ps.map (Scan.filter · .word))).Decodes (fun n => ∃ p ∈ ps, p n)
      fun n => bytesOf 2 n.toNat := by
  rw [Scan.first_filter]
  refine (Scan.decodes_word.filter _).congr (fun n => ?_) fun _ _ => rfl
  rw [true_and, List.any_eq_true]

/-- A question. -/
def Question.scan : Scan Question :=
  (fun p => ⟨p.1, p.2.1, p.2.2.1⟩) <$> Scan.pair Name.scan1
    (.pair (.first [.filter (within 1 16) .word, .filter (within 252 255) .word])
      (.pair (.first [.filter (within 1 4) .word, .filter (within 255 255) .word]) (pure ())))

theorem Question.decodes_scan : Question.scan.Decodes Question.Fits Question.encode := by
  refine ((Name.decodes_scan1.pair ((decodes_ranges [within 1 16, within 252 255]).pair
    ((decodes_ranges [within 1 4, within 255 255]).pair (Scan.decodes_pure ())))).map _
      fun p hp => ?_).congr (fun q => ?_) fun _ _ => rfl
  · simp only [Question.encode, List.append_assoc, List.append_nil]
  · constructor
    · rintro ⟨p, ⟨⟨hname, hlabels⟩, hqtype, hqclass, -⟩, rfl⟩
      exact ⟨hname, hlabels, by simpa using hqtype, by simpa using hqclass⟩
    · exact fun h => ⟨(q.name, q.qtype, q.qclass, ()),
        ⟨⟨h.name, h.labels⟩, by simpa using h.qtype, by simpa using h.qclass, rfl⟩, rfl⟩

/-! ## Resource data -/

/-- A layout of resource data, and the types whose data has it. -/
structure DataLayout where
  accepts : UInt16 → Bool
  scan : Scan Rdata
  /-- What may be written in the layout. -/
  Fits : Rdata → Prop

/-- The layout of what is made of parts that fit. -/
def DataLayout.of {α : Type} (accepts : UInt16 → Bool) (scan : Scan α) (make : α → Rdata)
    (Fits : α → Prop) : DataLayout := ⟨accepts, make <$> scan, fun d => ∃ a, Fits a ∧ make a = d⟩

/-- The layouts that go by the type. -/
def dataLayouts : List DataLayout := [
  .of (within 1 1) .long (fun n => .a ⟨n⟩) fun _ => True,
  .of (fun t => [within 2 5, within 7 9, within 12 12].any (· t)) Name.scan .name Name.Fits,
  .of (within 6 6)
    (.pair Name.scan (.pair Name.scan
      (.pair .long (.pair .long (.pair .long (.pair .long (.pair .long (pure ()))))))))
    (fun (m, r, t, u, v, w, x, _) => .soa m r t u v w x) fun p => p.1.Fits ∧ p.2.1.Fits,
  .of (within 10 10) (.many .octet) .null fun _ => True,
  .of (within 11 11) (.pair .long (.pair .octet (.pair (.many .octet) (pure ()))))
    (fun (x, n, bs, _) => .wks ⟨x⟩ n bs) fun _ => True,
  .of (within 13 13) (.pair string (.pair string (pure ())))
    (fun (c, o, _) => .hinfo c o) fun p => p.1.length < 256 ∧ p.2.1.length < 256,
  .of (within 14 14) (.pair Name.scan (.pair Name.scan (pure ())))
    (fun (m, r, _) => .minfo m r) fun p => p.1.Fits ∧ p.2.1.Fits,
  .of (within 15 15) (.pair .word (.pair Name.scan (pure ())))
    (fun (n, m, _) => .mx n m) fun p => p.2.1.Fits,
  .of (within 16 16) (.many1 string) .txt fun ss => ss ≠ [] ∧ ∀ s ∈ ss, s.length < 256]

/-- A type's layout is the one that goes by the type. -/
theorem Rdata.typed_iff {type : UInt16} {d : Rdata} :
    d.Typed type ↔ ∃ k ∈ dataLayouts, k.accepts type ∧ k.Fits d := by
  simp only [dataLayouts, List.mem_cons, List.not_mem_nil, or_false, exists_eq_or_imp,
    exists_eq_left, DataLayout.of, Prod.exists, true_and, List.any_cons, List.any_nil,
    Bool.or_false, Bool.or_eq_true]
  cases d with
  | a x =>
    cases x
    simp [Typed]
  | wks x =>
    cases x
    simp [Typed]
  | _ => simp [Typed]

theorem fills_dataLayouts : ∀ k ∈ dataLayouts, k.scan.Fills k.Fits Rdata.encode := by
  have hname := Name.decodes_scan
  have hlong := Scan.decodes_long
  have hend := Scan.decodes_pure ()
  simp only [dataLayouts, List.forall_mem_cons]
  refine ⟨?a, ?name, ?soa, ?null, ?wks, ?hinfo, ?minfo, ?mx, ?txt, fun _ h => nomatch h⟩
  case a => exact hlong.fills.map _ fun _ _ => rfl
  case name => exact hname.fills.map _ fun _ _ => rfl
  case soa =>
    refine ((hname.pair (hname.pair (hlong.pair (hlong.pair (hlong.pair (hlong.pair
      (hlong.pair hend))))))).fills.congr fun p => ?_).map _ fun p hp => ?_
    · simp
    · simp [Rdata.encode]
  case null => exact Scan.fills_octets.map _ fun _ _ => rfl
  case wks =>
    refine ((hlong.pair_fills (Scan.decodes_octet.pair_fills Scan.fills_octets.pair_unit)).congr
      fun p => ?_).map _ fun p hp => ?_
    · simp
    · simp [Rdata.encode]
  case hinfo =>
    refine ((decodes_string.pair (decodes_string.pair hend)).fills.congr fun p => ?_).map _
      fun p hp => ?_
    · simp
    · simp [Rdata.encode]
  case minfo =>
    refine ((hname.pair (hname.pair hend)).fills.congr fun p => ?_).map _ fun p hp => ?_
    · simp
    · simp [Rdata.encode]
  case mx =>
    refine ((Scan.decodes_word.pair (hname.pair hend)).fills.congr fun p => ?_).map _
      fun p hp => ?_
    · simp
    · simp [Rdata.encode]
  case txt => exact (decodes_string.many1 consumes_string).map _ fun _ _ => rfl

/-! ## Records -/

/-- A record of some types, with the data in a certain layout. -/
def Record.alternative (accepts : UInt16 → Bool) (data : Scan Rdata) : Scan Record :=
  (fun (name, rtype, rclass, ttl, rdata, _) => ⟨name, rtype, rclass, ttl, rdata⟩)
    <$> Scan.pair Name.scan (.pair (.filter accepts .word) (.pair (.filter (within 1 4) .word)
      (.pair .long (.pair (.counted UInt16.toNat .word data) (pure ())))))

/-- What stands around the data of a record is fit to be written. -/
structure Record.Framed (r : Record) : Prop where
  name : r.name.Fits
  rclass : within 1 4 r.rclass
  length : r.rdata.encode.length < 2 ^ 16

theorem Record.decodes_alternative (accepts : UInt16 → Bool) {data : Scan Rdata}
    {Fits : Rdata → Prop} (h : data.Fills Fits Rdata.encode) :
    (alternative accepts data).Decodes (fun r => r.Framed ∧ accepts r.rtype ∧ Fits r.rdata)
      Record.encode := by
  have hdata : (Scan.counted UInt16.toNat .word data).Decodes
      (fun d => Fits d ∧ d.encode.length < 2 ^ 16)
      fun d => bytesOf 2 d.encode.length ++ d.encode := by
    refine (Scan.decodes_word.counted h UInt16.ofNat fun n _ => UInt16.ofNat_toNat).congr
      (fun d => ?_) fun d hd => ?_
    · rw [true_and, UInt16.toNat_ofNat']
      exact and_congr_right fun _ =>
        ⟨fun h => h ▸ Nat.mod_lt _ (by decide), fun h => Nat.mod_eq_of_lt h⟩
    · rw [UInt16.toNat_ofNat', Nat.mod_eq_of_lt hd.2]
  refine ((Name.decodes_scan.pair ((Scan.decodes_word.filter accepts).pair
    ((Scan.decodes_word.filter (within 1 4)).pair (Scan.decodes_long.pair
      (hdata.pair (Scan.decodes_pure ())))))).map _ fun p hp => ?_).congr (fun r => ?_)
        fun _ _ => rfl
  · simp [encode]
  · constructor
    · rintro ⟨p, ⟨hname, ⟨-, haccepts⟩, ⟨-, hclass⟩, -, ⟨hfits, hlength⟩, -⟩, rfl⟩
      exact ⟨⟨hname, hclass, hlength⟩, haccepts, hfits⟩
    · rintro ⟨⟨hname, hclass, hlength⟩, haccepts, hfits⟩
      exact ⟨(r.name, r.rtype, r.rclass, r.ttl, r.rdata, ()),
        ⟨hname, ⟨trivial, haccepts⟩, ⟨trivial, hclass⟩, trivial, ⟨hfits, hlength⟩, rfl⟩, rfl⟩

/-- The record with its data as it is. -/
def Record.raw (r : Record) : Record := { r with rdata := .unparsed r.rdata.encode }

theorem fills_unparsed : (Rdata.unparsed <$> Scan.many .octet).Fills
    (fun d => ∃ bytes, d = .unparsed bytes) Rdata.encode := by
  refine (Scan.fills_octets.map Rdata.unparsed fun _ _ => rfl).congr fun d => ?_
  simp only [true_and, eq_comm]

/-- Records that are written alike differ in how their data is read only. -/
theorem Record.raw_eq_of_encode {r r' : Record} {m m' : List UInt8} (h : r.Framed) (h' : r'.Framed)
    (heq : r.encode ++ m = r'.encode ++ m') : r.raw = r'.raw := by
  have hraw := decodes_alternative (fun _ => true) fills_unparsed
  have hr := hraw.apply_append ⟨⟨h.name, h.rclass, h.length⟩, rfl, _, rfl⟩ m (a := r.raw)
  have hr' := hraw.apply_append ⟨⟨h'.name, h'.rclass, h'.length⟩, rfl, _, rfl⟩ m' (a := r'.raw)
  exact (Prod.mk.inj (Option.some.inj (hr.symm.trans ((congrArg _ heq).trans hr')))).1

/-- A record: the first layout whose types include the record's and that fits its data. -/
def Record.scan : Scan Record :=
  Scan.first (dataLayouts.map (fun k => alternative k.accepts k.scan)
    ++ [alternative (within 1 16) (.unparsed <$> .many .octet)])

/-- No type has two layouts. -/
theorem pairwise_dataLayouts :
    dataLayouts.Pairwise fun j k => ∀ type, j.accepts type → ¬k.accepts type := by
  simp only [dataLayouts, DataLayout.of, within, List.pairwise_cons, List.forall_mem_cons,
    List.any_cons, List.any_nil, Bool.or_false, Bool.or_eq_true, decide_eq_true_eq,
    List.not_mem_nil, false_implies, implies_true, List.Pairwise.nil, and_true]
  and_intros <;> intro type h <;> omega

/-- The layouts that go by the type, together. -/
theorem Record.decodes_typed :
    (Scan.first (dataLayouts.map fun k => alternative k.accepts k.scan)).Decodes
      (fun r => r.Framed ∧ r.rdata.Typed r.rtype) Record.encode := by
  refine (Scan.decodes_first (fun k hk => decodes_alternative k.accepts (fills_dataLayouts k hk))
    ?_).congr (fun r => ?_) fun _ _ => rfl
  · refine pairwise_dataLayouts.imp fun {j k} hjk a b m m' ha hb heq => ?_
    have htype : a.raw.rtype = b.raw.rtype := by rw [raw_eq_of_encode ha.1 hb.1 heq]
    exact hjk a.rtype ha.2.1 ((show a.rtype = b.rtype from htype) ▸ hb.2.1)
  · rw [Rdata.typed_iff]
    exact ⟨fun ⟨k, hk, hr, h⟩ => ⟨hr, k, hk, h⟩, fun ⟨hr, k, hk, h⟩ => ⟨k, hk, hr, h⟩⟩

theorem Rdata.Typed.known {type : UInt16} {d : Rdata} (h : d.Typed type) : within 1 16 type := by
  cases d <;> simp only [Typed, within, decide_eq_true_eq] at h ⊢ <;> omega

/-- **A record is read just as it is written.** The alternative that takes any data as it is comes
into question where the data has not the layout of its type. -/
theorem Record.decodes_scan : Record.scan.Decodes Record.Fits Record.encode := by
  have hunparsed := decodes_alternative (within 1 16) fills_unparsed
  intro l r m
  rw [scan, Scan.first_concat, Option.or_eq_some_iff, decodes_typed l r m, hunparsed l r m]
  constructor
  · rintro (⟨⟨hr, htyped⟩, hl⟩ | ⟨hnone, ⟨hr, htype, bytes, hbytes⟩, hl⟩)
    · exact ⟨⟨hr.name, htyped.known, hr.rclass, .inl htyped, hr.length⟩, hl⟩
    · refine ⟨⟨hr.name, htype, hr.rclass, .inr ⟨bytes, hbytes, fun d hd hencode => ?_⟩,
        hr.length⟩, hl⟩
      -- data in the layout of the type would have been read before
      have hsame : d.encode = r.rdata.encode := by rw [hencode, hbytes]; rfl
      have hread := decodes_typed.apply_append (a := { r with rdata := d })
        ⟨⟨hr.name, hr.rclass, Nat.lt_of_le_of_lt (congrArg List.length hsame).le hr.length⟩, hd⟩ m
      rw [show encode { r with rdata := d } = r.encode by simp only [encode, hsame], ← hl,
        hnone] at hread
      cases hread
  · rintro ⟨hfits, hl⟩
    have hr : r.Framed := ⟨hfits.name, hfits.rclass, hfits.length⟩
    obtain htyped | ⟨bytes, hbytes, hnone⟩ := hfits.rdata
    · exact .inl ⟨⟨hr, htyped⟩, hl⟩
    · refine .inr ⟨?_, ⟨hr, hfits.rtype, bytes, hbytes⟩, hl⟩
      refine Option.eq_none_iff_forall_ne_some.2 fun (r', m') hread => ?_
      obtain ⟨⟨hr', htyped⟩, hl'⟩ := (decodes_typed l r' m').1 hread
      have hraw := raw_eq_of_encode hr hr' (hl.symm.trans hl')
      have htype : r.raw.rtype = r'.raw.rtype := by rw [hraw]
      have hdata : r.raw.rdata = r'.raw.rdata := by rw [hraw]
      simp only [raw, hbytes, Rdata.unparsed.injEq] at htype hdata
      exact hnone r'.rdata (htype ▸ htyped) hdata.symm

/-- **Any bytes are data of any type**, in one way only. -/
theorem Rdata.existsUnique_fits (type : UInt16) (bytes : List UInt8) :
    ∃! d : Rdata, d.Fits type ∧ d.encode = bytes := by
  have htyped : ∀ d d' : Rdata, d.Typed type → d'.Typed type → d.encode = d'.encode → d = d' := by
    intro d d' hd hd' heq
    obtain ⟨k, hk, haccepts, hfits⟩ := typed_iff.1 hd
    obtain ⟨k', hk', haccepts', hfits'⟩ := typed_iff.1 hd'
    have hsame : k = k' := by
      by_contra hne
      have hsymm : Std.Symm fun j k : DataLayout => ∀ type, j.accepts type → ¬k.accepts type :=
        ⟨fun j k h type hk hj => h type hj hk⟩
      exact pairwise_dataLayouts.forall hk hk' hne type haccepts haccepts'
    subst hsame
    have hread := (fills_dataLayouts k hk d.encode d).2 ⟨hfits, rfl⟩
    have hread' := (fills_dataLayouts k hk d.encode d').2 ⟨hfits', heq⟩
    exact (Prod.mk.inj (Option.some.inj (hread.symm.trans hread'))).1
  by_cases hbytes : ∃ d : Rdata, d.Typed type ∧ d.encode = bytes
  · obtain ⟨d, hd, rfl⟩ := hbytes
    refine ⟨d, ⟨.inl hd, rfl⟩, ?_⟩
    rintro d' ⟨hd' | ⟨bytes, rfl, hnone⟩, heq⟩
    · exact htyped d' d hd' hd heq
    · exact absurd heq.symm (hnone d hd)
  · have hnone : ∀ d : Rdata, d.Typed type → d.encode ≠ bytes := fun d hd h => hbytes ⟨d, hd, h⟩
    refine ⟨.unparsed bytes, ⟨.inr ⟨bytes, rfl, hnone⟩, rfl⟩, ?_⟩
    rintro d' ⟨hd' | ⟨bytes', rfl, -⟩, heq⟩
    · exact absurd heq (hnone d' hd')
    · exact congrArg Rdata.unparsed heq

/-! ## Messages -/

/-- A message: a header, and as many entries as it counts. -/
def Message.scan : Scan Message := do
  let header ← headerScan
  let questions ← Question.scan.times header.questionCount.toNat
  let answers ← Record.scan.times header.answerCount.toNat
  let authority ← Record.scan.times header.authorityCount.toNat
  let additional ← Record.scan.times header.additionalCount.toNat
  return { header, questions, answers, authority, additional }

/-- **A message is read just as it is written.** -/
theorem Message.decodes_scan : Message.scan.Decodes Message.Fits Message.encode := by
  intro l m r
  simp only [scan, Scan.bind_eq_some, Scan.pure_eq_some, decodes_headerScan _,
    Question.decodes_scan.times _ _, Record.decodes_scan.times _ _]
  constructor
  · rintro ⟨h, l₁, ⟨hh, rfl⟩, qs, l₂, ⟨⟨hqn, hq⟩, rfl⟩, h⟩
    obtain ⟨an, l₃, ⟨⟨hann, han⟩, rfl⟩, ns, l₄, ⟨⟨hnsn, hns⟩, rfl⟩, h⟩ := h
    obtain ⟨ar, l₅, ⟨⟨harn, har⟩, rfl⟩, rfl, rfl⟩ := h
    refine ⟨⟨hh, hqn, hann, hnsn, harn, hq, ?_⟩, ?_⟩
    · simp only [List.mem_append, or_imp, forall_and]
      exact ⟨⟨han, hns⟩, har⟩
    · simp only [encode, List.append_assoc]
  · intro ⟨hfits, hl⟩
    obtain ⟨hh, hqn, hann, hnsn, harn, hq, hrecords⟩ := hfits
    simp only [List.mem_append, or_imp, forall_and] at hrecords
    obtain ⟨⟨han, hns⟩, har⟩ := hrecords
    simp only [encode, List.append_assoc] at hl
    exact ⟨m.header, _, ⟨hh, hl⟩, m.questions, _, ⟨⟨hqn, hq⟩, rfl⟩, m.answers, _,
      ⟨⟨hann, han⟩, rfl⟩, m.authority, _, ⟨⟨hnsn, hns⟩, rfl⟩, m.additional, r,
      ⟨⟨harn, har⟩, rfl⟩, rfl, rfl⟩

end Dns.Wire

end Packrat
