import Packrat.Dns.Reader
import Packrat.Proofs.Builder.Ensures
import Packrat.Proofs.Dns.Object
import Packrat.Proofs.Semantics.Fields

/-!
# Proofs/Dns/Layout — what the grammar of messages reads

The grammar is gone through as it is built, part by part: every combinator in it does what a scan
does, and every action makes something of each value that it can be given. The three roots read a
header, a question and a record (`exists_reader`).
-/

namespace Packrat.Dns

open Build Wire

variable {g : Grammar Object Unit} {i j : Nat}

/-! ## Numbers -/

def octetValue (n : UInt8) : Option (Value Object) := some (.word n.toNat 8)

def wordValue (n : UInt16) : Option (Value Object) := some (.word n.toNat 16)

def longValue (n : UInt32) : Option (Value Object) := some (.word n.toNat 32)

theorem octetValue_word? (n : UInt8) : (octetValue n).bind Value.word? = some n.toNat := by
  rw [octetValue, Option.bind_some, word?_word (Nat.lt_trans n.toNat_lt (by decide))]

theorem wordValue_word? (n : UInt16) : (wordValue n).bind Value.word? = some n.toNat := by
  rw [wordValue, Option.bind_some, word?_word (Nat.lt_trans n.toNat_lt (by decide))]

theorem reads_octet (he : g.entries[i]? = some (.node (.uint 1))) :
    g.Reads i .octet octetValue :=
  (Grammar.reads_uint he).map _ fun n =>
    congrArg (fun n => some (Value.word n 8)) (Nat.mod_eq_of_lt n.isLt).symm

theorem reads_word (he : g.entries[i]? = some (.node (.uint 2))) : g.Reads i .word wordValue :=
  (Grammar.reads_uint he).map _ fun n =>
    congrArg (fun n => some (Value.word n 16)) (Nat.mod_eq_of_lt n.isLt).symm

theorem reads_long (he : g.entries[i]? = some (.node (.uint 4))) : g.Reads i .long longValue :=
  (Grammar.reads_uint he).map _ fun n =>
    congrArg (fun n => some (Value.word n 32)) (Nat.mod_eq_of_lt n.isLt).symm

theorem reads_within {low high : Nat} (he : g.entries[i]? = some (.node (.intRange j low high)))
    (h : g.Reads j .word wordValue) : g.Reads i (.filter (within low high) .word) wordValue :=
  h.intRange he fun n => by
    rw [within, decide_eq_true_iff]
    simp only [Integer.toInt]
    omega

/-- What numbers read. -/
structure ReadsNumbers (g : Grammar Object Unit) (n : Layout.Numbers) : Prop where
  octet : g.Reads n.octet.index .octet octetValue
  word : g.Reads n.word.index .word wordValue
  long : g.Reads n.long.index .long longValue
  recordType : g.Reads n.recordType.index (.filter (within 1 16) .word) wordValue
  questionType : g.Reads n.questionType.index
    (.first [.filter (within 1 16) .word, .filter (within 252 255) .word]) wordValue
  recordClass : g.Reads n.recordClass.index (.filter (within 1 4) .word) wordValue
  questionClass : g.Reads n.questionClass.index
    (.first [.filter (within 1 4) .word, .filter (within 255 255) .word]) wordValue

theorem ensures_numbers (g : Grammar Object Unit) : Ensures g Layout.numbers (ReadsNumbers g) := by
  refine .add trivial fun octet => ?_
  refine .add trivial fun word => ?_
  refine .add trivial fun long => ?_
  refine .add trivial fun recordType => ?_
  refine .add trivial fun metaType => ?_
  refine .add trivial fun questionType => ?_
  refine .add trivial fun recordClass => ?_
  refine .add trivial fun anyClass => ?_
  refine .add trivial fun questionClass => ?_
  refine ensures_pure fun hqclass hany hclass hqtype hmeta htype hlong hword hoctet => ?_
  have word := reads_word hword.2
  have type : g.Reads recordType.index (.filter (within 1 16) .word) wordValue :=
    reads_within htype.2 word
  have class' : g.Reads recordClass.index (.filter (within 1 4) .word) wordValue :=
    reads_within hclass.2 word
  exact {
    octet := reads_octet hoctet.2
    word
    long := reads_long hlong.2
    recordType := type
    questionType := Grammar.reads_choice hqtype.2 (.cons type
      (.cons (reads_within hmeta.2 word) .nil))
    recordClass := class'
    questionClass := Grammar.reads_choice hqclass.2 (.cons class'
      (.cons (reads_within hany.2 word) .nil)) }

/-! ## Bytes and names -/

def bytesValue (bytes : List UInt8) : Option (Value Object) := some (.bytes bytes)

def nameValue (n : Wire.Name) : Option (Value Object) := some (.user (.name n.read))

/-- What bytes and names read. -/
structure ReadsNames (g : Grammar Object Unit) (n : Layout.Names) : Prop where
  octets : g.Reads n.octets.index (.many .octet) fun bs =>
    some (.sequence (bs.filterMap octetValue))
  bytes : g.Reads n.bytes.index (.many .octet) bytesValue
  questionName : g.Reads n.questionName.index Wire.Name.scan1 nameValue
  domain : g.Reads n.domain.index Wire.Name.scan nameValue

/-- An action that makes a part of what was read. -/
theorem Reads.making {α β : Type} {f : Scan α} {view : α → Option (Value Object)}
    {object : β → Object} {make : Value Object → Made β}
    (he : g.entries[i]? = some (.node (.action j (making object make)))) (h : g.Reads j f view)
    {made : α → β} (hmake : ∀ a, make ((view a).getD .none) = .ok (made a)) :
    g.Reads i f fun a => some (.user (object (made a))) :=
  h.action he fun a => by rw [hmake]; rfl

theorem reads_bytes (he : g.entries[i]? = some (.node (.action j .toBytes))) {f : Scan (List UInt8)}
    (h : g.Reads j f fun bs => some (.sequence (bs.filterMap octetValue))) :
    g.Reads i f bytesValue :=
  h.action he toBytes_octets

theorem ensures_names (g : Grammar Object Unit) (n : Layout.Numbers) :
    Ensures g (Layout.names n) fun names => ReadsNumbers g n → ReadsNames g names := by
  refine .add trivial fun octets => ?_
  refine .add (Callback.isPure_ofFunction _) fun bytes => ?_
  refine .add trivial fun labelLength => ?_
  refine .add trivial fun labelWindow => ?_
  refine .add (Callback.isPure_ofFunction _) fun label => ?_
  refine .add trivial fun root => ?_
  refine .add trivial fun someLabels => ?_
  refine .add trivial fun questionParts => ?_
  refine .add (Callback.isPure_ofFunction _) fun questionName => ?_
  refine .add trivial fun labels => ?_
  refine .add trivial fun domainParts => ?_
  refine .add (Callback.isPure_ofFunction _) fun domain => ?_
  refine ensures_pure fun hdomain hdomainParts hlabels hqname hqparts hsome hroot hlabel hwindow
    hlength hbytes hoctets hn => ?_
  have octets := hn.octet.many hoctets.2 Scan.consumes_octet
  have length : g.Reads labelLength.index (.filter Wire.labelLength .octet) octetValue :=
    hn.octet.intRange hlength.2 fun n => by
      rw [Wire.labelLength, decide_eq_true_iff]
      simp only [Integer.toInt]
      omega
  have label : g.Reads label.index Wire.label bytesValue :=
    reads_bytes hlabel.2 (length.lengthValue hwindow.2 octets octetValue_word?)
  have root := g.readsAll_nil.cons (Grammar.reads_byte hroot.2)
  have some := Grammar.reads_sequence hqparts.2 (root.cons (label.many1 hsome.2 consumes_label))
  have any := Grammar.reads_sequence hdomainParts.2
    (root.cons (label.many hlabels.2 consumes_label))
  exact {
    octets
    bytes := reads_bytes hbytes.2 octets
    questionName := (Reads.making hqname.2 some fun p => makeName_eq p.1 _).map _ fun _ => rfl
    domain := (Reads.making hdomain.2 any fun p => makeName_eq p.1 _).map _ fun _ => rfl }

/-! ## Questions -/

theorem ensures_question (g : Grammar Object Unit) (n : Layout.Numbers) (names : Layout.Names) :
    Ensures g (Layout.question n names) fun h => ReadsNumbers g n → ReadsNames g names →
      g.Owns h ∧ g.Reads h.index Wire.Question.scan fun q => some (.user (.question q.read)) := by
  refine .add trivial fun parts => ?_
  refine Ensures.imp (ensures_add (Callback.isPure_ofFunction _ : (_ : Action Object Unit).IsPure))
    fun question hquestion hparts hn hnames => ⟨hquestion.owns, ?_⟩
  have parts := Grammar.reads_sequence hparts.2
    (((g.readsAll_nil.cons hn.questionClass).cons hn.questionType).cons hnames.questionName)
  exact (Reads.making hquestion.2 parts fun p => makeQuestion_eq ⟨p.1, p.2.1, p.2.2.1⟩).map _
    fun _ => rfl

/-! ## Resource data -/

def rdataValue (d : Wire.Rdata) : Option (Value Object) := some (.user (.rdata d.read))

/-- What resource data reads, layout by layout. -/
structure ReadsData (g : Grammar Object Unit) (d : Layout.Data) : Prop where
  typed : List.Forall₂ (fun h k => g.Reads h.index k.scan rdataValue)
    [d.a, d.name, d.soa, d.null, d.wks, d.hinfo, d.minfo, d.mx, d.txt] dataLayouts
  unparsed : g.Reads d.unparsed.index (.unparsed <$> .many .octet) rdataValue

theorem ensures_data (g : Grammar Object Unit) (n : Layout.Numbers) (names : Layout.Names) :
    Ensures g (Layout.data n names) fun data =>
      ReadsNumbers g n → ReadsNames g names → ReadsData g data := by
  have hpure {make : Value Object → Made Dns.Rdata} :
      ((making .rdata make : Action Object Unit)).IsPure := Callback.isPure_ofFunction _
  refine .add trivial fun window => ?_
  refine .add (Callback.isPure_ofFunction _) fun string => ?_
  refine .add hpure fun a => ?_
  refine .add hpure fun name => ?_
  refine .add trivial fun soaParts => ?_
  refine .add hpure fun soa => ?_
  refine .add hpure fun null => ?_
  refine .add trivial fun wksParts => ?_
  refine .add hpure fun wks => ?_
  refine .add trivial fun hinfoParts => ?_
  refine .add hpure fun hinfo => ?_
  refine .add trivial fun minfoParts => ?_
  refine .add hpure fun minfo => ?_
  refine .add trivial fun mxParts => ?_
  refine .add hpure fun mx => ?_
  refine .add trivial fun txtParts => ?_
  refine .add hpure fun txt => ?_
  refine .add hpure fun unparsed => ?_
  refine ensures_pure fun hunparsed htxt htxtParts hmx hmxParts hminfo hminfoParts hhinfo
    hhinfoParts hwks hwksParts hnull hsoa hsoaParts hname ha hstring hwindow hn hnames => ?_
  have string : g.Reads string.index Wire.string bytesValue :=
    reads_bytes hstring.2 (hn.octet.lengthValue hwindow.2 hnames.octets octetValue_word?)
  have nil := g.readsAll_nil
  have soaParts := Grammar.reads_sequence hsoaParts.2
    (((((((nil.cons hn.long).cons hn.long).cons hn.long).cons hn.long).cons hn.long).cons
      hnames.domain).cons hnames.domain)
  have wksParts := Grammar.reads_sequence hwksParts.2
    (((nil.cons hnames.bytes).cons hn.octet).cons hn.long)
  have hinfoParts := Grammar.reads_sequence hhinfoParts.2 ((nil.cons string).cons string)
  have minfoParts := Grammar.reads_sequence hminfoParts.2
    ((nil.cons hnames.domain).cons hnames.domain)
  have mxParts := Grammar.reads_sequence hmxParts.2 ((nil.cons hnames.domain).cons hn.word)
  have txtParts := string.many1 htxtParts.2 consumes_string
  constructor
  · refine .cons ?_ (.cons ?_ (.cons ?_ (.cons ?_ (.cons ?_ (.cons ?_ (.cons ?_ (.cons ?_
      (.cons ?_ .nil))))))))
    · exact (Reads.making ha.2 hn.long makeA_eq).map _ fun _ => rfl
    · exact (Reads.making hname.2 hnames.domain makeNameRdata_eq).map _ fun _ => rfl
    · exact (Reads.making hsoa.2 soaParts fun p => makeSoa_eq p.1 p.2.1 p.2.2.1 p.2.2.2.1
        p.2.2.2.2.1 p.2.2.2.2.2.1 p.2.2.2.2.2.2.1).map _ fun _ => rfl
    · exact (Reads.making hnull.2 hnames.bytes fun _ => rfl).map _ fun _ => rfl
    · exact (Reads.making hwks.2 wksParts fun p => makeWks_eq p.1 p.2.1 p.2.2.1).map _ fun _ => rfl
    · exact (Reads.making hhinfo.2 hinfoParts fun p => makeHinfo_eq p.1 p.2.1).map _ fun _ => rfl
    · exact (Reads.making hminfo.2 minfoParts fun p => makeMinfo_eq p.1 p.2.1).map _ fun _ => rfl
    · exact (Reads.making hmx.2 mxParts fun p => makeMx_eq p.1 p.2.1).map _ fun _ => rfl
    · exact (Reads.making htxt.2 txtParts makeTxt_eq).map _ fun _ => rfl
  · exact (Reads.making hunparsed.2 hnames.bytes fun _ => rfl).map _ fun _ => rfl

/-! ## Records -/

/-- The values of a record's parts in a row. -/
def recordValue (r : Wire.Record) : Option (Value Object) :=
  some (.sequence [.user (.name r.name.read), .word r.rtype.toNat 16, .word r.rclass.toNat 16,
    .word r.ttl.toNat 32, .user (.rdata r.rdata.read)])

/-- What is read by the layouts of records, each with its type and its data. -/
theorem reads_alternatives {layouts : List (Handle × Handle)} {records : List Handle}
    (ks : List ((UInt16 → Bool) × Scan Wire.Rdata))
    (h : List.Forall₂ (fun p h => ∀ accepts scan,
      g.Reads p.1.index (.filter accepts .word) wordValue → g.Reads p.2.index scan rdataValue →
        g.Reads h.index (Wire.Record.alternative accepts scan) recordValue) layouts records)
    (hlayouts : List.Forall₂ (fun p k => g.Reads p.1.index (.filter k.1 .word) wordValue
      ∧ g.Reads p.2.index k.2 rdataValue) layouts ks) :
    List.Forall₂ (fun c f => g.Reads c f recordValue) (records.map Handle.index)
      (ks.map fun k => Wire.Record.alternative k.1 k.2) := by
  induction h generalizing ks with
  | nil =>
    cases hlayouts
    exact .nil
  | cons h _ ih =>
    cases hlayouts with
    | cons hk hlayouts => exact .cons (h _ _ hk.1 hk.2) (ih _ hlayouts)

theorem ensures_record (g : Grammar Object Unit) (n : Layout.Numbers) (names : Layout.Names)
    (data : Layout.Data) : Ensures g (Layout.record n names data) fun h =>
      ReadsNumbers g n → ReadsNames g names → ReadsData g data →
        g.Owns h ∧ g.Reads h.index Wire.Record.scan fun r => some (.user (.record r.read)) := by
  refine (ensures_mapM (R := fun range h => g.Has h (.intRange n.word range.1 range.2))
    fun _ _ => ensures_add ?range).bind fun nameTypes => ?_
  case range => exact trivial
  refine .add trivial fun nameType => ?_
  refine .add trivial fun type1 => ?_
  refine .add trivial fun type6 => ?_
  refine .add trivial fun type10 => ?_
  refine .add trivial fun type11 => ?_
  refine .add trivial fun type13 => ?_
  refine .add trivial fun type14 => ?_
  refine .add trivial fun type15 => ?_
  refine .add trivial fun type16 => ?_
  refine (ensures_mapM (R := fun p h => ReadsNumbers g n → ReadsNames g names → ∀ accepts scan,
    g.Reads p.1.index (.filter accepts .word) wordValue → g.Reads p.2.index scan rdataValue →
      g.Reads h.index (Wire.Record.alternative accepts scan) recordValue) ?each).bind
        fun records => ?_
  case each =>
    rintro ⟨type, data⟩ -
    refine .add trivial fun window => ?_
    refine Ensures.imp (ensures_add trivial) fun record hrecord hwindow hn hnames accepts scan htype
      hdata => ?_
    have window := hn.word.lengthValue hwindow.2 hdata wordValue_word?
    exact (Grammar.reads_sequence hrecord.2 (((((g.readsAll_nil.cons window).cons hn.long).cons
      hn.recordClass).cons htype).cons hnames.domain)).map _ fun _ => rfl
  refine .add trivial fun anyRecord => ?_
  refine Ensures.imp (ensures_add (Callback.isPure_ofFunction _ : (_ : Action Object Unit).IsPure))
    fun record hrecord hany hrecords h16 h15 h14 h13 h11 h10 h6 h1 hname hnames' hn hnames
      hdata => ⟨hrecord.owns, ?_⟩
  have type {h : Handle} {code : Nat} (hh : g.Has h (.intRange n.word code code)) :
      g.Reads h.index (.filter (within code code) .word) wordValue := reads_within hh.2 hn.word
  have name : g.Reads nameType.index
      (.filter (fun t => [within 2 5, within 7 9, within 12 12].any (· t)) .word) wordValue := by
    rw [← Scan.first_filter]
    refine Grammar.reads_choice hname.2 ?_
    cases hnames' with
    | cons h2 hnames' =>
    cases hnames' with
    | cons h7 hnames' =>
    cases hnames' with
    | cons h12 hnames' =>
    cases hnames'
    exact .cons (reads_within h2.2 hn.word) (.cons (reads_within h7.2 hn.word)
      (.cons (reads_within h12.2 hn.word) .nil))
  have typed := hdata.typed
  simp only [dataLayouts, List.forall₂_cons, List.forall₂_nil_left_iff] at typed
  obtain ⟨a, name', soa, null, wks, hinfo, minfo, mx, txt, -⟩ := typed
  have any := Grammar.reads_choice hany.2 (reads_alternatives
    (dataLayouts.map (fun k => (k.accepts, k.scan)) ++ [(within 1 16, .unparsed <$> .many .octet)])
    (hrecords.imp fun _ _ h => h hn hnames)
    (.cons ⟨type h1, a⟩ (.cons ⟨name, name'⟩ (.cons ⟨type h6, soa⟩ (.cons ⟨type h10, null⟩
      (.cons ⟨type h11, wks⟩ (.cons ⟨type h13, hinfo⟩ (.cons ⟨type h14, minfo⟩
        (.cons ⟨type h15, mx⟩ (.cons ⟨type h16, txt⟩
          (.cons ⟨hn.recordType, hdata.unparsed⟩ .nil)))))))))))
  exact (Reads.making hrecord.2 any makeRecord_eq).congr rfl

/-! ## The header -/

theorem ensures_header (g : Grammar Object Unit) : Ensures g Layout.header fun h =>
    g.Owns h ∧ g.Reads h.index headerScan fun a => some (.user (.header a)) := by
  refine .add trivial fun id => ?_
  refine .add trivial fun qr => ?_
  refine .add trivial fun opcode => ?_
  refine .add trivial fun aa => ?_
  refine .add trivial fun tc => ?_
  refine .add trivial fun rd => ?_
  refine .add trivial fun ra => ?_
  refine .add trivial fun bits => ?_
  refine .add (Callback.isPure_ofFunction _) fun zero => ?_
  refine .add trivial fun reserved => ?_
  refine .add trivial fun rcode => ?_
  refine .add trivial fun questions => ?_
  refine .add trivial fun answers => ?_
  refine .add trivial fun authority => ?_
  refine .add trivial fun additional => ?_
  refine .add trivial fun parts => ?_
  refine Ensures.imp (ensures_add (Callback.isPure_ofFunction _ : (_ : Action Object Unit).IsPure))
    fun header hheader hparts har hns han hqd hrcode hreserved hzero hbits hra hrd htc haa hopcode
      hqr hid => ⟨hheader.owns, ?_⟩
  have hsmall : ∀ n : Fin (2 ^ 3), (n : Nat) < 2 ^ 3 := Fin.isLt
  have zero : g.Field zero.index 3 (fun n => n.val == 0) fun n => some (.word n 3) :=
    (Grammar.field_bits hbits.2).satisfying hzero.2 fun n =>
      congrArg (fun w : Option Nat => Except.ok (w == some 0))
        (word?_word (Nat.lt_trans (hsmall n) (by decide)))
  have word {h : Handle} (hh : g.Has h (.uint 2)) := Grammar.field_bits hh.2
  have flag {h : Handle} (hh : g.Has h (.bits 1 false)) := Grammar.field_bits hh.2
  have fields := Grammar.reads_fields hparts.2
    (((((((((((((g.fieldsAll_nil.cons (word har)).cons (word hns)).cons (word han)).cons
      (word hqd)).cons (Grammar.field_bits hrcode.2)).cons (zero.ignore hreserved.2)).cons
        (flag hra)).cons (flag hrd)).cons (flag htc)).cons (flag haa)).cons
          (Grammar.field_bits hopcode.2)).cons (flag hqr)).cons (Grammar.field_bits hid.2))
    (by decide)
  simp only [Bool.true_and, Bool.and_true] at fields
  exact (Reads.making hheader.2 fields makeHeader_eq).map headerOf fun _ => rfl

/-! ## The grammar -/

/-- What the roots read. -/
structure ReadsRoots (g : Grammar Object Unit) (roots : Roots) : Prop where
  ownsHeader : g.Owns roots.header
  ownsQuestion : g.Owns roots.question
  ownsRecord : g.Owns roots.record
  header : g.Reads roots.header.index headerScan fun a => some (.user (.header a))
  question : g.Reads roots.question.index Wire.Question.scan fun q =>
    some (.user (.question q.read))
  record : g.Reads roots.record.index Wire.Record.scan fun r => some (.user (.record r.read))

theorem ensures_layout (g : Grammar Object Unit) : Ensures g layout (ReadsRoots g) := by
  refine (ensures_header g).bind fun header => ?_
  refine (ensures_numbers g).bind fun numbers => ?_
  refine (ensures_names g numbers).bind fun names => ?_
  refine (ensures_question g numbers names).bind fun question => ?_
  refine (ensures_data g numbers names).bind fun data => ?_
  refine (ensures_record g numbers names data).bind fun record => ?_
  refine ensures_pure fun hrecord hdata hquestion hnames hn hheader => ?_
  have names := hnames hn
  have question := hquestion hn names
  have record := hrecord hn names (hdata hn names)
  exact ⟨hheader.1, question.1, record.1, hheader.2, question.2, record.2⟩

/-- **There is a reader**, and its roots read the parts of a message. -/
theorem exists_reader : ∃ reader, Reader.make = .ok reader ∧ reader.grammar.PureCallbacks
    ∧ ReadsRoots reader.grammar reader.roots := by
  have hbuilt : ((layout.run.run (Builder.new 0)).1.toOption).isSome := by decide +kernel
  obtain ⟨roots, hroots⟩ := Option.isSome_iff_exists.1 hbuilt
  have hok : (layout.run.run (Builder.new 0)).1 = .ok roots := by
    cases hrun : (layout.run.run (Builder.new 0)).1 with
    | error e =>
      rw [hrun] at hroots
      cases hroots
    | ok r =>
      rw [hrun] at hroots
      exact congrArg Except.ok (Option.some.inj hroots)
  obtain ⟨g, hfinish, hreads, hpure⟩ := Ensures.finish ensures_layout hok
  refine ⟨⟨g, roots⟩, ?_, hpure, hreads⟩
  unfold Reader.make
  revert hok hfinish
  generalize layout.run.run (Builder.new 0) = built
  obtain ⟨r, b⟩ := built
  rintro (rfl : r = _) (hfinish : b.finish = _)
  dsimp only
  rw [hfinish]
  rfl

end Packrat.Dns
