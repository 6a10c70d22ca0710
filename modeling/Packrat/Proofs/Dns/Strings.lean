import Packrat.Proofs.Dns.Object
import Packrat.Proofs.Semantics.Found
import Packrat.Proofs.Semantics.Reads

/-!
# Proofs/Dns/Strings — strings behind their counts

A string of bytes is written behind an octet that counts them (`Wire.framed`). A repetition of
windows that octets open, each collected to bytes, reads such strings: what runs find of it, in any
settings and any window between byte boundaries, is what was written there, string by string, and it
stops where the octet promises more than the window has left (`Grammar.strings_framed`).
-/

namespace Packrat

namespace Dns.Wire

/-- Where there is no string, nothing is left, or an octet promises more than follows. -/
theorem short_of_string_eq_none {l : List UInt8} (h : string l = none) :
    l = [] ∨ ∃ n rest, l = n :: rest ∧ rest.length < n.toNat := by
  cases l with
  | nil => exact .inl rfl
  | cons n rest =>
    refine .inr ⟨n, rest, rfl, Nat.lt_of_not_le fun hfit => ?_⟩
    have hlength : (rest.take n.toNat).length = n.toNat := by
      rw [List.length_take, Nat.min_eq_left hfit]
    have hread := decodes_string.apply_append (hlength ▸ n.toNat_lt) (rest.drop n.toNat)
    rw [framed, hlength, UInt8.ofNat_toNat, List.cons_append, List.take_append_drop, h] at hread
    cases hread

end Dns.Wire

namespace Grammar

open Dns Wire

variable {υ σ : Type} {g : Grammar υ σ} {o p m l s i first last : Nat} {input : Input}
  {step : Step υ}

section

variable (ho : g.IsNode o (.uint 1)) (hp : g.IsNode p (.uint 1)) (hm : g.IsNode m (.many p))
  (hl : g.IsNode l (.lengthValue o m)) (hs : g.IsNode s (.action l .toBytes))
  (hi : g.IsNode i (.many s))

include ho in
theorem reads_octet_word : g.Reads o .octet fun n : UInt8 => some (.word n.toNat 8) :=
  (reads_uint ho).map _ fun n =>
    congrArg (fun n => some (Value.word n 8)) (Nat.mod_eq_of_lt n.isLt).symm

include ho hp hm hl

theorem slotless_window : g.Slotless l := by
  have hoctet : ∀ {j : Nat}, g.IsNode j (.uint 1) → g.Slotless j := fun hj =>
    .node hj fun c hc => absurd hc List.not_mem_nil
  have hmany : g.Slotless m := .node hm (List.forall_mem_singleton.2 (hoctet hp))
  exact .node hl (List.forall_mem_cons.2 ⟨hoctet ho, List.forall_mem_singleton.2 hmany⟩)

include hs

/-- The window that an octet opens, collected to bytes, reads a string. -/
theorem reads_string : g.Reads s string fun bytes => some (.bytes bytes) := by
  have hoctets := (reads_octet_word hp).many hm Scan.consumes_octet
  have hwindow := (reads_octet_word ho).lengthValue hl hoctets fun n : UInt8 =>
    (Option.bind_some ..).trans (word?_word (Nat.lt_trans n.toNat_lt (by decide)))
  exact hwindow.action hs toBytes_octets

include hi

/-- Strings are read until there is none. -/
theorem strings_of_found (hfirst : first ≤ last) (hlast : last ≤ input.bytes.size)
    (hsize : 8 * input.bytes.size < wordBound)
    (hfound : g.Found input i (.atByte first) (.atByte last) step) :
    ∃ (strings : List (List UInt8)) (mid : Nat),
      step = .ok ⟨.atByte mid, some (.sequence (strings.map .bytes))⟩ ∧ first ≤ mid ∧ mid ≤ last
        ∧ (∀ bytes ∈ strings, bytes.length < 256)
        ∧ input.slice first last = strings.flatMap framed ++ input.slice mid last
        ∧ string (input.slice mid last) = none := by
  have hslotless : g.Slotless i := .node hi (List.forall_mem_singleton.2
    (.node hs (List.forall_mem_singleton.2 (slotless_window ho hp hm hl))))
  have hreads := (reads_string ho hp hm hl hs).many hi consumes_string
  have hsettles := hfound.settles (lt_size_of_entry hi) (hslotless.fatal?_eq_none hfound)
  obtain ⟨_, -, hnone⟩ | ⟨strings, mid, rfl, hmid, hmid', hread⟩ :=
    hreads.cases hfirst hlast hsize hsettles
  · obtain ⟨_, _, hsome⟩ := Scan.exists_many_eq_some string (input.slice first last)
    cases hnone.symm.trans hsome
  · obtain ⟨hfit, hslice, hend⟩ := (decodes_string.many_eq_some consumes_string).1 hread
    have hvalues : strings.filterMap (fun bytes => some (.bytes bytes : Value υ))
        = strings.map .bytes := congrFun List.filterMap_eq_map strings
    exact ⟨strings, mid, by rw [hvalues], hmid, hmid', hfit, hslice, hend⟩

/-- **Strings behind their counts are read one by one.** What is written as such strings is read as
them, to the end of the window; what is read to the end of the window is written so; and in any case
it is read up to the first octet that promises more than the window has left. -/
theorem strings_framed (hfirst : first ≤ last) (hlast : last ≤ input.bytes.size)
    (hsize : 8 * input.bytes.size < wordBound)
    (hfound : g.Found input i (.atByte first) (.atByte last) step) :
    (∀ strings : List (List UInt8), (∀ bytes ∈ strings, bytes.length < 256) →
        input.slice first last = strings.flatMap framed →
        step = .ok ⟨.atByte last, some (.sequence (strings.map .bytes))⟩)
      ∧ (∀ value, step = .ok ⟨.atByte last, value⟩ → ∃ strings : List (List UInt8),
          value = some (.sequence (strings.map .bytes)) ∧ (∀ bytes ∈ strings, bytes.length < 256)
            ∧ strings.flatMap framed = input.slice first last)
      ∧ ∃ (strings : List (List UInt8)) (mid : Nat),
          step = .ok ⟨.atByte mid, some (.sequence (strings.map .bytes))⟩ ∧ first ≤ mid ∧ mid ≤ last
            ∧ (∀ bytes ∈ strings, bytes.length < 256)
            ∧ input.slice first last = strings.flatMap framed ++ input.slice mid last
            ∧ (mid = last ∨
              ∃ n rest, input.slice mid last = n :: rest ∧ rest.length < n.toNat) := by
  obtain ⟨strings, mid, rfl, hmid, hmid', hfit, hslice, hend⟩ :=
    strings_of_found ho hp hm hl hs hi hfirst hlast hsize hfound
  have hnil : input.slice last last = [] :=
    List.length_eq_zero_iff.1 ((Input.length_slice hlast).trans (Nat.sub_self last))
  have hmany := (decodes_string.many_eq_some consumes_string).2 ⟨hfit, hslice, hend⟩
  refine ⟨fun strings' hfit' hslice' => ?_, fun value hvalue => ?_,
    strings, mid, rfl, hmid, hmid', hfit, hslice, ?_⟩
  · -- Both are what the scan reads there.
    have hread := (decodes_string.many consumes_string _ strings').2 ⟨hfit', hslice'⟩
    obtain ⟨rfl, hrest⟩ := Prod.mk.inj (Option.some.inj (hmany.symm.trans hread))
    have hlength : last - mid = 0 := by rw [← Input.length_slice hlast, hrest, List.length_nil]
    rw [Nat.le_antisymm hmid' (Nat.sub_eq_zero_iff_le.1 hlength)]
  · obtain ⟨hstop, rfl⟩ := Match.mk.inj (Except.ok.inj hvalue)
    obtain rfl : mid = last := congrArg Cursor.byte hstop
    rw [hnil, List.append_nil] at hslice
    exact ⟨strings, rfl, hfit, hslice.symm⟩
  · obtain hempty | hshort := short_of_string_eq_none hend
    · have hlength : last - mid = 0 := by rw [← Input.length_slice hlast, hempty, List.length_nil]
      exact .inl (Nat.le_antisymm hmid' (Nat.sub_eq_zero_iff_le.1 hlength))
    · exact .inr hshort

end

/-! ## A grammar of strings -/

/-- Strings behind their counts. -/
def strings : Grammar Unit Unit where
  id := 0
  entries := #[.node (.uint 1), .node (.many 0), .node (.lengthValue 0 1),
    .node (.action 2 .toBytes), .node (.many 3)]
  targets := #[]
  child_lt := by decide
  slot_lt := by
    intro i h slot he
    have hmem := Array.getElem_mem h
    rw [he] at hmem
    simp only [List.mem_toArray, List.mem_cons, reduceCtorEq, List.not_mem_nil, or_false] at hmem
  target_lt := by decide

/-- A string of two letters and an empty one in a window, and more behind the window. -/
theorem strings_framed_window :
    let input : Input := ⟨#[2, 0x61, 0x62, 0, 5, 0x63]⟩
    let step : Nat → List (List UInt8) → Step Unit := fun stop read =>
      .ok ⟨.atByte stop, some (.sequence (read.map .bytes))⟩
    strings.Found input 4 (.atByte 0) (.atByte 4) (step 4 [[0x61, 0x62], []])
      ∧ strings.Found input 4 (.atByte 0) (.atByte 6) (step 4 [[0x61, 0x62], []])
      ∧ (∃ read : List (List UInt8), some (.sequence ([[0x61, 0x62], []].map .bytes))
            = some (.sequence (read.map .bytes) : Value Unit)
          ∧ (∀ bytes ∈ read, bytes.length < 256) ∧ read.flatMap framed = input.slice 0 4)
      ∧ ∃ (read : List (List UInt8)) (mid : Nat), step 4 [[0x61, 0x62], []] = step mid read
          ∧ (mid = 6 ∨ ∃ n rest, input.slice mid 6 = n :: rest ∧ rest.length < n.toNat) := by
  intro input step
  have hfound : strings.Found input 4 (.atByte 0) (.atByte 4) (step 4 [[0x61, 0x62], []]) :=
    ⟨{}, 0, { Run.fresh input () with limit := .atByte 4 }, fresh_sound strings input (), rfl,
      by decide +kernel⟩
  have hfound' : strings.Found input 4 (.atByte 0) (.atByte 6) (step 4 [[0x61, 0x62], []]) :=
    .of_fresh {} 0 () (by decide +kernel)
  obtain ⟨-, hwhole, -⟩ := strings_framed rfl rfl rfl rfl rfl rfl (by decide) (by decide)
    (by decide) hfound
  obtain ⟨-, -, read, mid, hstep, -, -, -, -, hend⟩ := strings_framed rfl rfl rfl rfl rfl rfl
    (by decide) (by decide) (by decide) hfound'
  exact ⟨hfound, hfound', hwhole _ rfl, read, mid, hstep, hend⟩

end Grammar

end Packrat
