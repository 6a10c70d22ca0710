import Packrat.Proofs.Input.Agreement
import Packrat.Proofs.Plan.Yields
import Packrat.Proofs.Semantics.Adequacy

/-!
# Proofs/Plan/Knowing — plans for a known window

A plan may look where the window ends. In a window whose end is known the looks can be left out:
`Plan.knowing limit` is the plan that is left, and it is carried out alike. So it is all that counts
of a rule in that window, and it is the same for two inputs that agree up to the window's end
(`Node.knowing_rule`): there the rule reads the same bytes, and skips the same blanks.
-/

namespace Packrat

variable {υ σ : Type}

namespace Plan

variable {α : Type} {limit : Cursor}

/-- The plan in a window that ends at `limit`, without its looks. -/
def knowing (limit : Cursor) : Plan υ σ α → Plan υ σ α
  | done answer => done answer
  | look next => (next limit).knowing limit
  | apply window index start next => apply window index start fun step => (next step).knowing limit
  | call kind f start m next => call kind f start m fun answer => (next answer).knowing limit

/-- The same outcomes. -/
theorem yields_knowing {R : Outcomes υ} {p : Plan υ σ (Step υ)} {step : Step υ} :
    (p.knowing limit).Yields R limit step ↔ p.Yields R limit step := by
  induction p with
  | done answer => rfl
  | look next ih => exact ih limit
  | apply window index start next ih => exact exists_congr fun s => and_congr_right fun _ => ih s
  | call kind f start m next ih => exact exists_congr fun a => and_congr_right fun _ => ih a

end Plan

/-! ## Rules on inputs that agree -/

variable {input input' : Input} {limit start : Cursor}

theorem Input.Blanks.congr (h : Agree limit input input') {cursor rest : Cursor}
    (hblanks : input.Blanks limit cursor rest) : input'.Blanks limit cursor rest := by
  induction hblanks with
  | stop hstop => exact .stop fun b hb => hstop b ((h.byteAt?_eq _).trans hb)
  | skip hread hb hrest ih => exact .skip ((h.byteAt?_eq _).symm.trans hread) hb ih

/-- The same blanks are skipped, though one input may have more bytes to look at. -/
theorem Input.Agree.skipBlanks_eq (h : Agree limit input input') (start : Cursor) :
    Rule.skipBlanks input limit (input.bytes.size - start.byte) start
      = Rule.skipBlanks input' limit (input'.bytes.size - start.byte) start := by
  have hskip := (Input.blanks_skipBlanks (show input.bytes.size
    ≤ start.byte + (input.bytes.size - start.byte) by omega)).congr h
  exact hskip.unique (Input.blanks_skipBlanks (by omega))

namespace Rule

theorem knowing_token (h : Input.Agree limit input input') (bytes : List UInt8) :
    (token input bytes start : Plan υ σ (Step υ)).knowing limit
      = (token input' bytes start).knowing limit := by
  simp only [token, Plan.bind_eq_bind, Plan.bind_limit, Plan.knowing, h.bytesAt?_eq]

theorem knowing_byteIf (h : Input.Agree limit input input') (accepts : UInt8 → Bool) :
    (byteIf input accepts start : Plan υ σ (Step υ)).knowing limit
      = (byteIf input' accepts start).knowing limit := by
  simp only [byteIf, Plan.bind_eq_bind, Plan.bind_limit, Plan.knowing, h.byteAt?_eq]

theorem knowing_bits (h : Input.Agree limit input input') (width : Nat) (signed : Bool) :
    (bits input width signed start : Plan υ σ (Step υ)).knowing limit
      = (bits input' width signed start).knowing limit := by
  simp only [bits, Plan.bind_eq_bind, Plan.bind_limit, Plan.knowing, h.readBits?_eq]

theorem knowing_whitespace (h : Input.Agree limit input input') (inner : Rule υ σ) :
    (whitespace input inner start).knowing limit
      = (whitespace input' inner start).knowing limit := by
  simp only [whitespace, Plan.bind_eq_bind, Plan.bind_limit, Plan.knowing, h.skipBlanks_eq]

end Rule

/-- **In a window up to whose end two inputs agree, a combinator does the same on both.** -/
theorem Node.knowing_rule (n : Node Nat υ σ) (h : Input.Agree limit input input') :
    (n.rule input start).knowing limit = (n.rule input' start).knowing limit := by
  cases n with
  | token bytes => exact Rule.knowing_token h bytes
  | byte b => exact Rule.knowing_byteIf h _
  | byteRange low high => exact Rule.knowing_byteIf h _
  | byteIn set => exact Rule.knowing_byteIf h _
  | bits width signed => exact Rule.knowing_bits h width signed
  | whitespace p => exact Rule.knowing_whitespace h _
  -- No other combinator reads the input itself.
  | _ => rfl

end Packrat
