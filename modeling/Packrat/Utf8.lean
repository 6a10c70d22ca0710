/-!
# Utf8 — reading bytes as text

`Utf8.decodeLossy` reads any bytes as text. A run of bytes that starts a character and breaks off
counts as one fault, as does a byte that starts none; each fault becomes one replacement
character. The reader is a machine over single bytes: between characters, or inside one with a
range for its next byte.
-/

namespace Packrat.Utf8

/-- Inside a character: its number so far, how many bytes are missing, and the range of the next. -/
structure Pending where
  /-- The number that the bytes so far spell. -/
  code : Nat
  /-- How many bytes are missing behind the next one. -/
  later : Nat
  low : UInt8 := 0x80
  high : UInt8 := 0xbf
deriving DecidableEq, Repr

/-- What stands for a fault. -/
def replacement : Char := '\ufffd'

/-- A byte between characters: either a character of its own, or a fault, or the start of a longer
character. The second byte is restricted where a shorter spelling, a surrogate or a number too large
would follow. -/
def start (b : UInt8) : Char ⊕ Pending :=
  let n := b.toNat
  if n < 0x80 then .inl (.ofNat n)
  else if n < 0xc2 then .inl replacement
  else if n < 0xe0 then .inr { code := n - 0xc0, later := 0 }
  else if n = 0xe0 then .inr { code := 0, later := 1, low := 0xa0 }
  else if n = 0xed then .inr { code := 0xd, later := 1, high := 0x9f }
  else if n < 0xf0 then .inr { code := n - 0xe0, later := 1 }
  else if n = 0xf0 then .inr { code := 0, later := 2, low := 0x90 }
  else if n < 0xf4 then .inr { code := n - 0xf0, later := 2 }
  else if n = 0xf4 then .inr { code := 4, later := 2, high := 0x8f }
  else .inl replacement

/-- The characters so far and the character that a byte is in, after one more byte. -/
def step : List Char × Option Pending → UInt8 → List Char × Option Pending
  | (done, none), b => fresh done b
  | (done, some p), b =>
    if p.low ≤ b ∧ b ≤ p.high then
      let code := p.code * 64 + (b.toNat - 0x80)
      if p.later = 0 then (.ofNat code :: done, none)
      else (done, some { code, later := p.later - 1 })
    else fresh (replacement :: done) b
where
  /-- A byte between characters. -/
  fresh (done : List Char) (b : UInt8) : List Char × Option Pending :=
    match start b with
    | .inl c => (c :: done, none)
    | .inr p => (done, some p)

/-- Bytes as text, each fault replaced. -/
def decodeLossy (bytes : List UInt8) : String :=
  match bytes.foldl step ([], none) with
  | (done, none) => .ofList done.reverse
  | (done, some _) => .ofList (replacement :: done).reverse

/-- Bytes as text, if there is no fault in them. -/
def decode? (bytes : List UInt8) : Option String :=
  String.fromUTF8? (.mk bytes.toArray)

end Packrat.Utf8
