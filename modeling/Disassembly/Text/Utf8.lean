/-! # Bytes as text

Bytes are read as UTF-8 one at a time. Where they are no text, a mark stands in their place: one for
each longest run of bytes that begins a character and does not end it, and one for each byte that
begins none.
-/

namespace Disassembly.Text

def replacementMark : Char := '\ufffd'

/-- A character of which some bytes are still to come. -/
structure PartialChar where
  bits : Nat
  owed : Nat
  least : Nat := 0x80
  greatest : Nat := 0xbf
  deriving DecidableEq, Repr

inductive ByteReading where
  | whole (c : Char)
  | unfinished (p : PartialChar)
  deriving DecidableEq, Repr

/-- What a byte begins; none if it begins no character. After some first bytes not every second byte
can follow: there is one way to write a character, and surrogates and what is beyond the last
character are none. -/
def firstByte? (b : Nat) : Option ByteReading :=
  if b < 0x80 then some (.whole (Char.ofNat b))
  else if b < 0xc2 then none
  else if b < 0xe0 then some (.unfinished { bits := b % 0x20, owed := 1 })
  else if b < 0xf0 then
    some (.unfinished {
      bits := b % 0x10, owed := 2
      least := if b = 0xe0 then 0xa0 else 0x80
      greatest := if b = 0xed then 0x9f else 0xbf })
  else if b < 0xf5 then
    some (.unfinished {
      bits := b % 0x08, owed := 3
      least := if b = 0xf0 then 0x90 else 0x80
      greatest := if b = 0xf4 then 0x8f else 0xbf })
  else none

def PartialChar.nextByte? (p : PartialChar) (b : Nat) : Option ByteReading :=
  if b < p.least ∨ p.greatest < b then none
  else
    let bits := p.bits * 0x40 + b % 0x40
    if p.owed ≤ 1 then some (.whole (Char.ofNat bits))
    else some (.unfinished { bits, owed := p.owed - 1 })

/-- Reads bytes behind those of an unfinished character, if there is one. -/
def charsFrom : Option PartialChar → List UInt8 → List Char
  | none, [] => []
  | some _, [] => [replacementMark]
  | p, b :: bs =>
    match p.bind (·.nextByte? b.toNat) with
    | some (.whole c) => c :: charsFrom none bs
    | some (.unfinished p) => charsFrom (some p) bs
    | none =>
      let broken := if p.isSome then [replacementMark] else []
      match firstByte? b.toNat with
      | some (.whole c) => broken ++ c :: charsFrom none bs
      | some (.unfinished p) => broken ++ charsFrom (some p) bs
      | none => broken ++ replacementMark :: charsFrom none bs

def textOfBytes (bytes : Array UInt8) : String :=
  String.ofList (charsFrom none bytes.toList)

-- two broken characters, and a byte that begins none, leave three marks
example :
    charsFrom none [0xe2, 0x82, 0x41, 0xf0, 0x9f, 0xff] =
      [replacementMark, 'A', replacementMark, replacementMark] := by
  decide +kernel

end Disassembly.Text
