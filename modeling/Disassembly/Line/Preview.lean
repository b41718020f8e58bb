/-! # String previews

A pushed address may be that of a string. Text in one byte per character and text in two read the
same: a single NUL behind a character is skipped, and two in a row end the string.
-/

namespace Disassembly

def isPrintable (b : UInt8) : Bool :=
  0x20 ≤ b && b ≤ 0x7e

/-- The characters at the front of some bytes; `skip` tells whether a NUL may be skipped here. -/
def stringAt (skip : Bool) : List UInt8 → List Char
  | [] => []
  | b :: bs =>
    if isPrintable b then Char.ofNat b.toNat :: stringAt true bs
    else if b = 0 ∧ skip then stringAt false bs
    else []

/-- The string at the front of `bytes` in quotes, cut behind `limit` characters; none if it is
empty. -/
def stringPreview? (bytes : List UInt8) (limit : Nat) : Option String :=
  let text := stringAt false bytes
  if text = [] then none
  else
    let shown := if limit < text.length then text.take limit ++ ['.', '.', '.'] else text
    some (String.ofList ('"' :: shown ++ ['"']))

end Disassembly
