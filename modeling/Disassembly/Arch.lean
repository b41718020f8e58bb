import Disassembly.Text.Numeral

/-! # Architectures

The two widths of x86, and a name for everything else. Several spellings name the same architecture.
-/

namespace Disassembly

inductive Arch where
  | x86
  | x64
  /-- No decoder here knows this one. -/
  | other (name : String)
  deriving DecidableEq, Repr

namespace Arch

/-- The architecture that `name` spells, in either case. -/
def ofName (name : String) : Arch :=
  let lower := name.map Char.toLower
  if lower ∈ ["x86", "i386", "x86-32", "32"] then .x86
  else if lower ∈ ["x64", "x86_64", "x86-64", "amd64", "64"] then .x64
  else .other name

def name : Arch → String
  | .x86 => "x86"
  | .x64 => "x64"
  | .other name => name

/-- The number of hexadecimal digits in an address of full width. -/
def addressDigits : Arch → Nat
  | .x86 => 8
  | .x64 | .other _ => 16

def addressMask : Arch → Nat
  | .x86 => Text.halfWordBound - 1
  | .x64 | .other _ => Text.wordBound - 1

/-- Whether this is one of the two widths of x86. -/
def isKnown : Arch → Bool
  | .x86 | .x64 => true
  | .other _ => false

end Arch
end Disassembly
