import Disassembly.Arch
import Disassembly.Flow

/-! # Instructions

An instruction is known by where it is, the bytes that encode it, and the text a decoder prints for
it. What it refers to has to be read back from that text: an operand counts only if it is a single
literal, with no more digits than an address has.
-/

namespace Disassembly

def hexMarked? : List Char → Option (List Char)
  | '0' :: 'x' :: cs => some cs
  | '0' :: 'X' :: cs => some cs
  | _ => none

/-- Reads operand text that is a lone literal: hexadecimal behind `0x`, with at most as many digits
as an address of `arch`, or decimal. Blanks around it are ignored, and it has to be an address. -/
def literal? (arch : Arch) (operands : String) : Option Nat :=
  let text := Text.trim operands.toList
  let bound := arch.addressMask + 1
  match hexMarked? text with
  | some digits =>
    if digits = [] ∨ arch.addressDigits < digits.length then none
    else (Text.readDigits 16 bound 0 digits).toOption
  | none => if text = [] then none else (Text.readDigits 10 bound 0 text).toOption

structure Instruction where
  /-- The file offset of its first byte. -/
  address : Nat
  bytes : List UInt8
  mnemonic : String
  operands : String
  deriving DecidableEq, Repr

namespace Instruction

def length (i : Instruction) : Nat :=
  i.bytes.length

def stop (i : Instruction) : Nat :=
  i.address + i.length

def contains (i : Instruction) (offset : Nat) : Bool :=
  i.address ≤ offset && offset < i.stop

def flow (i : Instruction) : Flow :=
  .ofMnemonic i.mnemonic

def literal? (i : Instruction) (arch : Arch) : Option Nat :=
  Disassembly.literal? arch i.operands

def branchTarget? (i : Instruction) (arch : Arch) : Option Nat :=
  if i.flow.isBranch then i.literal? arch else none

/-- Whether the instruction looks like zeros that were taken for code, such as
`add byte ptr [rax], al`. -/
def isFiller (i : Instruction) : Bool :=
  i.mnemonic == "add" && "byte ptr [".toList.isPrefixOf i.operands.toList &&
    "], al".toList.isSuffixOf i.operands.toList

end Instruction
end Disassembly
