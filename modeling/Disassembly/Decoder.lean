import Disassembly.Code
import Disassembly.Error
import Disassembly.Instruction

/-! # Decoders

This library decodes nothing itself. A decoder turns the front of a run of bytes into one
instruction; it may fail, and may change the state `σ` of whatever is behind it. An instruction set
is what decoders are opened from.
-/

namespace Disassembly

structure Decoder (σ : Type) where
  /-- Decodes the front of `code`, whose first byte is at `address`. Having no answer means that the
  bytes have run out. -/
  decode (code : Code) (address : Nat) : σ → Except Error (Option Instruction) × σ

structure InstructionSet (σ : Type) where
  supports (arch : Arch) : Bool
  openDecoder (arch : Arch) : σ → Except Error (Decoder σ) × σ

end Disassembly
