import Disassembly.Seeker

/-! # Decodings

What a decoder answers is a decoding if it depends on nothing but the bytes and the address of the
first. One that reads an instruction off its own bytes, of which there are a few at most, answers the
same in any window that has room for the instruction.
-/

namespace Disassembly

/-- What a decoder answers if that depends on nothing but the bytes and the address of the first. -/
abbrev Decoding := List UInt8 → Nat → Except Error (Option Instruction)

namespace Decoding

def decoder (d : Decoding) : Decoder Unit where
  decode code address w := (d code.toList address, w)

/-- An instruction is where the decoding was asked for it. -/
def Echoes (d : Decoding) : Prop :=
  ∀ (bytes : List UInt8) (address : Nat) (i : Instruction),
    d bytes address = .ok (some i) → i.address = address

/-- A decoding as that of a real instruction set: an instruction is where it was asked for, has at
most the bytes that an instruction can have, and depends on no more than its own bytes, if all of
them are there. -/
structure Regular (d : Decoding) : Prop where
  echoes : d.Echoes
  length_pos : ∀ {bytes address i}, d bytes address = .ok (some i) → 0 < i.length
  length_le : ∀ {bytes address i}, d bytes address = .ok (some i) →
    i.length ≤ maxInstructionLength
  decode_of_take : ∀ {bytes bytes' : List UInt8} {address : Nat} {i : Instruction},
    d bytes address = .ok (some i) → i.length ≤ bytes.length →
      bytes'.take i.length = bytes.take i.length → d bytes' address = .ok (some i)

structure Form where
  length : Nat
  mnemonic : String
  operands : String := ""

/-- The decoding in which the first byte says which form an instruction has. -/
def byForm (form : UInt8 → Form) : Decoding
  | [], _ => .ok none
  | byte :: bytes, address =>
    if 0 < (form byte).length ∧ (form byte).length ≤ maxInstructionLength ∧
        (form byte).length ≤ (byte :: bytes).length then
      .ok (some {
        address
        bytes := (byte :: bytes).take (form byte).length
        mnemonic := (form byte).mnemonic
        operands := (form byte).operands })
    else .error { failure := .decode address (.invalidByte byte) }

theorem byForm_eq_ok {form : UInt8 → Form} {bytes : List UInt8} {address : Nat} {i : Instruction}
    (h : byForm form bytes address = .ok (some i)) :
    ∃ byte, bytes.head? = some byte ∧ 0 < (form byte).length ∧
      (form byte).length ≤ maxInstructionLength ∧ (form byte).length ≤ bytes.length ∧
      i.length = (form byte).length ∧ i = {
        address
        bytes := bytes.take (form byte).length
        mnemonic := (form byte).mnemonic
        operands := (form byte).operands } := by
  cases bytes with
  | nil => cases h
  | cons byte bytes =>
    rw [byForm] at h
    split at h
    · rename_i hfits
      cases h
      refine ⟨byte, rfl, hfits.1, hfits.2.1, hfits.2.2, ?_, rfl⟩
      rw [Instruction.length, List.length_take]
      exact Nat.min_eq_left hfits.2.2
    · cases h

theorem byForm_regular (form : UInt8 → Form) : (byForm form).Regular where
  echoes bytes address i h := by
    obtain ⟨byte, -, -, -, -, -, rfl⟩ := byForm_eq_ok h
    rfl
  length_pos h := by
    obtain ⟨byte, -, hpos, -, -, hlength, -⟩ := byForm_eq_ok h
    rwa [hlength]
  length_le h := by
    obtain ⟨byte, -, -, hle, -, hlength, -⟩ := byForm_eq_ok h
    rwa [hlength]
  decode_of_take {bytes bytes' address i} h hroom htake := by
    obtain ⟨byte, hhead, hpos, hle, hfits, hlength, hi⟩ := byForm_eq_ok h
    rw [hlength] at htake
    cases bytes' with
    | nil =>
      have hzero := congrArg List.length htake
      rw [List.length_take, List.length_take, List.length_nil] at hzero
      omega
    | cons byte' bytes' =>
      -- the first byte is the same, and so is the form
      have hbyte : byte' = byte := by
        have hsame := congrArg List.head? htake
        rw [List.head?_take, List.head?_take, if_neg (by omega), if_neg (by omega), hhead] at hsame
        exact Option.some.inj hsame
      have hroom' : (form byte).length ≤ (byte' :: bytes').length := by
        have hsame := congrArg List.length htake
        rw [List.length_take, List.length_take] at hsame
        omega
      rw [byForm, hbyte, if_pos ⟨hpos, hle, hbyte ▸ hroom'⟩, hi, ← htake, hbyte]

/-- The decoding that takes each pair of zeros for filler, and any other byte for an instruction. -/
def zerosAsFiller : Decoding :=
  byForm fun byte =>
    if byte = 0 then { length := 2, mnemonic := "add", operands := "byte ptr [rax], al" }
    else { length := 1, mnemonic := "nop" }

theorem zerosAsFiller_regular : zerosAsFiller.Regular :=
  byForm_regular _

end Decoding
end Disassembly
