import Disassembly.Decoder

/-! # Listings

A listing tells what a decoder answers at each address: an instruction, a run of equal ones, an
error, or no answer. The first row that has an address decides. The bytes of an instruction are not
part of the listing; they come from the code.
-/

namespace Disassembly

inductive ListingRow where
  /-- The same instruction `count` times back to back, from `address` on. -/
  | instruction (address length : Nat) (mnemonic operands : String) (count : Nat)
  | fault (address : Nat) (reason : String)
  | noAnswer (address : Nat)
  deriving DecidableEq, Repr

namespace ListingRow

/-- Whether `address` is the start of one of `count` pieces of `length` bytes, from `start` on. -/
def startsPiece (start length count address : Nat) : Bool :=
  start ≤ address && 0 < count &&
    (address == start ||
      (0 < length && (address - start) % length == 0 && (address - start) / length < count))

def covers (address : Nat) : ListingRow → Bool
  | .instruction start length _ _ count => startsPiece start length count address
  | .fault start _ => start == address
  | .noAnswer start => start == address

/-- The first `length` bytes of `code`, with zeros in the place of those it lacks. -/
def bytesOf (code : Code) (length : Nat) : List UInt8 :=
  let bytes := code.take length
  bytes ++ List.replicate (length - bytes.length) 0

def answer (code : Code) (address : Nat) : ListingRow → Except Error (Option Instruction)
  | .instruction _ length mnemonic operands _ =>
    .ok (some { address, bytes := bytesOf code length, mnemonic, operands })
  | .fault _ reason => .error { failure := .decode address (.reported reason) }
  | .noAnswer _ => .ok none

end ListingRow

abbrev Listing := List ListingRow

namespace Listing

/-- Decodes the front of `code`. Where the listing has no row, the byte there is invalid. -/
def decode (rows : Listing) (code : Code) (address : Nat) : Except Error (Option Instruction) :=
  match code.head? with
  | none => .ok none
  | some byte =>
    match rows.find? (·.covers address) with
    | some row => row.answer code address
    | none => .error { failure := .decode address (.invalidByte byte) }

/-- The instruction set whose decoders follow a listing; it has both widths of x86. -/
def instructionSet {σ : Type} (rows : Listing) : InstructionSet σ where
  supports := Arch.isKnown
  openDecoder arch w :=
    if arch.isKnown then (.ok { decode := fun code address w => (rows.decode code address, w) }, w)
    else (.error { failure := .unsupportedArch arch }, w)

end Listing
end Disassembly
