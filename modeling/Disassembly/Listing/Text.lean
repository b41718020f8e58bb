import Disassembly.Listing.Basic
import Disassembly.Text.Numeral

/-! # Listings as text

A listing is written with a row to a line and tabs between its fields: address, length, mnemonic and
operands of an instruction, with a count if it is repeated; an address and a reason where decoding
fails; an address alone where there is no answer.
-/

namespace Disassembly.Listing

def rowOfFields : List String → Except Text.NumeralFault ListingRow
  | [address] => return .noAnswer (← Text.readArgument address)
  | [address, reason] => return .fault (← Text.readArgument address) reason
  | address :: length :: mnemonic :: rest => do
    let operands := rest.head?.getD ""
    let count ← match rest with
      | _ :: count :: _ => Text.readArgument count
      | _ => pure 1
    return .instruction (← Text.readArgument address) (← Text.readArgument length) mnemonic operands
      count
  | [] => throw .empty

/-- The listing that a text stands for. Empty lines are left out. -/
def ofText (text : String) : Except Text.NumeralFault Listing :=
  ((text.splitOn "\n").filter (· ≠ "")).mapM fun line => rowOfFields (line.splitOn "\t")

end Disassembly.Listing
