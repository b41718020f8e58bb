import Disassembly.Index.Basic
import Disassembly.Source
import Disassembly.Sweep

/-! # Flat text

The flat text of a zone is a heading and a line for each instruction. Labels do not appear in it. If
the code stops decoding on the way, a comment says so and ends the text.
-/

namespace Disassembly
namespace Export

open Text (hex)

variable {σ : Type}

/-- How many bytes the mnemonics are aligned behind. -/
def bytesAligned : Nat := 8

def heading (z : Zone) (index : Index) : String :=
  s!"; zone 0x{hex z.start}..0x{hex z.stop} ({z.arch.name}), entry 0x{hex z.entry}, " ++
    s!"{index.lineCount} instructions\n"

def instructionLine (i : Instruction) : String :=
  let bytes := String.join (i.bytes.map fun b => " " ++ Text.hexByte b)
  let padding := String.ofList (List.replicate ((bytesAligned - i.bytes.length) * 3 + 2) ' ')
  let text := Text.padEnd 6 i.mnemonic ++ " " ++ i.operands
  s!"{Text.hexPadded 8 i.address}:" ++ bytes ++ padding ++
    String.ofList (Text.trimEnd text.toList) ++ "\n"

def remainder (z : Zone) (index : Index) : String :=
  if index.codeEnd < z.stop then s!"; 0x{hex index.codeEnd}..0x{hex z.stop} is not code\n" else ""

/-- The lines behind the heading, given the instructions and the error that ended them. -/
def body (z : Zone) (index : Index) (instructions : List Instruction) (fault : Option Error) :
    String :=
  String.join (instructions.map instructionLine) ++
    match fault with
    | some e => s!"; {e.message}\n"
    | none => remainder z index

/-- Writes the flat text of a zone. If the bytes cannot be read, the heading has been written. -/
def write (z : Zone) (source : Source σ) (dec : Decoder σ) (index : Index) (w : σ) :
    String × Option Error × σ :=
  match source.read index.trueStart (index.codeEnd - index.trueStart) w with
  | (.error e, w) => (heading z index, some (e.during .exporting), w)
  | (.ok bytes, w) =>
    let sweep := Sweep.ofArray bytes index.trueStart
    let (instructions, fault, w) := sweep.take dec index.lineCount w
    (heading z index ++ body z index instructions fault, none, w)

end Export
end Disassembly
