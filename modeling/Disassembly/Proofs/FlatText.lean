import Disassembly.Export
import Disassembly.Proofs.Text.Spelling

/-! # The lines of flat text

The text that is written for a zone is a heading, a line for each instruction, and a comment if the
zone has bytes behind its code. Numbers are spelled, bytes have two digits each, and of a mnemonic and
its operands nothing but blanks at the end is left out.
-/

namespace Disassembly
namespace Export

open Text (Spells SpellsByte isBlank)

/-- The line tells where the zone is, and how many instructions are in it. -/
def IsHeading (z : Zone) (index : Index) (line : String) : Prop :=
  ∃ start stop entry count : String,
    line = s!"; zone 0x{start}..0x{stop} ({z.arch.name}), entry 0x{entry}, " ++
        s!"{count} instructions\n" ∧
      Spells 16 start.toList z.start ∧ Spells 16 stop.toList z.stop ∧
      Spells 16 entry.toList z.entry ∧ Spells 10 count.toList index.lineCount

/-- `text` is the mnemonic, which has six places, and the operands, without the blanks behind them. -/
def SaysInstruction (i : Instruction) (text : String) : Prop :=
  ∃ blanks, text.toList ++ blanks = i.mnemonic.toList ++
      List.replicate (6 - i.mnemonic.length) ' ' ++ ' ' :: i.operands.toList ∧
    (∀ c ∈ blanks, isBlank c = true) ∧ ∀ c ∈ text.toList.getLast?, isBlank c = false

/-- The line has the address of the instruction, its bytes and what it says, which begins in the same
column for all instructions that have no more than eight bytes. -/
def IsInstructionLine (i : Instruction) (line : String) : Prop :=
  ∃ (address : String) (cells : List String) (text : String),
    line = s!"{address}:" ++ String.join (cells.map (" " ++ ·)) ++
        String.ofList (List.replicate (3 * (8 - i.bytes.length) + 2) ' ') ++ text ++ "\n" ∧
      8 ≤ address.toList.length ∧ Spells 16 address.toList i.address ∧
      List.Forall₂ (fun cell b => SpellsByte cell.toList b) cells i.bytes ∧ SaysInstruction i text

/-- The line tells which bytes of the zone are behind its code, if there are any. -/
def IsRemainder (z : Zone) (index : Index) (line : String) : Prop :=
  if index.codeEnd < z.stop then
    ∃ first stop : String, line = s!"; 0x{first}..0x{stop} is not code\n" ∧
      Spells 16 first.toList index.codeEnd ∧ Spells 16 stop.toList z.stop
  else line = ""

/-- The text has a line for each of the instructions, and nothing else but what is around them. -/
def IsFlatText (z : Zone) (index : Index) (instructions : List Instruction) (text : String) : Prop :=
  ∃ first lines last, text = first ++ String.join lines ++ last ∧ IsHeading z index first ∧
    List.Forall₂ IsInstructionLine instructions lines ∧ IsRemainder z index last

/-- The flat text of a zone with these instructions: the heading, a line for each of them, and a line
for what is left of the zone behind the code, if anything is. -/
def flatText (z : Zone) (index : Index) (instructions : List Instruction) : String :=
  heading z index ++ String.join (instructions.map instructionLine) ++ remainder z index

theorem heading_isHeading (z : Zone) (index : Index) : IsHeading z index (heading z index) :=
  ⟨Text.hex z.start, Text.hex z.stop, Text.hex z.entry, toString index.lineCount, rfl,
    Text.spells_hex z.start, Text.spells_hex z.stop, Text.spells_hex z.entry,
    Text.spells_toString index.lineCount⟩

theorem trimEnd_saysInstruction (i : Instruction) : SaysInstruction i (String.ofList
    (Text.trimEnd (Text.padEnd 6 i.mnemonic ++ " " ++ i.operands).toList)) := by
  obtain ⟨blanks, htext, hblanks⟩ :=
    Text.exists_blanks_trimEnd (Text.padEnd 6 i.mnemonic ++ " " ++ i.operands).toList
  refine ⟨blanks, ?_, hblanks, ?_⟩
  · rw [String.toList_ofList, ← htext, String.toList_append, String.toList_append,
      Text.toList_padEnd, List.append_assoc]
    rfl
  · rw [String.toList_ofList]
    exact Text.isBlank_getLast?_trimEnd _

theorem instructionLine_isInstructionLine (i : Instruction) :
    IsInstructionLine i (instructionLine i) := by
  refine ⟨Text.hexPadded 8 i.address, i.bytes.map Text.hexByte, _, ?_,
    Text.le_length_hexPadded 8 i.address, Text.spells_hexPadded 8 i.address, ?_,
    trimEnd_saysInstruction i⟩
  · simp only [instructionLine, bytesAligned, List.map_map, Nat.mul_comm 3]
    rfl
  · rw [List.forall₂_map_left_iff]
    exact List.forall₂_same.2 fun b _ => Text.spellsByte_hexByte b

theorem remainder_isRemainder (z : Zone) (index : Index) :
    IsRemainder z index (remainder z index) := by
  rw [IsRemainder, remainder]
  split
  · exact ⟨Text.hex index.codeEnd, Text.hex z.stop, rfl, Text.spells_hex index.codeEnd,
      Text.spells_hex z.stop⟩
  · rfl

theorem flatText_isFlatText (z : Zone) (index : Index) (instructions : List Instruction) :
    IsFlatText z index instructions (flatText z index instructions) := by
  refine ⟨heading z index, instructions.map instructionLine, remainder z index, rfl,
    heading_isHeading z index, ?_, remainder_isRemainder z index⟩
  rw [List.forall₂_map_right_iff]
  exact List.forall₂_same.2 fun i _ => instructionLine_isInstructionLine i

end Export
end Disassembly
