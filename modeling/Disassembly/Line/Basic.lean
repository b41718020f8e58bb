import Disassembly.Instruction
import Disassembly.Levels.Basic
import Disassembly.Symbols

/-! # Lines to show

A line record has everything that is known about one virtual line. The rails of a line are the
connectors that arrows draw through its margin: a bit for each lane, and one for each kind of end.
-/

namespace Disassembly

/-- The connectors drawn in the margin of a line. -/
structure Rails where
  bits : UInt8 := 0
  deriving DecidableEq, Repr

namespace Rails

def lanes : Nat := 5

def startBit : UInt8 := (1 : UInt8) <<< 5

def endBit : UInt8 := (1 : UInt8) <<< 6

def laneBit (lane : Nat) : UInt8 :=
  (1 : UInt8) <<< UInt8.ofNat lane

def add (bits : UInt8) (r : Rails) : Rails :=
  { bits := r.bits ||| bits }

def hasLane (lane : Nat) (r : Rails) : Bool :=
  lane < lanes && r.bits &&& laneBit lane != 0

def isStart (r : Rails) : Bool :=
  r.bits &&& startBit != 0

def isEnd (r : Rails) : Bool :=
  r.bits &&& endBit != 0

def isEmpty (r : Rails) : Bool :=
  r.bits == 0

end Rails

inductive LineKind where
  | instruction
  | label (name : String)
  /-- Stands in for a line that could not be produced. -/
  | failed (error : Error)
  deriving DecidableEq, Repr

/-- What is known about one virtual line. -/
structure Line where
  number : Nat
  kind : LineKind
  /-- Where the instruction is, or what the label is for. -/
  address : Nat
  bytes : List UInt8 := []
  mnemonic : String := ""
  /-- The operand text, or what is shown in its place. -/
  operands : String := ""
  flow : Flow := .plain
  value : Option Nat := none
  symbol : Option Mapping := none
  targetLine : Option Nat := none
  rails : Rails := {}
  deriving DecidableEq, Repr

namespace Line

def ofLabel (number : Nat) (label : Label) : Line :=
  { number, kind := .label label.name, address := label.address }

def ofError (number : Nat) (e : Error) : Line :=
  { number, kind := .failed e, address := 0 }

def ofInstruction (number : Nat) (i : Instruction) : Line where
  number := number
  kind := .instruction
  address := i.address
  bytes := i.bytes
  mnemonic := i.mnemonic
  operands := i.operands
  flow := i.flow

def isInstruction (l : Line) : Bool :=
  l.kind == .instruction

end Line
end Disassembly
