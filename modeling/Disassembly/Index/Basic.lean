import Disassembly.Zone

/-! # The checkpoint index

Only by decoding can one know where the instructions of a zone begin. An index remembers some of
those boundaries with their lines, so that a seek can start from the closest one before it.
-/

namespace Disassembly

structure Checkpoint where
  offset : Nat
  /-- The line, counted from where decoding starts. -/
  line : Nat
  deriving DecidableEq, Repr

/-- What is known about the instructions of a zone. The first checkpoint is always where decoding
starts; `samples` are the ones behind it. -/
structure Index where
  /-- The offset at which decoding starts. -/
  trueStart : Nat
  samples : List Checkpoint
  lineCount : Nat
  /-- The offset just past the last instruction. -/
  codeEnd : Nat
  deriving DecidableEq, Repr

/-- Goes forward from `a` while the next element passes `p`; gives the element that is reached and
those behind it. -/
def advanceWhile {α : Type} (p : α → Bool) (a : α) : List α → α × List α
  | [] => (a, [])
  | b :: bs => if p b then advanceWhile p b bs else (a, b :: bs)

namespace Index

def first (x : Index) : Checkpoint :=
  { offset := x.trueStart, line := 0 }

def checkpoints (x : Index) : List Checkpoint :=
  x.first :: x.samples

/-- The last checkpoint at or before `line`, and those behind it. -/
def bracketLine (x : Index) (line : Nat) : Checkpoint × List Checkpoint :=
  advanceWhile (·.line ≤ line) x.first x.samples

def closestByLine (x : Index) (line : Nat) : Checkpoint :=
  (x.bracketLine line).1

/-- The last checkpoint at or before `offset`; none if decoding starts behind it. -/
def closestByOffset? (x : Index) (offset : Nat) : Option Checkpoint :=
  if x.trueStart ≤ offset then some (advanceWhile (·.offset ≤ offset) x.first x.samples).1
  else none

def covers (x : Index) (offset : Nat) : Bool :=
  x.trueStart ≤ offset && offset < x.codeEnd

end Index
end Disassembly
