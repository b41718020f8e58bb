import Disassembly.Error
import Disassembly.NatMap

/-! # Nested levels of lines

A view has virtual lines: most are instructions, and between them stand labels, each on a line
of its own. The labels are kept in a tree of levels. The root spans all lines, its children
describe regions inside it, and a label belongs to the innermost level that has its line.
-/

namespace Disassembly

/-- A label that has a line of its own. -/
structure Label where
  name : String
  /-- The file offset that the label is for. -/
  address : Nat
  deriving DecidableEq, Repr

/-- The virtual lines from `start` up to `stop`, with the labels that belong to no level inside
this one. -/
structure Level where
  start : Nat
  stop : Nat
  labels : NatMap Label
  children : List Level

namespace Level

def empty (start stop : Nat) : Level :=
  { start, stop, labels := [], children := [] }

def contains (line : Nat) (l : Level) : Bool :=
  l.start ≤ line && line < l.stop

def spans (start stop : Nat) (l : Level) : Bool :=
  l.start ≤ start && stop ≤ l.stop

def isWithin (start stop : Nat) (l : Level) : Bool :=
  start ≤ l.start && l.stop ≤ stop

/-- Whether this level has none of the lines from `start` up to `stop`. -/
def isApart (start stop : Nat) (l : Level) : Bool :=
  l.stop ≤ start || stop ≤ l.start

mutual

def count (p : Nat → Bool) : Level → Nat
  | ⟨_, _, labels, children⟩ => labels.countP (p ·.1) + countAll p children

def countAll (p : Nat → Bool) : List Level → Nat
  | [] => 0
  | l :: ls => l.count p + countAll p ls

end

mutual

/-- The innermost level that has `line`, in a level that has it, and the path of child numbers that
leads there. -/
def locate (line : Nat) : Level → List Nat × Level
  | ⟨start, stop, labels, children⟩ =>
    match locateIn line 0 children with
    | some found => found
    | none => ([], ⟨start, stop, labels, children⟩)

/-- The innermost level that has `line` below the first of these that has it; the first of them is
child number `n`. -/
def locateIn (line n : Nat) : List Level → Option (List Nat × Level)
  | [] => none
  | l :: ls =>
    if l.contains line then
      let (path, innermost) := l.locate line
      some (n :: path, innermost)
    else locateIn line (n + 1) ls

end

def descend : List Nat → Level → Option Level
  | [], l => some l
  | n :: path, l => l.children[n]?.bind (descend path)

end Level

/-- Counts that are kept for the line that was resolved last, so that the line next to it costs no
counting. -/
structure Running where
  path : List Nat
  line : Nat
  /-- The label lines from the start of the level through the line. -/
  textPassed : Nat
  /-- The instruction lines from the start of the level through the line. -/
  codePassed : Nat
  /-- The instruction line that the level begins with. -/
  realBase : Nat

structure Levels where
  root : Level
  running : Option Running := none

namespace Levels

def start (lineCount : Nat) : Levels :=
  { root := .empty 0 lineCount }

def size (s : Levels) : Nat :=
  s.root.stop

def isEmpty (s : Levels) : Bool :=
  s.size == 0

def labelCount (s : Levels) : Nat :=
  s.root.count fun _ => true

def labelsBefore (line : Nat) (s : Levels) : Nat :=
  s.root.count (· < line)

def labelsThrough (line : Nat) (s : Levels) : Nat :=
  s.root.count (· ≤ line)

def outOfRange (line : Nat) (s : Levels) : Error :=
  { failure := .lineOutOfRange line s.size }

end Levels
end Disassembly
