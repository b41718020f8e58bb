import Disassembly.Levels.Basic

/-! # Changing the lines

A label pushes its line, and all lines behind it, down by one. A new level has to nest: it may
not overlap another one in part, and what is inside its range moves under it.
-/

namespace Disassembly
namespace Level

def shiftBound (line bound : Nat) : Nat :=
  if line < bound then bound + 1 else bound

/-- The same labels, those at or behind `line` one line further down. -/
def shiftLabels (line : Nat) (labels : NatMap Label) : NatMap Label :=
  labels.map fun (k, label) => (if line ≤ k then k + 1 else k, label)

mutual

/-- Makes room for a line at `line`. -/
def shift (line : Nat) : Level → Level
  | ⟨start, stop, labels, children⟩ =>
    ⟨shiftBound line start, shiftBound line stop, shiftLabels line labels,
      shiftAll line children⟩

def shiftAll (line : Nat) : List Level → List Level
  | [] => []
  | l :: ls => l.shift line :: shiftAll line ls

end

mutual

/-- Makes room for a line at `line` and puts `label` there, in the innermost level that had that
line. -/
def insert (line : Nat) (label : Label) : Level → Level
  | ⟨start, stop, labels, children⟩ =>
    let room := shiftLabels line labels
    match insertIn line label children with
    | some children => ⟨shiftBound line start, shiftBound line stop, room, children⟩
    | none =>
      ⟨shiftBound line start, shiftBound line stop, room.insert line label, shiftAll line children⟩

def insertIn (line : Nat) (label : Label) : List Level → Option (List Level)
  | [] => none
  | l :: ls =>
    if l.contains line then some (l.insert line label :: shiftAll line ls)
    else (insertIn line label ls).map (l.shift line :: ·)

end

/-- Puts a level for the lines from `start` up to `stop` right below this one; what is inside that
range moves under it. -/
def wrap (start stop : Nat) (l : Level) : Level :=
  let (inside, outside) := l.children.partition (·.isWithin start stop)
  let (own, others) := l.labels.partition fun (k, _) => start ≤ k && k < stop
  let before := outside.takeWhile (·.start < start)
  let behind := outside.dropWhile (·.start < start)
  { l with
    labels := others
    children := before ++ { start, stop, labels := own, children := inside } :: behind }

mutual

/-- Nests a level for the lines from `start` up to `stop` in the innermost level that spans them.
There is none if it would overlap another one in part, or be the same as one below the root. -/
def nest? (start stop : Nat) (isRoot : Bool) : Level → Option Level
  | ⟨start', stop', labels, children⟩ =>
    match nestIn? start stop children with
    | some nested => nested.map fun children => ⟨start', stop', labels, children⟩
    | none =>
      let nests := children.all fun c => c.isWithin start stop || c.isApart start stop
      let isSame := start' = start ∧ stop' = stop
      if nests ∧ ¬ (isSame ∧ ¬ isRoot) then
        some (wrap start stop ⟨start', stop', labels, children⟩)
      else none

def nestIn? (start stop : Nat) : List Level → Option (Option (List Level))
  | [] => none
  | l :: ls =>
    if l.spans start stop then some ((l.nest? start stop false).map (· :: ls))
    else (nestIn? start stop ls).map (·.map (l :: ·))

end
end Level

namespace Levels

/-- Puts a label on a virtual line; it may be the one behind the last. -/
def insert (line : Nat) (label : Label) (s : Levels) : Except Error Levels :=
  if s.size < line then .error (s.outOfRange line)
  else
    let root := s.root.insert line label
    let root := if line = s.size then { root with stop := root.stop + 1 } else root
    .ok { root }

def addLevel (start stop : Nat) (s : Levels) : Except Error Levels :=
  if stop ≤ start ∨ s.size < stop then .error { failure := .badZone (.badRange start stop) }
  else
    match s.root.nest? start stop true with
    | some root => .ok { root }
    | none => .error { failure := .badZone (.overlap start stop) }

end Levels
end Disassembly
