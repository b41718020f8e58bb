import Disassembly.Levels.Basic

/-! # What is on a line

A virtual line resolves to its label or to the instruction line it stands for. Viewports mostly
go line by line, so resolving starts from the level of the last line and keeps running counts: it only
counts anew when the line asked for is not next to the last one, or is in another level. Peeking
always starts from the root, counts anew and keeps nothing.
-/

namespace Disassembly

inductive Resolved where
  | label (label : Label)
  | instruction (line : Nat)
  deriving DecidableEq, Repr

namespace Level

/-- Goes up from the end of a path to a level that has `line`, or to the root. The path has its end
first. -/
def ascend (line : Nat) (root : Level) : List Nat → List Nat
  | [] => []
  | n :: up =>
    if (root.descend (n :: up).reverse).any (·.contains line) then n :: up else root.ascend line up

/-- The innermost level that has `line`, found from the end of `path`: up to a level that has the line,
and down from there. -/
def walk (line : Nat) (path : List Nat) (root : Level) : List Nat × Level :=
  let up := (root.ascend line path.reverse).reverse
  let (down, level) := ((root.descend up).getD root).locate line
  (up ++ down, level)

end Level

namespace Running

def isText (level : Level) (line : Nat) : Bool :=
  level.labels.contains line

def fresh (root level : Level) (path : List Nat) (line : Nat) : Running :=
  let text := level.count fun k => level.start ≤ k && k ≤ line
  { path, line
    textPassed := text
    codePassed := line - level.start + 1 - text
    realBase := level.start - root.count (· < level.start) }

def forward (level : Level) (r : Running) : Running :=
  let line := r.line + 1
  if isText level line then { r with line, textPassed := r.textPassed + 1 }
  else { r with line, codePassed := r.codePassed + 1 }

def backward (level : Level) (r : Running) : Running :=
  let line := r.line - 1
  if isText level r.line then { r with line, textPassed := r.textPassed - 1 }
  else { r with line, codePassed := r.codePassed - 1 }

/-- The counts at `line` of `level`, from those at the line resolved last. -/
def moveTo (root level : Level) (path : List Nat) (line : Nat) : Option Running → Running
  | none => fresh root level path line
  | some r =>
    if r.path ≠ path then fresh root level path line
    else if line = r.line + 1 then r.forward level
    else if line + 1 = r.line then r.backward level
    else if line = r.line then r
    else fresh root level path line

def real (r : Running) : Nat :=
  r.realBase + r.codePassed - 1

end Running

namespace Levels

def path (s : Levels) : List Nat :=
  s.running.elim [] (·.path)

/-- Resolves a virtual line, and keeps the counts for the next one. -/
def resolve (line : Nat) (s : Levels) : Except Error Resolved × Levels :=
  if s.size ≤ line then (.error (s.outOfRange line), s)
  else
    let (path, level) := s.root.walk line s.path
    let running := Running.moveTo s.root level path line s.running
    let resolved := match level.labels.get? line with
      | some label => Resolved.label label
      | none => .instruction running.real
    (.ok resolved, { s with running := some running })

@[simp] theorem resolve_root (line : Nat) (s : Levels) : (s.resolve line).2.root = s.root := by
  rw [resolve]
  split <;> rfl

/-- Resolves a virtual line by counting the labels before it. -/
def peek (line : Nat) (s : Levels) : Except Error Resolved :=
  if s.size ≤ line then .error (s.outOfRange line)
  else
    match (s.root.locate line).2.labels.get? line with
    | some label => .ok (.label label)
    | none => .ok (.instruction (line - s.labelsBefore line))

/-- Moves `line` down by the labels through it until it stays where it is. Each move passes
at least one more label, so `fuel` is at most their number. -/
def settle (s : Levels) (real : Nat) : (fuel line : Nat) → Nat
  | 0, line => line
  | fuel + 1, line =>
    let next := real + s.labelsThrough line
    if next = line then line else settle s real fuel next

def lineOfReal (real : Nat) (s : Levels) : Nat :=
  s.settle real s.labelCount real

end Levels
end Disassembly
