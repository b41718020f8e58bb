import Disassembly.Index.Basic
import Disassembly.Source
import Disassembly.Decoder

/-! # Seeking

A seeker finds the instruction on a line, or the one that covers an offset. It decodes forward from
the closest checkpoint, over a window of the file that it keeps between seeks; the line behind the
one it found last costs a single decode. After an error it starts from a checkpoint again.
-/

namespace Disassembly

/-- The most bytes that are fetched at once. -/
def windowLength : Nat := 64 * 1024

def maxInstructionLength : Nat := 15

structure Seek where
  instruction : Instruction
  line : Nat
  /-- The number of lines behind the checkpoint that was used. -/
  distance : Nat
  deriving DecidableEq, Repr

structure Window where
  start : Nat
  bytes : Array UInt8

namespace Window

def stop (v : Window) : Nat :=
  v.start + v.bytes.size

def contains (v : Window) (offset : Nat) : Bool :=
  v.start ≤ offset && offset < v.stop

def codeFrom (v : Window) (offset : Nat) : Code :=
  (Code.ofArray v.bytes).drop (offset - v.start)

end Window

structure Position where
  window : Option Window := none
  /-- The offset of the instruction that is decoded next. -/
  cursor : Nat := 0
  current : Option (Nat × Instruction) := none
  checkpoint : Checkpoint := { offset := 0, line := 0 }
  /-- The line up to which the cursor may go on from that checkpoint. -/
  bound : Nat := 0

/-- The seek engine of a zone that ends at `stop`. -/
structure Seeker extends Position where
  stop : Nat

namespace Seeker

variable {σ : Type}

def start (stop : Nat) : Seeker :=
  { stop }

def snapshot (s : Seeker) : Position :=
  s.toPosition

def restore (s : Seeker) (p : Position) : Seeker :=
  { s with toPosition := p }

/-- Forgets the instruction that was decoded last, so that the next seek starts from a checkpoint.
The window is kept. -/
def reset (s : Seeker) : Seeker :=
  { s with current := none, bound := 0 }

def found (s : Seeker) (line : Nat) (i : Instruction) : Seek where
  instruction := i
  line := line
  distance := line - s.checkpoint.line

/-- Fetches a window that begins at `offset`. There is none while bytes cannot be read. -/
def fetch (source : Source σ) (offset : Nat) (s : Seeker) (w : σ) :
    Except Error Unit × Seeker × σ :=
  match source.read offset (min (s.stop - offset) windowLength) w with
  | (.ok bytes, w) => (.ok (), { s with window := some { start := offset, bytes } }, w)
  | (.error e, w) => (.error e, { s with window := none }, w)

/-- Whether the window may lack bytes of the instruction at the cursor. -/
def needsFetch (s : Seeker) : Bool :=
  match s.window with
  | none => true
  | some v =>
    s.cursor < v.start || (v.stop - s.cursor < maxInstructionLength && v.stop < s.stop)

def code (s : Seeker) : Code :=
  match s.window with
  | none => .ofArray #[]
  | some v => v.codeFrom s.cursor

def decodeLine (dec : Decoder σ) (line : Nat) (s : Seeker) (w : σ) :
    Except Error Instruction × Seeker × σ :=
  match dec.decode s.code s.cursor w with
  | (.error e, w) => (.error e, s, w)
  | (.ok none, w) => (.error { failure := .endOfZone s.cursor }, s, w)
  | (.ok (some i), w) =>
    if i.bytes.isEmpty then (.error { failure := .decode s.cursor .noProgress }, s, w)
    else (.ok i, { s with cursor := i.stop, current := some (line, i) }, w)

/-- Decodes the instruction at the cursor, which is on `line`; fetches bytes first if need be. -/
def step (source : Source σ) (dec : Decoder σ) (line : Nat) (s : Seeker) (w : σ) :
    Except Error Instruction × Seeker × σ :=
  if s.needsFetch then
    match s.fetch source s.cursor w with
    | (.error e, s, w) => (.error e, s, w)
    | (.ok (), s, w) => s.decodeLine dec line w
  else s.decodeLine dec line w

def steps (source : Source σ) (dec : Decoder σ) :
    (more line : Nat) → Seeker → σ → Except Error Instruction × Seeker × σ
  | 0, line, s, w => s.step source dec line w
  | more + 1, line, s, w =>
    match s.step source dec line w with
    | (.error e, s, w) => (.error e, s, w)
    | (.ok _, s, w) => steps source dec more (line + 1) s w

/-- Moves the cursor to the closest checkpoint before `line`; fetches bytes unless the window has
that place. -/
def moveTo (source : Source σ) (index : Index) (line : Nat) (s : Seeker) (w : σ) :
    Except Error Checkpoint × Seeker × σ :=
  let (checkpoint, behind) := index.bracketLine line
  let bound := match behind with
    | next :: _ => next.line
    | [] => index.lineCount
  let s := { s with checkpoint, bound, current := none }
  if s.window.any (·.contains checkpoint.offset) then
    (.ok checkpoint, { s with cursor := checkpoint.offset }, w)
  else
    match s.fetch source checkpoint.offset w with
    | (.error e, s, w) => (.error e, s, w)
    | (.ok (), s, w) => (.ok checkpoint, { s with cursor := checkpoint.offset }, w)

def jumpTo (source : Source σ) (dec : Decoder σ) (index : Index) (line : Nat) (s : Seeker) (w : σ) :
    Except Error Instruction × Seeker × σ :=
  match s.moveTo source index line w with
  | (.error e, s, w) => (.error e, s, w)
  | (.ok checkpoint, s, w) => s.steps source dec (line - checkpoint.line) checkpoint.line w

/-- Finds the instruction on `line`: the current one as it is, the one behind it by one step as long
as no other checkpoint is closer, and any other from a checkpoint. -/
def lineFrom (source : Source σ) (dec : Decoder σ) (index : Index) (line : Nat) (s : Seeker)
    (w : σ) : Except Error Instruction × Seeker × σ :=
  match s.current with
  | some (here, i) =>
    if here = line then (.ok i, s, w)
    else if here + 1 = line ∧ line < s.bound then s.step source dec line w
    else s.jumpTo source dec index line w
  | none => s.jumpTo source dec index line w

/-- Ends a seek: a failed one resets the seeker. -/
def finish (line : Nat) (result : Except Error Instruction × Seeker × σ) :
    Except Error Seek × Seeker × σ :=
  match result with
  | (.ok i, s, w) => (.ok (s.found line i), s, w)
  | (.error e, s, w) => (.error (e.during .seeking), s.reset, w)

def byLine (source : Source σ) (dec : Decoder σ) (index : Index) (line : Nat) (s : Seeker) (w : σ) :
    Except Error Seek × Seeker × σ :=
  finish line <|
    if index.lineCount ≤ line then
      (.error { failure := .lineOutOfRange line index.lineCount }, s, w)
    else s.lineFrom source dec index line w

/-- Decodes from `line` on until an instruction covers `offset`; at most `left` lines are tried. -/
def search (source : Source σ) (dec : Decoder σ) (offset : Nat) :
    (left line : Nat) → Seeker → σ → Except Error Seek × Seeker × σ
  | 0, _, s, w => (.error { failure := .offsetOutOfRange offset }, s, w)
  | left + 1, line, s, w =>
    match s.step source dec line w with
    | (.error e, s, w) => (.error e, s, w)
    | (.ok i, s, w) =>
      if i.contains offset then (.ok (s.found line i), s, w)
      else search source dec offset left (line + 1) s w

def offsetFrom (source : Source σ) (dec : Decoder σ) (index : Index) (offset : Nat) (s : Seeker)
    (w : σ) : Except Error Seek × Seeker × σ :=
  match index.closestByOffset? offset with
  | none => (.error { failure := .offsetOutOfRange offset }, s, w)
  | some closest =>
    if index.covers offset then
      match s.moveTo source index closest.line w with
      | (.error e, s, w) => (.error e, s, w)
      | (.ok _, s, w) =>
        s.search source dec offset (index.lineCount - closest.line) closest.line w
    else (.error { failure := .offsetOutOfRange offset }, s, w)

def byOffset (source : Source σ) (dec : Decoder σ) (index : Index) (offset : Nat) (s : Seeker)
    (w : σ) : Except Error Seek × Seeker × σ :=
  match s.offsetFrom source dec index offset w with
  | (.ok seek, s, w) => (.ok seek, s, w)
  | (.error e, s, w) => (.error (e.during .seeking), s.reset, w)

end Seeker
end Disassembly
