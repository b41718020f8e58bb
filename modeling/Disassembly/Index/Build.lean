import Disassembly.Config
import Disassembly.Index.Basic
import Disassembly.Source
import Disassembly.Sweep

/-! # Building an index

The entry point of a zone need not be its earliest code: a branch may reach back before it. So the
start of decoding is moved back until no branch that is met reaches further, and only then are the
instructions counted and the checkpoints taken.
-/

namespace Disassembly

variable {σ : Type}

namespace Zone

/-- The lowest branch target met so far, given one more instruction. A pass is done at `bound`. -/
def lowerTarget (z : Zone) (bound : Nat) (i : Instruction) (found : Nat) : ForInStep Nat :=
  if bound ≤ i.address then .done found
  else
    match i.branchTarget? z.arch with
    | some target => .yield (if z.start ≤ target ∧ target < found then target else found)
    | none => .yield found

/-- Decodes from `start` on, up to `bound`, for the lowest branch target below `start` that is in
the zone; `start` itself if there is none. -/
def lowestTarget (z : Zone) (code : Code) (dec : Decoder σ) (start bound : Nat) (w : σ) :
    Nat × σ :=
  let sweep : Sweep := { rest := code.drop (start - z.start), address := start }
  let (found, _, w) := sweep.fold dec (z.lowerTarget bound) start w
  (found, w)

/-- Moves the start of decoding back from `start`, as long as a pass over the bytes up to `bound`
finds a branch that reaches further back. Each pass covers what the one before it uncovered. -/
def reachBack (z : Zone) (code : Code) (dec : Decoder σ) (start bound : Nat) (w : σ) : Nat × σ :=
  match z.lowestTarget code dec start bound w with
  | (found, w) => if found < start then z.reachBack code dec found start w else (start, w)
termination_by start

/-- Where decoding must start so that no branch reaches before it. -/
def findTrueStart (z : Zone) (code : Code) (dec : Decoder σ) (w : σ) : Nat × σ :=
  z.reachBack code dec z.entry z.stop w

end Zone

structure Tally where
  /-- The checkpoints behind the first, newest first. -/
  samples : List Checkpoint
  lastOffset : Nat
  lineCount : Nat
  /-- How many filler instructions have just been seen in a row, and where the first one was. -/
  fillerRun : Nat
  fillerStart : Nat
  codeEnd : Nat

namespace Tally

def start (offset : Nat) : Tally :=
  { samples := [], lastOffset := offset, lineCount := 0, fillerRun := 0, fillerStart := offset
    codeEnd := offset }

def noteFiller (i : Instruction) (t : Tally) : Tally :=
  if i.isFiller then
    { t with
      fillerRun := t.fillerRun + 1
      fillerStart := if t.fillerRun = 0 then i.address else t.fillerStart }
  else { t with fillerRun := 0 }

/-- Drops the run of filler that has just reached its limit; its last instruction is not counted. -/
def dropFiller (t : Tally) : Tally :=
  { t with lineCount := t.lineCount - (t.fillerRun - 1), codeEnd := t.fillerStart }

/-- Counts an instruction, and takes a checkpoint behind it once `span` bytes have gone by. -/
def countLine (span zoneStop : Nat) (i : Instruction) (t : Tally) : Tally :=
  let t := { t with lineCount := t.lineCount + 1, codeEnd := i.stop }
  if span ≤ i.stop - t.lastOffset ∧ i.stop < zoneStop then
    { t with samples := { offset := i.stop, line := t.lineCount } :: t.samples
             lastOffset := i.stop }
  else t

/-- Counts one more instruction; a run of `limit` filler instructions is the end of the code. -/
def step (span limit zoneStop : Nat) (i : Instruction) (t : Tally) : ForInStep Tally :=
  let t := t.noteFiller i
  if i.isFiller ∧ limit ≤ t.fillerRun then .done t.dropFiller
  else .yield (t.countLine span zoneStop i)

/-- The index of what has been counted. A checkpoint with no counted instruction is dropped. -/
def toIndex (trueStart : Nat) (t : Tally) : Index where
  trueStart := trueStart
  samples := t.samples.reverse.filter (·.line < t.lineCount)
  lineCount := t.lineCount
  codeEnd := t.codeEnd

end Tally

namespace Index

def count (z : Zone) (code : Code) (dec : Decoder σ) (config : Config) (trueStart : Nat) (w : σ) :
    Index × σ :=
  let sweep : Sweep := { rest := code.drop (trueStart - z.start), address := trueStart }
  let span := max config.checkpointSpan 1
  let limit := max config.fillerRunLimit 1
  let (tally, _, w) := sweep.fold dec (Tally.step span limit z.stop) (.start trueStart) w
  (tally.toIndex trueStart, w)

/-- Builds the index of a zone. Code that does not decode ends it without an error; only a bad zone,
or bytes that cannot be read, are errors. -/
def build (z : Zone) (source : Source σ) (dec : Decoder σ) (config : Config) (w : σ) :
    Except Error Index × σ :=
  match z.validate with
  | .error e => (.error (e.during .indexing), w)
  | .ok () =>
    match source.read z.start z.size w with
    | (.error e, w) => (.error (e.during .indexing), w)
    | (.ok bytes, w) =>
      let code := Code.ofArray bytes
      let (trueStart, w) := z.findTrueStart code dec w
      let (index, w) := count z code dec config trueStart w
      (.ok index, w)

end Index
end Disassembly
