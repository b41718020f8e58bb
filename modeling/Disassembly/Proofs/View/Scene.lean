import Disassembly.Proofs.Levels.Refinement
import Disassembly.Proofs.Seeker.Seek
import Disassembly.View

/-! # What there is to see

What a view shows depends on the zone, the bytes of the file, what they decode to, the settings, what
is known beside the code, and whether the labels have been looked for. It is said here line by line,
with no seeker, no counts and no notes to remember anything.
-/

namespace Disassembly

/-- All that a view shows comes from here. -/
structure Scene where
  zone : Zone
  content : Array UInt8
  decoding : Decoding
  config : Config := {}
  env : Environment := {}

namespace Scene

variable (c : Scene)

def index : Index :=
  .ofZone c.zone c.content c.decoding c.config

def instructions : List Instruction :=
  c.zone.lines c.content c.decoding c.config

def lineAt? (offset : Nat) : Option Nat :=
  (c.zone.seekOffset c.content c.decoding c.config offset).map (·.line)

def targets : List LabelTarget :=
  LabelTarget.collect c.zone c.index ((Sweep.ofArray
    (c.content.extract c.index.trueStart c.index.codeEnd) c.index.trueStart).take
      c.decoding.decoder c.index.lineCount ()).1

def labelOf (t : LabelTarget) : Label :=
  { name := t.reason.nameFor t.address, address := t.address }

/-- The levels with labels for some more targets; `done` have been labelled before. -/
def labelled : (done : Nat) → List LabelTarget → Levels → Levels
  | _, [], s => s
  | done, t :: ts, s =>
    match c.lineAt? t.address with
    | some line => labelled (done + 1) ts (s.perform (.insert (line + done) (labelOf t)))
    | none => s

/-- The levels before or after the labels have been put in. -/
def levels (scanned : Bool) : Levels :=
  if scanned then c.labelled 0 c.targets (.start c.index.lineCount) else .start c.index.lineCount

def entry (scanned : Bool) (number : Nat) : Resolved :=
  entryOf (c.levels scanned).root.contents number

def targetLine (scanned : Bool) (value : Nat) : Option Nat :=
  (c.lineAt? value).map (c.levels scanned).lineOfReal

def branchLine (scanned : Bool) (value : Nat) (line : Line) : Line :=
  match c.env.symbolFor? value with
  | some mapping =>
    { line with value := some value, operands := mapping.name, symbol := some mapping }
  | none => { line with
      value := some value
      operands := Enricher.inventName line.flow value
      targetLine := c.targetLine scanned value }

def instructionLine (scanned : Bool) (number : Nat) (i : Instruction) : Line :=
  let line := Line.ofInstruction number i
  match line.flow, i.literal? c.zone.arch with
  | .call, some value | .jump, some value => c.branchLine scanned value line
  | .push, some value => { line with value := some value }
  | _, _ => line

/-- The record of a virtual line, without rails. -/
def record (scanned : Bool) (number : Nat) : Line :=
  match c.entry scanned number with
  | .label label => .ofLabel number label
  | .instruction real =>
    match c.instructions[real]? with
    | some i => c.instructionLine scanned number i
    | none => .ofError number ((c.levels scanned).outOfRange number)

def instructionOn? (scanned : Bool) (number : Nat) : Option Instruction :=
  match c.entry scanned number with
  | .label _ => none
  | .instruction real => c.instructions[real]?

def preview? (value : Nat) : Option String :=
  let x : Enricher Unit := {
    zone := c.zone, config := c.config, env := c.env, source := .ofBytes c.content
    decoder := c.decoding.decoder, index := c.index, levels := c.levels false }
  (x.stringFor? value ()).1

def callee? (value : Nat) : Option String :=
  (c.env.symbolFor? value).bind fun mapping =>
    if mapping.kind = .function then c.env.knownFunction? mapping else none

def commentOn? (i : Instruction) : Option String :=
  if i.flow = .push then (i.literal? c.zone.arch).bind c.preview? else none

def callOn? (i : Instruction) : Option String :=
  if i.flow = .call then (i.literal? c.zone.arch).bind c.callee? else none

def comment? (scanned : Bool) (number : Nat) : Option String :=
  (c.instructionOn? scanned number).bind c.commentOn?

def call? (scanned : Bool) (number : Nat) : Option String :=
  (c.instructionOn? scanned number).bind c.callOn?

def window (scanned : Bool) (start count : Nat) : List Line :=
  let stop := min (start + count) (c.levels scanned).size
  let lines := (List.range' start (stop - start)).map (c.record scanned)
  if c.config.arrows then (layoutArrows lines).1 else lines

end Scene
end Disassembly
