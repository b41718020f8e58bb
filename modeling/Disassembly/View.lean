import Disassembly.Export
import Disassembly.Index.Build
import Disassembly.Labels
import Disassembly.Line.Arrows
import Disassembly.Line.Display
import Disassembly.Line.Enrich

/-! # Views

A view is what a viewport drives: it has all that is needed to show one zone. Nothing is computed
until the first operation asks for it. If that fails, the view remembers why and stays useless.
-/

namespace Disassembly

variable {σ : Type}

structure RenderedWindow where
  start : Nat
  count : Nat
  lines : List Line
  deriving DecidableEq, Repr

structure OpenZone (σ : Type) where
  decoder : Decoder σ
  index : Index
  seeker : Seeker
  levels : Levels
  notes : Notes := {}
  window : Option RenderedWindow := none
  /-- Whether the labels have been looked for. -/
  scanned : Bool := false

inductive ViewStatus (σ : Type) where
  | untouched
  | ready (zone : OpenZone σ)
  | unusable (reason : String)

/-- A zone as a viewport sees it. -/
structure View (σ : Type) where
  zone : Zone
  config : Config
  instructionSet : InstructionSet σ
  source : Source σ
  env : Environment := {}
  status : ViewStatus σ := .untouched

namespace OpenZone

/-- Looks for the labels, unless that has been done. Lines move then, so what was noted and rendered
is dropped. A scan that fails leaves no labels. -/
def scan (z : Zone) (source : Source σ) (o : OpenZone σ) (w : σ) :
    Except Error Nat × OpenZone σ × σ :=
  if o.scanned then (.ok 0, o, w)
  else
    match o.levels.scan z source o.decoder o.index o.seeker w with
    | (.ok count, levels, seeker, w) =>
      (.ok count, { o with levels, seeker, scanned := true, notes := {}, window := none }, w)
    | (.error e, _, seeker, w) =>
      (.error e, { o with levels := .start o.index.lineCount, seeker := seeker.reset }, w)

def targetOf (arch : Arch) (source : Source σ) (real : Nat) (o : OpenZone σ) (w : σ) :
    Except Error (Option Nat) × OpenZone σ × σ :=
  match o.seeker.byLine source o.decoder o.index real w with
  | (.error e, seeker, w) => (.error e, { o with seeker }, w)
  | (.ok seek, seeker, w) =>
    match seek.instruction.branchTarget? arch with
    | none => (.ok none, { o with seeker }, w)
    | some target =>
      if o.index.covers target then
        match seeker.byOffset source o.decoder o.index target w with
        | (.error e, seeker, w) => (.error e, { o with seeker }, w)
        | (.ok seek, seeker, w) =>
          (.ok (some (o.levels.lineOfReal seek.line)), { o with seeker }, w)
      else (.ok none, { o with seeker }, w)

end OpenZone

namespace View

def open? (v : View σ) : Option (OpenZone σ) :=
  match v.status with
  | .ready o => some o
  | _ => none

def index? (v : View σ) : Option Index :=
  v.open?.map (·.index)

def levels? (v : View σ) : Option Levels :=
  v.open?.map (·.levels)

def notes? (v : View σ) : Option Notes :=
  v.open?.map (·.notes)

def comment? (line : Nat) (v : View σ) : Option String :=
  v.notes?.bind (·.comments.get? line)

/-- Opens the zone: builds its index, and looks for labels if the settings ask for them. A zone
whose labels cannot be found is shown without. -/
def openZone (v : View σ) (w : σ) : Except Error (OpenZone σ) × σ :=
  if !v.instructionSet.supports v.zone.arch then
    (.error { failure := .unsupportedArch v.zone.arch, action := some .indexing }, w)
  else
    match v.instructionSet.openDecoder v.zone.arch w with
    | (.error e, w) => (.error (e.during .indexing), w)
    | (.ok decoder, w) =>
      match Index.build v.zone v.source decoder v.config w with
      | (.error e, w) => (.error e, w)
      | (.ok index, w) =>
        let o : OpenZone σ :=
          { decoder, index, seeker := .start v.zone.stop, levels := .start index.lineCount }
        if v.config.scanOnStart then
          let (_, o, w) := o.scan v.zone v.source w
          (.ok o, w)
        else (.ok o, w)

/-- Opens the zone unless that has been tried. What follows is done with the open zone. -/
def ensureOpen (v : View σ) (w : σ) : Except Error (OpenZone σ) × View σ × σ :=
  match v.status with
  | .ready o => (.ok o, v, w)
  | .unusable reason => (.error { failure := .unusable reason }, v, w)
  | .untouched =>
    match v.openZone w with
    | (.ok o, w) => (.ok o, { v with status := .ready o }, w)
    | (.error e, w) => (.error e, { v with status := .unusable e.message }, w)

def keep (v : View σ) (o : OpenZone σ) : View σ :=
  { v with status := .ready o }

def initialise (v : View σ) (w : σ) : Except Error Nat × View σ × σ :=
  match v.ensureOpen w with
  | (.error e, v, w) => (.error e, v, w)
  | (.ok o, v, w) => (.ok o.levels.size, v, w)

def deepScan (v : View σ) (w : σ) : Except Error Nat × View σ × σ :=
  match v.ensureOpen w with
  | (.error e, v, w) => (.error e, v, w)
  | (.ok o, v, w) =>
    let (result, o, w) := o.scan v.zone v.source w
    (result, v.keep o, w)

def invalidate (v : View σ) : View σ :=
  match v.status with
  | .ready o => v.keep { o with window := none }
  | _ => v

/-- The record of virtual line `number`. One that cannot be produced is a failed line. -/
def renderLine (v : View σ) (number : Nat) (o : OpenZone σ) (w : σ) : Line × OpenZone σ × σ :=
  match o.levels.resolve number with
  | (.error e, levels) => (.ofError number (e.during .rendering), { o with levels }, w)
  | (.ok (.label label), levels) => (.ofLabel number label, { o with levels }, w)
  | (.ok (.instruction real), levels) =>
    match o.seeker.byLine v.source o.decoder o.index real w with
    | (.error e, seeker, w) => (.ofError number (e.during .rendering), { o with levels, seeker }, w)
    | (.ok seek, seeker, w) =>
      let enricher : Enricher σ :=
        { zone := v.zone, config := v.config, env := v.env, source := v.source
          decoder := o.decoder, index := o.index, levels }
      let (line, notes, seeker, w) := enricher.enrich number seek.instruction o.notes seeker w
      (line, { o with levels, seeker, notes }, w)

/-- The records of `count` lines from `number` on, behind `done`, which has the newest first. A
failed line is the last. -/
def renderLines (v : View σ) (done : List Line) :
    (count number : Nat) → OpenZone σ → σ → List Line × OpenZone σ × σ
  | 0, _, o, w => (done.reverse, o, w)
  | count + 1, number, o, w =>
    let (line, o, w) := v.renderLine number o w
    match line.kind with
    | .failed _ => ((line :: done).reverse, o, w)
    | _ => v.renderLines (line :: done) count (number + 1) o w

def renderWindow (v : View σ) (start count : Nat) (o : OpenZone σ) (w : σ) :
    List Line × OpenZone σ × σ :=
  let stop := min (start + count) o.levels.size
  let (lines, o, w) := v.renderLines [] (stop - start) start o w
  let lines := if v.config.arrows then (layoutArrows lines).1 else lines
  (lines, { o with window := some { start, count, lines } }, w)

def cached? (start count : Nat) (o : OpenZone σ) : Option (List Line) :=
  match o.window with
  | some window => if window.start = start ∧ window.count = count then some window.lines else none
  | none => none

def render (start count : Nat) (v : View σ) (w : σ) : Except Error (List Line) × View σ × σ :=
  match v.ensureOpen w with
  | (.error e, v, w) => (.error e, v, w)
  | (.ok o, v, w) =>
    match cached? start count o with
    | some lines => (.ok lines, v, w)
    | none =>
      let (lines, o, w) := v.renderWindow start count o w
      (.ok lines, v.keep o, w)

def display (start count : Nat) (opts : DisplayOptions) (v : View σ) (w : σ) :
    Except Error (List DisplayLine) × View σ × σ :=
  match v.render start count w with
  | (.error e, v, w) => (.error e, v, w)
  | (.ok lines, v, w) =>
    let notes := v.notes?.getD {}
    (.ok (lines.map fun l => l.compose opts (notes.textFor? l.number)), v, w)

/-- Writes the flat text of the zone: the text, and the error that cut it short. -/
def exportText (v : View σ) (w : σ) : String × Option Error × View σ × σ :=
  match v.ensureOpen w with
  | (.error e, v, w) => ("", some e, v, w)
  | (.ok o, v, w) =>
    let (text, e, w) := Export.write v.zone v.source o.decoder o.index w
    (text, e, v.keep { o with seeker := o.seeker.reset }, w)

/-- The virtual line that the branch on virtual line `line` leads to, if it leads into the code. The
seeker is left where it was. -/
def follow (line : Nat) (v : View σ) (w : σ) : Except Error (Option Nat) × View σ × σ :=
  match v.ensureOpen w with
  | (.error e, v, w) => (.error e, v, w)
  | (.ok o, v, w) =>
    match o.levels.peek line with
    | .error e => (.error e, v, w)
    | .ok (.label _) => (.ok none, v, w)
    | .ok (.instruction real) =>
      let saved := o.seeker.snapshot
      let (result, o, w) := o.targetOf v.zone.arch v.source real w
      (result, v.keep { o with seeker := o.seeker.restore saved }, w)

/-- The virtual line of the instruction that covers a file offset. The seeker is left where it was.
-/
def lineOfOffset (offset : Nat) (v : View σ) (w : σ) : Except Error Nat × View σ × σ :=
  match v.ensureOpen w with
  | (.error e, v, w) => (.error e, v, w)
  | (.ok o, v, w) =>
    let saved := o.seeker.snapshot
    let (result, seeker, w) := o.seeker.byOffset v.source o.decoder o.index offset w
    let v := v.keep { o with seeker := seeker.restore saved }
    (result.map fun seek => o.levels.lineOfReal seek.line, v, w)

end View
end Disassembly
