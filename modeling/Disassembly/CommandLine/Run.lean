import Disassembly.CommandLine.Request
import Disassembly.SettingsFile
import Disassembly.SymbolFile
import Disassembly.View

/-! # Carrying out a request

Everything that a run of the program does to the outside is gathered in its outcome: the exit code,
what is printed, and the file that is written. Files are reached through a record of functions, so a
run depends on nothing else.
-/

namespace Disassembly.CommandLine

variable {σ : Type}

/-- The files that a run can see. Looking one up or making one may fail with a reason. -/
structure Files where
  lookup (path : String) : Except String StoredFile
  /-- Makes an empty file, or empties the one that is there. -/
  create (path : String) : Except String Unit
  areSame (first second : String) : Bool

inductive Complaint where
  | misuse (reason : String)
  | error (e : Error)
  deriving DecidableEq, Repr

def Complaint.text : Complaint → String
  | .misuse reason => s!"error: {reason}\n\nFor more information try --help\n"
  | .error e => e.report

structure Outcome where
  printed : String := ""
  complaint : Option Complaint := none
  written : Option (String × String) := none
  deriving DecidableEq, Repr

/-- The exit code: nonzero if there is a complaint. -/
def Outcome.code (o : Outcome) : Nat :=
  if o.complaint.isSome then 1 else 0

def failed (e : Error) : Outcome :=
  { complaint := some (.error e) }

def writeBuffer : Nat := 8192

/-- What becomes of an outcome whose file is there, but takes no bytes. A text that is too long for
the buffer fails while it is exported; any other fails at its end, behind any other complaint. -/
def Outcome.afterFailedWrite (o : Outcome) (reason : String) : Outcome :=
  match o.written with
  | none => o
  | some (_, text) =>
    if text = "" then o
    else if writeBuffer < text.utf8ByteSize then
      failed { failure := .io reason, action := some .exporting }
    else if o.complaint.isSome then { o with written := none }
    else failed { failure := .io reason }

def programName : String := "zonedis"

def programVersion : String := "0.1.0"

def usage : String :=
  s!"{programName} {programVersion}\nUSAGE:\n    {programName} [OPTIONS] <file> <COMMAND>\n"

/-- The outcome for a command line that makes no request. -/
def refused (r : Refusal) : Outcome :=
  match r.stop with
  | .help => { printed := usage }
  | .version =>
    let name := match r.command with
      | some command => s!"{programName}-{command}"
      | none => programName
    { printed := s!"{name} {programVersion}\n" }
  | .misuse reason => { complaint := some (.misuse reason) }

def readText (files : Files) (path : String) : Except ConfigFault String :=
  match files.lookup path >>= (·.content) with
  | .error reason => .error (.unreadable path reason)
  | .ok bytes =>
    match String.fromUTF8? ⟨bytes⟩ with
    | some text => .ok text
    | none => .error (.unreadable path "stream did not contain valid UTF-8")

def settingsOf (files : Files) (r : Request) : Except Error Config := do
  let config ← match r.config with
    | none => pure {}
    | some path =>
      match readText files path with
      | .ok text => Config.ofText text
      | .error fault => throw { failure := .config fault, action := some .configuring }
  let config := if r.deepScan then { config with scanOnStart := true } else config
  return if r.noDeepScan then { config with scanOnStart := false } else config

def symbolsOf (files : Files) (r : Request) : Except Error SymbolFile :=
  match r.symbols with
  | none => .ok {}
  | some path =>
    match readText files path with
    | .ok text => SymbolFile.ofText text
    | .error fault => .error { failure := .config fault }

def zoneOf (r : Request) (size : Nat) : Zone where
  start := r.start
  size := r.size.getD (size - r.start)
  entry := r.entry.getD r.start
  arch := r.arch

/-- What is known beside the code. An address for the zone takes the place of the regions. -/
def environmentOf (r : Request) (z : Zone) (symbols : SymbolFile) : Environment where
  mappingAt? := symbols.mappingAt?
  loadMap := match r.base with
    | some address => .regions [{ fileOffset := z.start, address, length := z.size }]
    | none => symbols.loadMap

/-- Whether carrying out a request empties the file that it is about. -/
def overwrites (files : Files) (r : Request) : Bool :=
  match r.command with
  | .exportText (some output) => files.areSame output r.file
  | _ => false

/-- The file that a request is about. One that is written to is empty from then on. -/
def fileOf (files : Files) (r : Request) : Except Error StoredFile :=
  match files.lookup r.file with
  | .error reason => .error { failure := .io reason }
  | .ok file => .ok (if overwrites files r then { file with content := .ok #[] } else file)

def viewOf (set : InstructionSet σ) (files : Files) (r : Request) : Except Error (View σ) := do
  let config ← settingsOf files r
  let symbols ← symbolsOf files r
  let file ← fileOf files r
  let zone := zoneOf r file.size
  return {
    zone, config
    instructionSet := set
    source := .ofFile file
    env := environmentOf r zone symbols }

def indexText (index : Index) (levels : Levels) : String :=
  let checkpoint (c : Checkpoint) : String :=
    s!"  0x{Text.hexPadded 8 c.offset} line {c.line}\n"
  s!"true start:   0x{Text.hex index.trueStart}\n" ++
    s!"code end:     0x{Text.hex index.codeEnd}\n" ++
    s!"instructions: {index.lineCount}\n" ++
    s!"labels:       {levels.labelCount}\n" ++
    s!"lines:        {levels.size}\n" ++
    "checkpoints:\n" ++ String.join (index.checkpoints.map checkpoint)

def report {α : Type} (result : Except Error α) (text : α → String) : Outcome :=
  match result with
  | .ok a => { printed := text a }
  | .error e => failed e

def runCommand (files : Files) (v : View σ) (w : σ) : Command → Outcome × σ
  | .index =>
    let (result, v, w) := v.initialise w
    (report result fun _ => match v.open? with
      | some o => indexText o.index o.levels
      | none => "", w)
  | .view line count rails =>
    let (result, _, w) := v.display line count { rails } w
    (report result fun lines => String.join (lines.map fun d => d.text ++ "\n"), w)
  | .exportText none =>
    let (text, e, _, w) := v.exportText w
    ({ printed := text, complaint := e.map .error }, w)
  | .exportText (some path) =>
    match files.create path with
    | .error reason => (failed { failure := .io reason }, w)
    | .ok () =>
      let (text, e, _, w) := v.exportText w
      ({ written := some (path, text), complaint := e.map .error }, w)
  | .follow line =>
    let (result, _, w) := v.follow line w
    (report result fun
      | some target => s!"{line} -> {target}\n"
      | none => s!"line {line} does not lead into the zone\n", w)
  | .seek offset =>
    let (result, _, w) := v.lineOfOffset offset w
    (report result fun line => s!"0x{Text.hex offset} is on line {line}\n", w)

def run (set : InstructionSet σ) (files : Files) (args : List String) (w : σ) : Outcome × σ :=
  match readRequest args with
  | .error r => (refused r, w)
  | .ok request =>
    match viewOf set files request with
    | .error e => (failed e, w)
    | .ok v => runCommand files v w request.command

end Disassembly.CommandLine
