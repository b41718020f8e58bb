import Disassembly.CommandLine.Run
import Disassembly.Listing.Text

/-! # The program

The program reads the files that its command line names, carries out the request, and prints what
comes of it. What the code in a file decodes to is taken from the listing beside the file, which has
its name with `.listing` behind.
-/

open Disassembly CommandLine

def reasonOf : IO.Error → String
  | .noFileOrDirectory .. => "No such file or directory (os error 2)"
  | .permissionDenied .. => "Permission denied (os error 13)"
  | .inappropriateType _ 21 _ => "Is a directory (os error 21)"
  | .inappropriateType .. => "Not a directory (os error 20)"
  | .resourceExhausted _ 28 _ => "No space left on device (os error 28)"
  | e => toString e

/-- The length that a folder is said to have. -/
def folderSize : Nat := 4096

/-- What is found under a path. A folder can be opened, but not read. -/
def loadFile (path : String) : IO (Except String StoredFile) := do
  try
    let bytes := (← IO.FS.readBinFile path).data
    return .ok { size := bytes.size, content := .ok bytes }
  catch
    | e@(.inappropriateType _ 21 _) =>
      return .ok { size := folderSize, content := .error (reasonOf e) }
    | e => return .error (reasonOf e)

def fullPath (path : String) : IO (Option String) := do
  try
    return some (← IO.FS.realPath path).toString
  catch _ => return none

def inputsOf (r : Request) : List String :=
  [r.file] ++ r.config.toList ++ r.symbols.toList

def outputsOf (r : Request) : List String :=
  match r.command with
  | .exportText output => output.toList
  | _ => []

def loadFiles (args : List String) : IO Files := do
  let (inputs, outputs) := match readRequest args with
    | .ok r => (inputsOf r, outputsOf r)
    | .error _ => ([], [])
  let loaded ← inputs.mapM fun path => return (path, ← loadFile path)
  let full ← (inputs ++ outputs).mapM fun path => return (path, ← fullPath path)
  let fullOf (path : String) : Option String := (full.lookup path).join
  return {
    lookup := fun path => (loaded.lookup path).getD (.error "file has not been read")
    create := fun _ => .ok ()
    areSame := fun first second =>
      first == second || ((fullOf first).isSome && fullOf first == fullOf second) }

/-- The listing beside the file of a request; an empty one if there is none. -/
def loadListing (args : List String) : IO Listing := do
  match readRequest args with
  | .error _ => return []
  | .ok r =>
    match (← loadFile (r.file ++ ".listing")) >>= (·.content) with
    | .ok bytes =>
      match (String.fromUTF8? ⟨bytes⟩).map Listing.ofText with
      | some (.ok rows) => return rows
      | _ => throw (IO.userError "the listing cannot be read")
    | .error _ => return []

def reasonIfFailed {α : Type} (operation : IO α) : IO (Except String α) := do
  try
    return .ok (← operation)
  catch e => return .error (reasonOf e)

/-- Writes the file that an outcome has; gives the outcome that is left. -/
def writeOutcome (o : Outcome) : IO Outcome := do
  match o.written with
  | none => return o
  | some (path, text) =>
    match ← reasonIfFailed (IO.FS.Handle.mk path .write) with
    | .error reason => return failed { failure := .io reason }
    | .ok file =>
      match ← reasonIfFailed (do file.putStr text; file.flush) with
      | .error reason => return o.afterFailedWrite reason
      | .ok () => return o

def main (args : List String) : IO UInt32 := do
  let files ← loadFiles args
  let listing ← loadListing args
  let (outcome, ()) := run (Listing.instructionSet listing) files args ()
  let outcome ← writeOutcome outcome
  IO.print outcome.printed
  match outcome.complaint with
  | none => return 0
  | some c =>
    IO.eprint c.text
    return 1
