import Disassembly.CommandLine.Run
import Disassembly.Text.Utf8

/-! # A folder in memory

A run of the program needs no disk: here its files are a list of names and bytes. Paths are followed
part by part, as an operating system does it, from the folder or from the root of the system. Of the
system there are some folders, whose other contents are not known, and the devices.
-/

namespace Disassembly.CommandLine

/-- The files of a folder by their names. A name with slashes lies in folders of its own. -/
abbrev Folder := List (String × Array UInt8)

inductive PathFault where
  | missing
  | notFolder
  | isFolder
  | nameTooLong
  deriving DecidableEq, Repr

def PathFault.message : PathFault → String
  | .missing => "No such file or directory (os error 2)"
  | .notFolder => "Not a directory (os error 20)"
  | .isFolder => "Is a directory (os error 21)"
  | .nameTooLong => "File name too long (os error 36)"

def noSpace : String := "No space left on device (os error 28)"

/-- A device of the system. Each has length 0 and nothing to read. -/
inductive Device where
  /-- Takes everything and shows it nowhere. -/
  | sink
  /-- Takes nothing. -/
  | full
  | standardOutput
  | standardError
  deriving DecidableEq, Repr

inductive Place where
  /-- A folder within the folder, by the names that lead to it. -/
  | folder (names : List String)
  | file (name : String)
  /-- A folder of the system, by the names that lead to it from the root. -/
  | system (names : List String)
  | device (d : Device)
  /-- Some folder that holds the folder. -/
  | above
  deriving DecidableEq, Repr

def devices : List (String × Device) :=
  [("null", .sink), ("zero", .sink), ("full", .full), ("random", .sink), ("urandom", .sink),
    ("stdin", .sink), ("stdout", .standardOutput), ("stderr", .standardError)]

/-- The folders of the system that are known, by the names that lead to them from the root. -/
def systemFolders : List (List String) :=
  [["bin"], ["boot"], ["dev"], ["dev", "pts"], ["dev", "shm"], ["etc"], ["home"], ["lib"],
    ["media"], ["mnt"], ["opt"], ["proc"], ["root"], ["run"], ["sbin"], ["srv"], ["sys"], ["tmp"],
    ["usr"], ["usr", "bin"], ["usr", "lib"], ["usr", "local"], ["usr", "share"], ["var"],
    ["var", "lib"], ["var", "log"], ["var", "tmp"]]

def nameLimit : Nat := 255

/-- The number of bytes that a path stays below. -/
def pathLimit : Nat := 4096

namespace Folder

def entry (f : Folder) (name : String) : Place → Except PathFault Place
  | .file _ | .device _ => .error .notFolder
  | .above => .error .missing
  | .system names =>
    if names ++ [name] ∈ systemFolders then .ok (.system (names ++ [name]))
    else
      match if names = ["dev"] then devices.lookup name else none with
      | some d => .ok (.device d)
      | none => .error .missing
  | .folder names =>
    let inside := names ++ [name]
    let full := "/".intercalate inside
    if f.any (·.1 == full) then .ok (.file full)
    else if f.any fun (file, _) => (full ++ "/").toList.isPrefixOf file.toList then
      .ok (.folder inside)
    else .error .missing

def parent : Place → Place
  | .folder [] => .above
  | .folder names => .folder names.dropLast
  | .system names => .system names.dropLast
  | p => p

/-- Where one part of a path leads from a place. Nothing is behind a file, not even the file. -/
def step (f : Folder) (place : Place) (part : String) : Except PathFault Place :=
  match place with
  | .file _ | .device _ => .error .notFolder
  | place =>
    if part = "" ∨ part = "." then .ok place
    else if part = ".." then .ok (parent place)
    else if nameLimit < part.utf8ByteSize then .error .nameTooLong
    else f.entry part place

def partsOf (path : String) : Except PathFault (Place × List String) :=
  if path = "" then .error .missing
  else if pathLimit ≤ path.utf8ByteSize then .error .nameTooLong
  else
    let start : Place := if path.toList.head? = some '/' then .system [] else .folder []
    .ok (start, path.splitOn "/")

def find (f : Folder) (path : String) : Except PathFault Place := do
  let (start, parts) ← partsOf path
  parts.foldlM f.step start

/-- Where a file is that is made, or emptied, at a path. A path with a slash at its end is one of a
folder. What is made outside of the folder is not seen again. -/
def creation (f : Folder) (path : String) : Except PathFault Place := do
  let (start, parts) ← partsOf path
  match parts.reverse.dropWhile (· = "") with
  | [] => throw .isFolder
  | last :: before =>
    match ← before.reverse.foldlM f.step start with
    | .file _ | .device _ => throw .notFolder
    | place =>
      if parts.getLast? = some "" then throw .isFolder
      match f.step place last, place with
      | .ok (.file name), _ => return .file name
      | .ok (.device d), _ => return .device d
      | .ok _, _ => throw .isFolder
      | .error .missing, .folder names => return .file ("/".intercalate (names ++ [last]))
      | .error .missing, _ => return .device .sink
      | .error fault, _ => throw fault

def contentAt? (f : Folder) (path : String) : Option (Array UInt8) :=
  match f.find path with
  | .ok (.file name) => f.lookup name
  | .ok (.device _) => some #[]
  | _ => none

/-- The text of the file at a path, with marks for what is no text. -/
def textAt? (f : Folder) (path : String) : Option String :=
  (f.contentAt? path).map Text.textOfBytes

/-- What is stored at a path. A folder has the length of one block and cannot be read. -/
def stored (f : Folder) (path : String) : Except PathFault StoredFile := do
  match ← f.find path with
  | .file name =>
    let bytes := (f.lookup name).getD #[]
    return { size := bytes.size, content := .ok bytes }
  | .device _ => return { size := 0, content := .ok #[] }
  | _ => return { size := 4096, content := .error PathFault.isFolder.message }

def files (f : Folder) : Files where
  lookup path := (f.stored path).mapError PathFault.message
  create path := (f.creation path).mapError PathFault.message |>.map fun _ => ()
  areSame first second :=
    match f.creation first, f.creation second with
    | .ok (.file first), .ok (.file second) => first == second
    | _, _ => false

def put (f : Folder) (name : String) (bytes : Array UInt8) : Folder :=
  (name, bytes) :: f.filter (·.1 != name)

/-- Writes the file of an outcome. Gives the outcome that is left, what is on the error stream ahead
of its complaint, and the folder afterwards. -/
def settle (f : Folder) (o : Outcome) : Outcome × String × Folder :=
  match o.written with
  | none => (o, "", f)
  | some (path, text) =>
    match f.creation path with
    | .ok (.file name) => (o, "", f.put name text.toUTF8.data)
    | .ok (.device .full) => (o.afterFailedWrite noSpace, "", f)
    | .ok (.device .standardOutput) => ({ o with printed := text }, "", f)
    | .ok (.device .standardError) => (o, text, f)
    | _ => (o, "", f)

end Folder
end Disassembly.CommandLine
