import Disassembly.Arch

/-! # Errors

An error is a failure with a cause, and the action during which it was met. The innermost action is
the one that counts, so attaching an action to an error that has one changes nothing.
-/

namespace Disassembly

open Text (hex)

inductive ReadFault where
  | short (available : Nat)
  | truncated
  /-- No file has such an offset. -/
  | unreachable
  | device (reason : String)
  deriving DecidableEq, Repr

def ReadFault.message : ReadFault → String
  | .short available => s!"only {available} bytes available"
  | .truncated => "failed to fill whole buffer"
  | .unreachable => "Invalid argument (os error 22)"
  | .device reason => reason

inductive DecodeFault where
  | malformed
  | noProgress
  | invalidByte (byte : UInt8)
  | reported (reason : String)
  deriving DecidableEq, Repr

def DecodeFault.message : DecodeFault → String
  | .malformed => "decoder returned a malformed instruction"
  | .noProgress => "decoder made no progress"
  | .invalidByte byte => s!"invalid instruction byte 0x{Text.hexByte byte}"
  | .reported reason => reason

/-- What is wrong with a zone or with a range of its lines. -/
inductive ZoneFault where
  | empty
  | pastAddressSpace
  | entryOutside (entry start stop : Nat)
  | badRange (start stop : Nat)
  | overlap (start stop : Nat)
  | reported (reason : String)
  deriving DecidableEq, Repr

def ZoneFault.message : ZoneFault → String
  | .empty => "zone is empty"
  | .pastAddressSpace => "zone extends past the end of the address space"
  | .entryOutside entry start stop =>
    s!"entry point 0x{hex entry} is outside of 0x{hex start}..0x{hex stop}"
  | .badRange start stop => s!"bad level range {start}..{stop}"
  | .overlap start stop => s!"level {start}..{stop} overlaps an existing level"
  | .reported reason => reason

inductive ConfigFault where
  | malformed (reason : String)
  | zero (field : String)
  | unreadable (path reason : String)
  | reported (reason : String)
  deriving DecidableEq, Repr

def ConfigFault.message : ConfigFault → String
  | .malformed reason => reason
  | .zero field => s!"{field} must be nonzero"
  | .unreadable path reason => s!"{path}: {reason}"
  | .reported reason => reason

inductive Failure where
  | unsupportedArch (arch : Arch)
  | decoderInit (reason : String)
  | read (offset length : Nat) (fault : ReadFault)
  /-- A slice was taken that begins past the end of the bytes, which a program does not survive. -/
  | outOfBounds (start size : Nat)
  | decode (offset : Nat) (fault : DecodeFault)
  /-- The bytes ran out before the instruction that was looked for. -/
  | endOfZone (offset : Nat)
  | badZone (fault : ZoneFault)
  | lineOutOfRange (line count : Nat)
  | offsetOutOfRange (offset : Nat)
  /-- An earlier failure, whose message is kept, has made the view useless. -/
  | unusable (reason : String)
  | config (fault : ConfigFault)
  | io (reason : String)
  deriving DecidableEq, Repr

def Failure.message : Failure → String
  | .unsupportedArch arch => s!"unsupported architecture: {arch.name}"
  | .decoderInit reason => s!"failed to initialize decoder: {reason}"
  | .read offset length fault =>
    s!"failed to read {length} bytes at 0x{hex offset}: {fault.message}"
  | .outOfBounds start size => s!"range start index {start} out of range for slice of length {size}"
  | .decode offset fault => s!"failed to disassemble at 0x{hex offset}: {fault.message}"
  | .endOfZone offset => s!"ran out of code at 0x{hex offset}"
  | .badZone fault => s!"bad zone: {fault.message}"
  | .lineOutOfRange line count => s!"line {line} is out of range ({count} lines)"
  | .offsetOutOfRange offset => s!"offset 0x{hex offset} is outside of the indexed code"
  | .unusable reason => s!"zone is unusable: {reason}"
  | .config fault => s!"bad configuration: {fault.message}"
  | .io reason => s!"i/o error: {reason}"

inductive Place where
  | offset (offset : Nat)
  | line (line : Nat)
  deriving DecidableEq, Repr

def Failure.place? : Failure → Option Place
  | .read offset _ _ | .decode offset _ | .endOfZone offset | .offsetOutOfRange offset =>
    some (.offset offset)
  | .lineOutOfRange line _ => some (.line line)
  | _ => none

inductive Action where
  | indexing
  | seeking
  | scanning
  | rendering
  | exporting
  | configuring
  deriving DecidableEq, Repr

def Action.verb : Action → String
  | .indexing => "indexing"
  | .seeking => "seeking"
  | .scanning => "scanning"
  | .rendering => "rendering"
  | .exporting => "exporting"
  | .configuring => "configuring"

structure Error where
  failure : Failure
  action : Option Action := none
  deriving DecidableEq, Repr

namespace Error

/-- Attaches `action`, unless the error has one already. -/
def during (action : Action) (e : Error) : Error :=
  { e with action := e.action <|> some action }

def message (e : Error) : String :=
  e.failure.message

/-- The line that says where it went wrong and what was being done, if either is known. -/
def context? (e : Error) : Option String :=
  match e.action, e.failure.place? with
  | some action, some (.offset offset) =>
    some s!"  while {action.verb} at file offset 0x{hex offset}"
  | some action, some (.line line) => some s!"  while {action.verb} line {line}"
  | some action, none => some s!"  while {action.verb}"
  | none, some (.offset offset) => some s!"  at file offset 0x{hex offset}"
  | none, some (.line line) => some s!"  at line {line}"
  | none, none => none

def report (e : Error) : String :=
  let context := match e.context? with
    | some line => line ++ "\n"
    | none => ""
  s!"error: {e.message}\n" ++ context

end Error
end Disassembly
