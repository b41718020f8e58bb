import Disassembly.Error

/-! # Symbols

What may be known about a program beside its code: named places in memory, functions known by a
hash of their name, and where the parts of the file are loaded. None of it is needed to view a zone.
-/

namespace Disassembly

inductive MappingKind where
  | function
  | data
  deriving DecidableEq, Repr

structure Mapping where
  name : String
  kind : MappingKind
  deriving DecidableEq, Repr

/-- A range of the file that is loaded at an address. -/
structure Region where
  fileOffset : Nat
  address : Nat
  length : Nat
  deriving DecidableEq, Repr

namespace Region

def toFile? (address : Nat) (r : Region) : Option Nat :=
  if r.address ≤ address ∧ address - r.address < r.length then
    some (r.fileOffset + (address - r.address))
  else none

def fromFile? (offset : Nat) (r : Region) : Option Nat :=
  if r.fileOffset ≤ offset ∧ offset - r.fileOffset < r.length then
    some (r.address + (offset - r.fileOffset))
  else none

end Region

/-- How file offsets and addresses belong together. -/
inductive LoadMap where
  | identity
  /-- The first region that has a value decides. -/
  | regions (regions : List Region)
  deriving DecidableEq, Repr

namespace LoadMap

def toFile? (address : Nat) : LoadMap → Option Nat
  | .identity => some address
  | .regions rs => rs.findSome? (·.toFile? address)

def fromFile? (offset : Nat) : LoadMap → Option Nat
  | .identity => some offset
  | .regions rs => rs.findSome? (·.fromFile? offset)

end LoadMap

/-- Function names by the hash of the name under which a program knows them. -/
structure NameTable where
  hash (name : ByteArray) : UInt32
  functionOf? (token : UInt32) : Option String

def NameTable.lookup? (t : NameTable) (name : String) : Option String :=
  t.functionOf? (t.hash name.toUTF8)

structure Environment where
  mappingAt? (address : Nat) : Option Mapping := none
  names : Option NameTable := none
  loadMap : LoadMap := .identity

namespace Environment

/-- The place that `value` names: as an address, or else as a file offset that is loaded at one. -/
def symbolFor? (env : Environment) (value : Nat) : Option Mapping :=
  env.mappingAt? value <|> (env.loadMap.fromFile? value).bind env.mappingAt?

def knownFunction? (env : Environment) (mapping : Mapping) : Option String :=
  env.names.bind (·.lookup? mapping.name)

end Environment
end Disassembly
