import Disassembly.Json5.Reader
import Disassembly.Json5.Writer
import Disassembly.NatMap
import Disassembly.Symbols

/-! # Symbol files

A symbol file is a JSON5 text that holds the named places of a program, by address, and the regions
of the file that are loaded.
-/

namespace Disassembly

open Json5

structure SymbolFile where
  mappings : NatMap Mapping := []
  regions : List Region := []
  deriving DecidableEq, Repr

def MappingKind.word : MappingKind → String
  | .function => "function"
  | .data => "data"

def MappingKind.ofValue (v : Value) : Except Fault MappingKind := do
  let name ← v.asChoice
  if name = "function" then return .function
  else if name = "data" then return .data
  else throw (.unknownVariant name "`function` or `data`")

def Mapping.ofValue (v : Value) : Except Fault Mapping := do
  let fields ← v.fields ["name", "kind"]
  let name ← (← Value.required "name" fields[0]?.join).asString
  let kind ← MappingKind.ofValue (← Value.required "kind" fields[1]?.join)
  return { name, kind }

def Region.ofValue (v : Value) : Except Fault Region := do
  let fields ← v.fields ["file_offset", "address", "len"]
  let number (i : Nat) (name : String) : Except Fault Nat := do
    (← Value.required name fields[i]?.join).asNat (Text.wordBound - 1)
  return {
    fileOffset := ← number 0 "file_offset"
    address := ← number 1 "address"
    length := ← number 2 "len" }

namespace SymbolFile

def pairOfValue (v : Value) : Except Fault (Nat × Mapping) := do
  match ← v.asArray "a tuple of size 2" with
  | address :: mapping :: _ =>
    return (← address.asNat (Text.wordBound - 1), ← Mapping.ofValue mapping)
  | _ => throw (.expected "an address and a mapping")

/-- The named places that a value holds. Of two at one address the later counts. -/
def mappingsOfValue (v : Value) : Except Fault (NatMap Mapping) := do
  let pairs ← (← v.asArray "a list of [address, mapping] pairs").mapM pairOfValue
  return pairs.foldl (fun m (address, mapping) => m.insert address mapping) []

/-- What a value holds; either part may be left out. -/
def ofValue (v : Value) : Except Fault SymbolFile := do
  let fields ← v.fields ["mappings", "regions"]
  let mappings ← match fields[0]?.join with
    | some v => mappingsOfValue v
    | none => pure []
  let regions ← match fields[1]?.join with
    | some v => v.asArray "a sequence" >>= (·.mapM Region.ofValue)
    | none => pure []
  return { mappings, regions }

def ofText (text : String) : Except Error SymbolFile :=
  match Json5.parse text >>= ofValue with
  | .ok symbols => .ok symbols
  | .error fault => .error { failure := .config (.malformed fault.message) }

def mappingAt? (s : SymbolFile) (address : Nat) : Option Mapping :=
  s.mappings.get? address

/-- How offsets and addresses belong together: without regions they are the same. -/
def loadMap (s : SymbolFile) : LoadMap :=
  if s.regions = [] then .identity else .regions s.regions

private def mappingText (entry : Nat × Mapping) : String :=
  let place := writeObject
    [("name", writeString entry.2.name), ("kind", writeString entry.2.kind.word)]
  writeArray [toString entry.1, place]

private def regionText (r : Region) : String :=
  writeObject [("file_offset", toString r.fileOffset), ("address", toString r.address),
    ("len", toString r.length)]

/-- The symbols as text. A part with nothing in it is left out. -/
def toText (s : SymbolFile) : String :=
  let mappings := if s.mappings = [] then []
    else [("mappings", writeArray (s.mappings.entries.map mappingText))]
  let regions := if s.regions = [] then []
    else [("regions", writeArray (s.regions.map regionText))]
  writeObject (mappings ++ regions)

end SymbolFile
end Disassembly
