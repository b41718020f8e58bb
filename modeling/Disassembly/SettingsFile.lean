import Disassembly.Config
import Disassembly.Json5.Reader
import Disassembly.Json5.Writer

/-! # Settings files

Settings are read from a JSON5 text. Those that it leaves out have their defaults.
-/

namespace Disassembly.Config

open Json5

def fieldNames : List String :=
  ["checkpoint_span", "filler_run_limit", "string_preview_len", "deep_scan_on_start", "arrows"]

def setting {α : Type} (read : Value → Except Fault α) (default : α) (v : Option Value) :
    Except Fault α :=
  match v with
  | some v => read v
  | none => .ok default

def ofValue (v : Value) : Except Fault Config := do
  let fields ← v.fields fieldNames
  let field (i : Nat) : Option Value := fields[i]?.join
  let base : Config := {}
  let word := Text.wordBound - 1
  return {
    checkpointSpan := ← setting (Value.asNat word) base.checkpointSpan (field 0)
    fillerRunLimit := ← setting (Value.asNat (Text.halfWordBound - 1)) base.fillerRunLimit (field 1)
    previewLength := ← setting (Value.asNat word) base.previewLength (field 2)
    scanOnStart := ← setting Value.asBool base.scanOnStart (field 3)
    arrows := ← setting Value.asBool base.arrows (field 4) }

def ofText (text : String) : Except Error Config :=
  match Json5.parse text >>= ofValue with
  | .ok config => config.validate
  | .error fault =>
    .error { failure := .config (.malformed fault.message), action := some .configuring }

def toText (c : Config) : String :=
  writeObject <| fieldNames.zip
    [toString c.checkpointSpan, toString c.fillerRunLimit, toString c.previewLength,
      writeBool c.scanOnStart, writeBool c.arrows]

end Disassembly.Config
