import Disassembly.Config
import Disassembly.Levels.Resolve
import Disassembly.Line.Basic
import Disassembly.Line.Notes
import Disassembly.Line.Preview
import Disassembly.Seeker
import Disassembly.Zone

/-! # Enriching lines

A branch to a literal address gets the name of what is there, or a made-up one and the line it leads
to. A push of an address with text behind it gets a preview of the text as a comment.
-/

namespace Disassembly

structure Enricher (σ : Type) where
  zone : Zone
  config : Config
  env : Environment
  source : Source σ
  decoder : Decoder σ
  index : Index
  levels : Levels

namespace Enricher

variable {σ : Type}

/-- The virtual line that a covered address is on, with the seeker left where it was. -/
def targetLine (x : Enricher σ) (value : Nat) (k : Seeker) (w : σ) : Option Nat × Seeker × σ :=
  if x.index.covers value then
    let saved := k.snapshot
    let (found, k, w) := k.byOffset x.source x.decoder x.index value w
    let k := k.restore saved
    match found with
    | .ok seek => (some (x.levels.lineOfReal seek.line), k, w)
    | .error _ => (none, k, w)
  else (none, k, w)

def inventName (flow : Flow) (value : Nat) : String :=
  let stem := match flow with
    | .call => "sub_0x"
    | _ => "jmp_0x"
  s!"{Text.label stem value} (0x{Text.hex value})"

/-- Notes the well-known function that a call to `mapping` calls, the first time its line is shown.
-/
def noteCall (x : Enricher σ) (line : Line) (mapping : Mapping) (n : Notes) : Notes :=
  if line.flow = .call ∧ mapping.kind = .function ∧ ¬ n.hasVisited line.number then
    match x.env.knownFunction? mapping with
    | some function => n.addCall line.number function
    | none => n
  else n

def branch (x : Enricher σ) (line : Line) (value : Nat) (n : Notes) (k : Seeker) (w : σ) :
    Line × Notes × Seeker × σ :=
  let line := { line with value := some value }
  match x.env.symbolFor? value with
  | some mapping =>
    let n := x.noteCall line mapping n
    ({ line with operands := mapping.name, symbol := some mapping }, n, k, w)
  | none =>
    let (targetLine, k, w) := x.targetLine value k w
    ({ line with operands := inventName line.flow value, targetLine }, n, k, w)

/-- The file offset that a pushed value points at, if it is like an address at all: a value that is
its own offset must not point before the zone. -/
def pointedAt? (x : Enricher σ) (value : Nat) : Option Nat :=
  match x.env.loadMap.toFile? value with
  | some offset => if offset = value ∧ value < x.zone.start then none else some offset
  | none => none

/-- The preview of the string that a pushed value points at. It is looked for only if there is room
for one of full length. -/
def stringFor? (x : Enricher σ) (value : Nat) (w : σ) : Option String × σ :=
  let limit := x.config.previewLength
  match x.pointedAt? value with
  | none => (none, w)
  | some offset =>
    if x.source.size ≤ offset + limit then (none, w)
    else
      match x.source.readClamped offset (limit * 2) w with
      | (.ok bytes, w) => (stringPreview? bytes.toList limit, w)
      | (.error _, w) => (none, w)

/-- Notes a preview of what is pushed, unless the line has been shown or has a comment. -/
def push (x : Enricher σ) (number value : Nat) (n : Notes) (w : σ) : Notes × σ :=
  if n.hasVisited number || n.comments.contains number then (n, w)
  else
    match x.stringFor? value w with
    | (some text, w) => (n.addComment number text, w)
    | (none, w) => (n, w)

/-- The record of instruction `i` on virtual line `number`, with what is noted about it. -/
def enrich (x : Enricher σ) (number : Nat) (i : Instruction) (n : Notes) (k : Seeker) (w : σ) :
    Line × Notes × Seeker × σ :=
  let line := Line.ofInstruction number i
  match line.flow, i.literal? x.zone.arch with
  | .call, some value | .jump, some value =>
    let (line, n, k, w) := x.branch line value n k w
    (line, n.visit number, k, w)
  | .push, some value =>
    let (n, w) := x.push number value n w
    ({ line with value := some value }, n.visit number, k, w)
  | _, _ => (line, n.visit number, k, w)

end Enricher
end Disassembly
