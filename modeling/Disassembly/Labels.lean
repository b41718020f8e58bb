import Disassembly.Index.Basic
import Disassembly.Levels.Edit
import Disassembly.Seeker
import Disassembly.Sweep

/-! # Labels

A scan of the whole zone finds every place that a call or jump in it leads to, and labels it with a
line before the instruction there. The entry point is labelled too.
-/

namespace Disassembly

/-- Why an address is labelled. If several reasons apply, the first of them counts. -/
inductive LabelReason where
  | entry
  | call
  | jump
  deriving DecidableEq, Repr

namespace LabelReason

def rank : LabelReason → Nat
  | .entry => 0
  | .call => 1
  | .jump => 2

def nameFor (address : Nat) : LabelReason → String
  | .entry => "EntryPoint"
  | .call => Text.label "sub_0x" address
  | .jump => Text.label "offset_0x" address

def ofFlow? : Flow → Option LabelReason
  | .call => some .call
  | .jump => some .jump
  | .plain | .push => none

end LabelReason

structure LabelTarget where
  address : Nat
  reason : LabelReason
  deriving DecidableEq, Repr

namespace LabelTarget

/-- Targets are ordered by address, and at one address by reason. -/
def le (a b : LabelTarget) : Bool :=
  a.address < b.address || (a.address == b.address && a.reason.rank ≤ b.reason.rank)

/-- What an instruction leads to, if the index covers that. -/
def ofInstruction? (arch : Arch) (index : Index) (i : Instruction) : Option LabelTarget :=
  match LabelReason.ofFlow? i.flow, i.literal? arch with
  | some reason, some address =>
    if index.covers address then some { address, reason } else none
  | _, _ => none

/-- Keeps the first of the targets in a row that have one address. -/
def dedup : List LabelTarget → List LabelTarget
  | a :: b :: ts => if a.address = b.address then dedup (a :: ts) else a :: dedup (b :: ts)
  | ts => ts
termination_by ts => ts.length

/-- Everything that is to be labelled in a zone with these instructions, each address once, in
order. -/
def collect (z : Zone) (index : Index) (instructions : List Instruction) : List LabelTarget :=
  let entry := if index.covers z.entry then [{ address := z.entry, reason := .entry }] else []
  dedup ((entry ++ instructions.filterMap (ofInstruction? z.arch index)).mergeSort le)

end LabelTarget

namespace Levels

variable {σ : Type}

/-- Labels the targets in turn; `done` of them have been labelled, each of which has pushed what is
behind it down by one line. -/
def labelTargets (source : Source σ) (dec : Decoder σ) (index : Index) (done : Nat) :
    List LabelTarget → Levels → Seeker → σ → Except Error Nat × Levels × Seeker × σ
  | [], s, k, w => (.ok done, s, k, w)
  | t :: ts, s, k, w =>
    match k.byOffset source dec index t.address w with
    | (.error e, k, w) => (.error (e.during .scanning), s, k, w)
    | (.ok seek, k, w) =>
      let label : Label := { name := t.reason.nameFor t.address, address := t.address }
      match s.insert (seek.line + done) label with
      | .error e => (.error e, s, k, w)
      | .ok s => labelTargets source dec index (done + 1) ts s k w

/-- Labels every target in the zone, and counts the labels. Lines that have labels already are
left alone. If it fails, the labels put in so far are still there. -/
def scan (z : Zone) (source : Source σ) (dec : Decoder σ) (index : Index) (s : Levels) (k : Seeker)
    (w : σ) : Except Error Nat × Levels × Seeker × σ :=
  if 0 < s.labelCount then (.ok 0, s, k, w)
  else
    match source.read index.trueStart (index.codeEnd - index.trueStart) w with
    | (.error e, w) => (.error (e.during .scanning), s, k, w)
    | (.ok bytes, w) =>
      let sweep := Sweep.ofArray bytes index.trueStart
      let (instructions, _, w) := sweep.take dec index.lineCount w
      labelTargets source dec index 0 (LabelTarget.collect z index instructions) s k w

end Levels
end Disassembly
