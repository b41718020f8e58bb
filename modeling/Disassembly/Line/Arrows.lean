import Disassembly.Line.Basic

/-! # Arrows

An arrow connects a branch to its target where both are in the same window. Lanes are given out in
the order of the branches; once there are no more, a branch gets no arrow.
-/

namespace Disassembly

/-- The lines that an arrow connects, the upper one first. -/
structure Arrow where
  top : Nat
  bottom : Nat
  deriving DecidableEq, Repr

namespace Arrow

def addressRange? : List Line → Option (Nat × Nat)
  | [] => none
  | l :: ls =>
    if l.isInstruction then
      match addressRange? ls with
      | some (low, high) => some (min l.address low, max l.address high)
      | none => some (l.address, l.address)
    else addressRange? ls

/-- The arrow from line `place` of the window. Addresses out of `range` are not looked for. -/
def ofLine? (lines : List Line) (range : Nat × Nat) (l : Line) (place : Nat) : Option Arrow :=
  match l.value with
  | none => none
  | some value =>
    if l.isInstruction && l.flow.isBranch && range.1 ≤ value && value ≤ range.2 then
      match lines.findIdx? fun m => m.isInstruction && m.address == value with
      | some target => some { top := min place target, bottom := max place target }
      | none => none
    else none

def ofLines (lines : List Line) : List Arrow :=
  match addressRange? lines with
  | none => []
  | some range =>
    (lines.zipIdx.filterMap fun (l, place) => ofLine? lines range l place).take Rails.lanes

/-- What an arrow in `lane` draws on line `place` of the window. -/
def bitsOn (lane place : Nat) (a : Arrow) : UInt8 :=
  let upper := if place = a.top then Rails.startBit else 0
  let lower := if place = a.bottom then Rails.endBit else 0
  let through := if a.top ≤ place ∧ place ≤ a.bottom then Rails.laneBit lane else 0
  upper ||| lower ||| through

def railsOn (place : Nat) : (lane : Nat) → List Arrow → Rails
  | _, [] => {}
  | lane, a :: arrows => (railsOn place (lane + 1) arrows).add (a.bitsOn lane place)

end Arrow

/-- Lays out arrows over a window, in place of whatever rails it had; gives the number of lanes that
are used. -/
def layoutArrows (lines : List Line) : List Line × Nat :=
  let arrows := Arrow.ofLines lines
  let draw (l : Line) (place : Nat) : Line := { l with rails := Arrow.railsOn place 0 arrows }
  (lines.zipIdx.map fun (l, place) => draw l place, arrows.length)

end Disassembly
