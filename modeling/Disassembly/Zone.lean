import Disassembly.Error

/-! # Zones

A zone is a range of a file that is believed to hold code, with the place where execution is said to
begin.
-/

namespace Disassembly

/-- A range of a file, to be viewed as code. -/
structure Zone where
  start : Nat
  size : Nat
  /-- The file offset of the nominal first instruction. -/
  entry : Nat
  arch : Arch
  deriving DecidableEq, Repr

namespace Zone

/-- The offset just past the zone, or the last offset there is. -/
def stop (z : Zone) : Nat :=
  min (z.start + z.size) (Text.wordBound - 1)

def contains (z : Zone) (offset : Nat) : Bool :=
  z.start ≤ offset && offset < z.stop

def fault? (z : Zone) : Option ZoneFault :=
  if z.size = 0 then some .empty
  else if Text.wordBound ≤ z.start + z.size then some .pastAddressSpace
  else if !z.contains z.entry then some (.entryOutside z.entry z.start z.stop)
  else none

def validate (z : Zone) : Except Error Unit :=
  match z.fault? with
  | some fault => .error { failure := .badZone fault }
  | none => .ok ()

end Zone
end Disassembly
