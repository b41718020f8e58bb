import Mathlib.Algebra.Group.Nat.Defs

/-! # Arithmetic in machine words

A sum may need more bits than there are, and a difference may be below zero. Either is checked here, and
has no answer where the check fails.
-/

namespace Disassembly

/-- The sum, if it has no more than `bits` bits. -/
def add? (bits a b : Nat) : Option Nat :=
  if a + b < 2 ^ bits then some (a + b) else none

def sub? (a b : Nat) : Option Nat :=
  if b ≤ a then some (a - b) else none

theorem add?_eq {bits a b : Nat} (h : a + b < 2 ^ bits) : add? bits a b = some (a + b) :=
  if_pos h

theorem sub?_eq {a b : Nat} (h : b ≤ a) : sub? a b = some (a - b) :=
  if_pos h

end Disassembly
