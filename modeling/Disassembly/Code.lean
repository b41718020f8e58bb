/-! # Runs of bytes

A run of bytes is what is left of a fetched array from some position on. Moving forward in it copies
nothing, and its meaning is the list of the bytes that remain.
-/

namespace Disassembly

/-- The bytes of an array from `pos` on. -/
structure Code where
  bytes : Array UInt8
  pos : Nat := 0

namespace Code

def ofArray (bytes : Array UInt8) : Code :=
  { bytes }

def toList (c : Code) : List UInt8 :=
  c.bytes.toList.drop c.pos

def size (c : Code) : Nat :=
  c.bytes.size - c.pos

def isEmpty (c : Code) : Bool :=
  c.size == 0

def drop (n : Nat) (c : Code) : Code :=
  { c with pos := c.pos + n }

/-- The first `n` bytes, or all of them if there are fewer. -/
def take (n : Nat) (c : Code) : List UInt8 :=
  (c.bytes.extract c.pos (c.pos + n)).toList

def head? (c : Code) : Option UInt8 :=
  c.bytes[c.pos]?

@[simp] theorem length_toList (c : Code) : c.toList.length = c.size := by
  simp [toList, size]

@[simp] theorem toList_ofArray (bytes : Array UInt8) : (ofArray bytes).toList = bytes.toList := by
  simp [toList, ofArray]

@[simp] theorem toList_drop (n : Nat) (c : Code) : (c.drop n).toList = c.toList.drop n := by
  simp [toList, drop]

@[simp] theorem size_drop (n : Nat) (c : Code) : (c.drop n).size = c.size - n := by
  simp only [size, drop]
  omega

theorem head?_eq (c : Code) : c.head? = c.toList.head? := by
  simp [head?, toList, List.head?_drop]

theorem isEmpty_eq_false_iff {c : Code} : c.isEmpty = false ↔ 0 < c.size := by
  simp [isEmpty, Nat.pos_iff_ne_zero]

end Code
end Disassembly
