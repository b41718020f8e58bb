import Disassembly.Error

/-! # Byte sources

A source gives random access to the bytes of a file. Reading may fail, and may change the state `σ`
of whatever is behind it, whether it fails or not.
-/

namespace Disassembly

/-- Random access to the bytes of a file. -/
structure Source (σ : Type) where
  size : Nat
  /-- Reads exactly `length` bytes from `offset` on. -/
  read (offset length : Nat) : σ → Except Error (Array UInt8) × σ

/-- What is found under a path: the length that it had when it was opened, and its bytes now or the
reason why they cannot be read. -/
structure StoredFile where
  size : Nat
  content : Except String (Array UInt8)

/-- The `length` bytes of `bytes` from `offset` on, if there are that many. Only the number of bytes is
checked before the slice is taken, so a slice of nothing may begin past the end. -/
def sliceOf (bytes : Array UInt8) (offset length : Nat) : Except Error (Array UInt8) :=
  let available := bytes.size - offset
  if length ≤ available then
    if offset ≤ bytes.size then .ok (bytes.extract offset (offset + length))
    else .error { failure := .outOfBounds offset bytes.size }
  else .error { failure := .read offset length (.short available) }

namespace Source

variable {σ : Type}

def ofBytes (bytes : Array UInt8) : Source σ where
  size := bytes.size
  read offset length w := (sliceOf bytes offset length, w)

/-- A source over a file. A file cannot be positioned at 2^63 or further on, not even to read
nothing there; and nothing can always be read elsewhere. -/
def ofFile (file : StoredFile) : Source σ where
  size := file.size
  read offset length w :=
    let fail (fault : ReadFault) : Except Error (Array UInt8) :=
      .error { failure := .read offset length fault }
    let available := file.size - offset
    let result :=
      if available < length then fail (.short available)
      else if 1 <<< 63 ≤ offset then fail .unreachable
      else if length = 0 then .ok #[]
      else
        match file.content with
        | .error reason => fail (.device reason)
        | .ok bytes =>
          if bytes.size < offset + length then fail .truncated
          else .ok (bytes.extract offset (offset + length))
    (result, w)

/-- Reads up to `length` bytes from `offset` on, fewer at the end of the file. Nothing is read
where nothing is left. -/
def readClamped (source : Source σ) (offset length : Nat) (w : σ) :
    Except Error (Array UInt8) × σ :=
  let length := min length (source.size - offset)
  if length = 0 then (.ok #[], w) else source.read offset length w

end Source
end Disassembly
