import Disassembly.Error

/-! # Settings

The numbers that indexing and rendering can be tuned with.
-/

namespace Disassembly

/-- Settings for indexing and rendering; the defaults suit ordinary compiler output. -/
structure Config where
  /-- How many bytes of code to leave between checkpoints. -/
  checkpointSpan : Nat := 500
  /-- How many filler instructions in a row end the code. -/
  fillerRunLimit : Nat := 30
  /-- The longest string that is shown for a push. -/
  previewLength : Nat := 48
  /-- Whether labels are looked for when a zone is opened. -/
  scanOnStart : Bool := true
  /-- Whether arrows are laid out in each window. -/
  arrows : Bool := true
  deriving DecidableEq, Repr

namespace Config

/-- A span or a limit of nothing is refused. -/
def validate (c : Config) : Except Error Config :=
  let zero (field : String) : Except Error Config :=
    .error { failure := .config (.zero field), action := some .configuring }
  if c.checkpointSpan = 0 then zero "checkpoint_span"
  else if c.fillerRunLimit = 0 then zero "filler_run_limit"
  else .ok c

end Config
end Disassembly
