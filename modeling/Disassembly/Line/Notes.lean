import Disassembly.NatMap

/-! # Notes

What is found out while lines are shown, by virtual line. Notes outlive a window: what was noted the
first time a line was shown is kept and never worked out again.
-/

namespace Disassembly

structure Notes where
  comments : NatMap String := []
  calls : NatMap String := []
  visited : NatMap Unit := []
  deriving DecidableEq, Repr

namespace Notes

def hasVisited (line : Nat) (n : Notes) : Bool :=
  n.visited.contains line

def visit (line : Nat) (n : Notes) : Notes :=
  { n with visited := n.visited.insert line () }

def addComment (line : Nat) (text : String) (n : Notes) : Notes :=
  { n with comments := n.comments.insert line text }

def addCall (line : Nat) (function : String) (n : Notes) : Notes :=
  { n with calls := n.calls.insert line function }

/-- The text that goes with `line`: its comment, or else what it calls. -/
def textFor? (line : Nat) (n : Notes) : Option String :=
  n.comments.get? line <|> (n.calls.get? line).map ("calls " ++ ·)

end Notes
end Disassembly
