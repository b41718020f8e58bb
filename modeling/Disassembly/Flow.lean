/-! # Control flow

What an instruction does to control flow can be told from its mnemonic, as far as a viewer cares.
-/

namespace Disassembly

inductive Flow where
  | plain
  | call
  | jump
  /-- A push may hand over the address of a string. -/
  | push
  deriving DecidableEq, Repr

namespace Flow

/-- Every mnemonic in `j` is a jump. -/
def ofMnemonic (mnemonic : String) : Flow :=
  if mnemonic = "call" then .call
  else if mnemonic = "push" then .push
  else if mnemonic.toList.head? = some 'j' then .jump
  else .plain

def isBranch : Flow → Bool
  | .call | .jump => true
  | .plain | .push => false

end Flow
end Disassembly
