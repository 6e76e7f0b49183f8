import ChainRules.Script.Opcode
import ChainRules.Text.Hex

/-!
# Aborted scripts

The causes for which the evaluation of a script stops without an answer, and their wording.
-/

namespace ChainRules.Script

/-- Why evaluation stopped. -/
inductive Abort where
  /-- The script is longer than scripts may be. -/
  | scriptSize (size : Nat)
  /-- A push that starts at the offset runs past the end of the script. -/
  | truncatedPush (offset : Nat)
  /-- A pushed item is longer than items may be. -/
  | pushSize (size : Nat)
  /-- More operations than a script may have. -/
  | opCount
  /-- More items than the stacks may hold. -/
  | stackSize
  /-- An operation needs more items than there are. -/
  | stackUnderflow (op : Opcode)
  /-- A numeric operand is longer than `width` bytes. -/
  | numberOverflow (width : Nat)
  | disabledOpcode (op : Opcode)
  | badOpcode (op : Opcode)
  /-- A conditional is turned or closed that is not open, or one is left open. -/
  | unbalancedConditional
  | opReturn
  /-- An operation that insists on true found false. -/
  | verifyFailed (op : Opcode)
  /-- A depth names no item. -/
  | invalidStackOperation
  | pubkeyCount (count : Int)
  | sigCount (count : Int)
  | cancelled
  deriving DecidableEq

/-- An opcode as messages show it: two hexadecimal digits. -/
def Opcode.display (op : Opcode) : String :=
  "0x" ++ Text.Hex.padded 2 op.toNat

/-- The wording of a cause. -/
def Abort.message : Abort → String
  | scriptSize size => s!"Script too large: {size} bytes"
  | truncatedPush offset => s!"Push data truncated at offset {offset}"
  | pushSize size => s!"Push element too large: {size} bytes"
  | opCount => "Operation limit exceeded"
  | stackSize => "Stack overflow"
  | stackUnderflow op => s!"Stack underflow executing opcode {op.display}"
  | numberOverflow width => s!"Numeric operand exceeds {width} bytes"
  | disabledOpcode op => s!"Disabled opcode {op.display}"
  | badOpcode op => s!"Bad opcode {op.display}"
  | unbalancedConditional => "Unbalanced conditional"
  | opReturn => "OP_RETURN executed"
  | verifyFailed op => s!"Verify failed for opcode {op.display}"
  | invalidStackOperation => "Invalid stack operation"
  | pubkeyCount count => s!"Public key count out of range: {count}"
  | sigCount count => s!"Signature count out of range: {count}"
  | cancelled => "Evaluation cancelled"

end ChainRules.Script
