/-!
# Malformed payloads

The causes for which a payload from a peer cannot be read, and their wording.
-/

namespace ChainRules

/-- What a primitive read asks for. -/
inductive Primitive where
  | byte
  | word16
  | word32
  | word64
  | digest
  | byteVector
  deriving DecidableEq

/-- What a count in front of a list counts. -/
inductive Counted where
  | input
  | output
  | transaction
  | byteVector
  deriving DecidableEq

/-- Why a payload cannot be read. -/
inductive Malformed where
  /-- The payload ends inside a primitive that starts at the offset. -/
  | truncated (what : Primitive) (offset : Nat)
  /-- Bytes are left after the last field. -/
  | trailing (count offset : Nat)
  /-- A compact size is written in more bytes than it needs. -/
  | nonCanonical (value offset : Nat)
  /-- A list cannot fit into what is left of the payload. -/
  | oversizedCount (what : Counted) (count : Nat)
  /-- A block is larger than the settings allow. -/
  | oversizedBlock (size limit : Nat)
  /-- A command goes on after its first zero byte. -/
  | commandPadding
  /-- A command has a byte that is not a visible character. -/
  | commandText
  /-- An inventory has more entries than a message may carry. -/
  | longInventory (count limit : Nat)
  /-- An inventory cannot fit into what is left of the payload. -/
  | shortInventory (count : Nat)
  /-- A cause that was found elsewhere, in its own words. -/
  | other (text : String)
  deriving DecidableEq

/-- The name of a primitive in messages. -/
def Primitive.name : Primitive → String
  | .byte => "u8"
  | .word16 => "u16"
  | .word32 => "u32"
  | .word64 => "u64"
  | .digest => "digest"
  | .byteVector => "byte vector"

/-- The name of a counted thing in messages. -/
def Counted.name : Counted → String
  | .input => "input"
  | .output => "output"
  | .transaction => "transaction"
  | .byteVector => "byte vector"

/-- The wording of a cause. -/
def Malformed.message : Malformed → String
  | truncated what offset => s!"truncated {what.name} at offset {offset}"
  | trailing count offset => s!"{count} trailing bytes at offset {offset}"
  | nonCanonical value offset => s!"non-canonical compact size {value} at offset {offset}"
  | oversizedCount what count => s!"{what.name} count {count} exceeds remaining payload"
  | oversizedBlock size limit => s!"block of {size} bytes exceeds {limit}"
  | commandPadding => "command has bytes after NUL padding"
  | commandText => "command is not printable ASCII"
  | longInventory count limit => s!"inventory of {count} entries exceeds {limit}"
  | shortInventory count => s!"inventory count {count} exceeds payload"
  | other text => text

end ChainRules
