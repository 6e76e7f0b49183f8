import ChainRules.Fault

/-!
# Command fields

A message between peers names its command in twelve bytes: visible ASCII characters, then zeros.
-/

namespace ChainRules.Peer

/-- The command field of a message. -/
structure CommandField where
  bytes : Bytes
  size : bytes.length = 12
  deriving DecidableEq

namespace CommandField

/-- A byte string as a command field, if its length is right. -/
def ofBytes? (bs : Bytes) : Option CommandField :=
  if h : bs.length = 12 then some ⟨bs, h⟩ else none

/-- Whether a byte is a visible ASCII character. -/
def isVisible (b : UInt8) : Bool :=
  0x21 ≤ b && b ≤ 0x7e

/-- The name in the field: the characters before the first zero, after which all is zero. -/
def name (field : CommandField) : Except Malformed String :=
  let text := field.bytes.takeWhile (· ≠ 0)
  let padding := field.bytes.dropWhile (· ≠ 0)
  if padding.any (· ≠ 0) then .error .commandPadding
  else if text.all isVisible then .ok (String.ofList (text.map fun b => Char.ofNat b.toNat))
  else .error .commandText

/-- The field of a command name. -/
def ofName (name : String) : Except Fault CommandField :=
  let chars := name.toList
  if h : chars.length ≤ 12 ∧ chars.all (fun c => 0x21 ≤ c.toNat && c.toNat ≤ 0x7e) then
    .ok ⟨chars.map (fun c => UInt8.ofNat c.toNat) ++ List.replicate (12 - chars.length) 0, by
      simp only [List.length_append, List.length_map, List.length_replicate]
      omega⟩
  else .error (.invalidArgument (.commandName name))

end CommandField

end ChainRules.Peer
