import ChainRules.Peer.Command
import ChainRules.Peer.Inventory

/-!
# Payloads

What the messages carry that a validator is fed from. The command field decides how a payload is read.
-/

namespace ChainRules.Peer

/-- The payload of a message. -/
inductive Payload where
  | block (b : Block)
  | transaction (tx : Transaction)
  /-- What the peer has. -/
  | inventory (entries : Inventory)
  /-- What the peer wants. -/
  | request (entries : Inventory)
  deriving DecidableEq

namespace Payload

/-- The name of the command that carries the payload. -/
def command : Payload → String
  | block _ => "block"
  | transaction _ => "tx"
  | inventory _ => "inv"
  | request _ => "getdata"

/-- The payload as a message carries it. -/
def encode : Payload → Bytes
  | block b => b.encode
  | transaction tx => tx.encode
  | inventory entries => entries.encode
  | request entries => entries.encode

/-- A reading of a payload as a fallible operation of the library. -/
def reading {α : Type} (f : α → Payload) (r : Except Malformed α) : Except Fault Payload :=
  match r with
  | .ok x => .ok (f x)
  | .error cause => .error (.malformed cause)

/-- Reads the payload of a message with the given command field. -/
def decode (field : CommandField) (payload : Bytes) : Except Fault Payload :=
  match field.name with
  | .error cause => .error (.malformed cause)
  | .ok name =>
    if name = "block" then reading block (Block.decode payload)
    else if name = "tx" then reading transaction (Transaction.decode payload)
    else if name = "inv" then reading inventory (Inventory.decode payload)
    else if name = "getdata" then reading request (Inventory.decode payload)
    else .error (.unsupported (.command name))

end Payload

end ChainRules.Peer
