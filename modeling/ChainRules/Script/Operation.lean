import ChainRules.Bytes
import ChainRules.Script.Abort

/-!
# Script operations

A script is a sequence of operations. An operation is an opcode and, for an opcode that carries some,
its data. Every operation of a script is read before the first is executed.
-/

namespace ChainRules.Script

/-- An opcode and the data that it carries. -/
structure Operation where
  opcode : Opcode
  data : Option Bytes
  deriving DecidableEq

namespace Operation

/-- An operation without data. -/
def bare (op : Opcode) : Operation :=
  ⟨op, none⟩

/-- The push of a byte string with the opcode that takes the fewest bytes. -/
def push (data : Bytes) : Operation :=
  let n := data.length
  let op : Opcode :=
    if n ≤ 0x4b then UInt8.ofNat n
    else if n ≤ 0xff then .opPushData1
    else if n ≤ 0xffff then .opPushData2
    else .opPushData4
  ⟨op, some data⟩

/-- What stands between an opcode and its data: the length, cut to the width that the opcode gives
it. -/
def lengthField (op : Opcode) (size : Nat) : Bytes :=
  match op.dataForm with
  | .counted width => Bytes.ofNatLe width size
  | _ => []

/-- The written form of an operation. -/
def encode (o : Operation) : Bytes :=
  match o.data with
  | none => [o.opcode]
  | some data => o.opcode :: lengthField o.opcode data.length ++ data

/-- The data that follows an opcode, and the rest; `none` if the bytes end inside it. -/
def splitData? (op : Opcode) (bs : Bytes) : Option (Option Bytes × Bytes) :=
  match op.dataForm with
  | .bare => some (none, bs)
  | .fixed size => (bs.split? size).map fun (data, rest) => (some data, rest)
  | .counted width => do
    let (size, rest) ← bs.split? width
    let (data, rest) ← rest.split? size.toNatLe
    return (some data, rest)

end Operation

/-- The written form of a script. -/
def encode (ops : List Operation) : Bytes :=
  ops.flatMap Operation.encode

/-- Reads operations until the bytes end; `offset` is where the bytes start in the script. Each
operation takes at least one byte, so `fuel` suffices if it is at least their number. -/
def parseFrom : (fuel offset : Nat) → Bytes → Except Abort (List Operation)
  | _, _, [] => .ok []
  | 0, offset, _ :: _ => .error (.truncatedPush offset)
  | fuel + 1, offset, op :: bs =>
    match Operation.splitData? op bs with
    | none => .error (.truncatedPush offset)
    | some (data, rest) => do
      let o : Operation := ⟨op, data⟩
      let ops ← parseFrom fuel (offset + o.encode.length) rest
      return o :: ops

/-- Reads a whole script; a push that runs past the end is an error. -/
def parse (script : Bytes) : Except Abort (List Operation) :=
  parseFrom script.length 0 script

end ChainRules.Script
